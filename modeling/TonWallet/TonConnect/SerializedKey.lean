import TonWallet.Encoding.Crc16
import TonWallet.Encoding.ByteBuffer
import TonWallet.TonConnect.ConnectReply

/-!
# Damaged keys

tonlib appends a checksum to a key, and checks it when it reads one.
`convertPublicKey`, which does the work of that reader, looks at the length and the
tag only.

* `convertPublicKey_eq_ok`: it accepts any checksum.
* `convertPublicKey_checked_iff`: so it is right about exactly the texts that are
  no key with a wrong one.
-/

namespace TonWallet.TonConnect

open Encoding

namespace TonlibKey

variable (k : TonlibKey)

/-- What the checksum is taken over: the tag and the key. -/
def checked : Bytes := [0x3E, 0xE6] ++ k.key

/-- The checksum is the one that `PublicKey::serialize` appends (`block.cpp` lines 68–79). -/
def Genuine : Prop := k.crc = bigEndian 2 (crc16 k.checked).toNat

instance : Decidable k.Genuine := inferInstanceAs (Decidable (_ = _))

@[ext] theorem ext {k k' : TonlibKey} (hkey : k.key = k'.key) (hcrc : k.crc = k'.crc) :
    k = k' := by
  cases k
  cases k'
  congr

theorem serialized_injective : Function.Injective serialized := by
  intro k k' h
  have hbytes : [0x3E, 0xE6] ++ (k.key ++ k.crc) = [0x3E, 0xE6] ++ (k'.key ++ k'.crc) := by
    have hdecoded := congrArg base64UrlDecode h
    rw [serialized, serialized, base64UrlDecode_base64UrlEncode,
      base64UrlDecode_base64UrlEncode] at hdecoded
    exact Except.ok.inj hdecoded
  obtain ⟨hkey, hcrc⟩ := List.append_inj (List.append_cancel_left hbytes)
    (k.length_key.trans k'.length_key.symm)
  exact ext hkey hcrc

/-- The key that 36 bytes with the tag are. -/
theorem exists_of_bytes {bytes : Bytes} (hlen : bytes.length = 36)
    (htag : bytes.take 2 = [0x3E, 0xE6]) :
    ∃ k : TonlibKey, bytes = [0x3E, 0xE6] ++ (k.key ++ k.crc) := by
  refine ⟨⟨(bytes.drop 2).take 32, (bytes.drop 2).drop 32, ?_, ?_⟩, ?_⟩
  · rw [List.length_take, List.length_drop, hlen]
    rfl
  · rw [List.length_drop, List.length_drop, hlen]
  · rw [List.take_append_drop, ← htag, List.take_append_drop]

end TonlibKey

/-- The texts that are accepted: the keys with any checksum. -/
theorem convertPublicKey_eq_ok {s v : Text} :
    convertPublicKey s = .ok v ↔ ∃ k : TonlibKey, s = k.serialized ∧ v = hexEncode k.key := by
  constructor
  · intro h
    obtain ⟨bytes, hbytes, hchecks⟩ := bind_eq_ok.mp h
    split at hchecks
    · cases hchecks
    · rename_i hlen
      split at hchecks
      · cases hchecks
      · rename_i htag
        obtain ⟨k, rfl⟩ := TonlibKey.exists_of_bytes (not_not.mp hlen) (not_not.mp htag)
        have hs : s = k.serialized :=
          base64UrlEncode_of_base64UrlDecode hbytes (by rw [not_not.mp hlen])
        rw [hs, convertPublicKey_serialized] at h
        exact ⟨k, hs, (Except.ok.inj h).symm⟩
  · rintro ⟨k, rfl, rfl⟩
    exact convertPublicKey_serialized k

/-- The text is accepted if and only if it is a key with its checksum, and the value is the key. -/
def AcceptedAsKey (s : Text) : Prop :=
  ∀ v, convertPublicKey s = .ok v ↔
    ∃ k : TonlibKey, k.Genuine ∧ s = k.serialized ∧ v = hexEncode k.key

/-- **Serialized keys.** A text is treated as it should be exactly if it is no key with a wrong
checksum. -/
theorem convertPublicKey_checked_iff (s : Text) :
    AcceptedAsKey s ↔ ¬ ∃ k : TonlibKey, ¬ k.Genuine ∧ s = k.serialized := by
  constructor
  · rintro h ⟨k, hk, rfl⟩
    obtain ⟨k', hk', he, -⟩ := (h _).mp (convertPublicKey_serialized k)
    exact hk (TonlibKey.serialized_injective he ▸ hk')
  · intro h v
    rw [convertPublicKey_eq_ok]
    refine exists_congr fun k => ⟨fun ⟨hs, hv⟩ => ⟨?_, hs, hv⟩, And.right⟩
    exact not_not.mp fun hk => h ⟨k, hk, hs⟩

private theorem length_zeroCrc : ([0, 0] : Bytes).length = 2 := rfl

/-- A key whose checksum has been replaced by zeros. -/
def damagedKey : TonlibKey :=
  ⟨List.replicate 32 1, [0, 0], List.length_replicate, length_zeroCrc⟩

theorem damaged_key_accepted :
    convertPublicKey damagedKey.serialized = .ok (hexEncode (List.replicate 32 1)) ∧
      ¬ ∀ s, AcceptedAsKey s := by
  refine ⟨convertPublicKey_serialized damagedKey, fun h => ?_⟩
  obtain ⟨k, hk, he, -⟩ := (h _ _).mp (convertPublicKey_serialized damagedKey)
  rw [← TonlibKey.serialized_injective he] at hk
  revert hk
  decide +kernel

end TonWallet.TonConnect
