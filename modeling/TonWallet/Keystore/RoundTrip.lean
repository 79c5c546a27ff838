import TonWallet.Keystore.Controller

/-!
# Records are read back

A key that has been written into a record is read back from it, for secrets of
every length. Writing and reading do their offset arithmetic separately; both
are proved against one layout, `recordOf`.

* `dataToEncrypt_eq`, `readRecord_recordOf`: the two sides of the layout.
* `record_round_trip`: both kinds of record, through all the encryption.
-/

namespace TonWallet.Keystore

open Encoding

/-! ## The layout -/

/-- Padding length, `ok`, password, secret, padding. -/
def recordOf (password secret : Bytes) (random : ℕ → Byte) : Bytes :=
  let padding := paddingOf (1 + 2 + password.length + secret.length)
  [BitVec.ofNat 8 padding, 0x6F, 0x6B] ++ password ++ secret ++ nextBytes random padding

theorem paddingOf_lt (len : ℕ) : paddingOf len < 16 := by
  unfold paddingOf
  split_ifs with h
  · omega
  · omega

theorem dvd_add_paddingOf (len : ℕ) : 16 ∣ len + paddingOf len := by
  unfold paddingOf
  split_ifs with h
  · omega
  · omega

@[simp] theorem length_nextBytes (random : ℕ → Byte) (n : ℕ) : (nextBytes random n).length = n := by
  simp [nextBytes]

theorem length_recordOf (password secret : Bytes) (random : ℕ → Byte) :
    (recordOf password secret random).length = 1 + 2 + password.length + secret.length
      + paddingOf (1 + 2 + password.length + secret.length) := by
  simp [recordOf]
  omega

/-- The buffer handed to AES-IGE consists of whole blocks. -/
theorem dvd_length_recordOf (password secret : Bytes) (random : ℕ → Byte) :
    16 ∣ (recordOf password secret random).length := by
  rw [length_recordOf]
  exact dvd_add_paddingOf _

/-- The array is filled from the front, without a gap and without an overflow. -/
theorem dataToEncrypt_eq (password secret : Bytes) (random : ℕ → Byte) :
    dataToEncrypt password secret random = .ok (recordOf password secret random) := by
  set padding := paddingOf (1 + 2 + password.length + secret.length) with hp
  set head : Bytes := [BitVec.ofNat 8 padding, 0x6F, 0x6B] with hh
  have hfresh : List.replicate (1 + 2 + password.length + secret.length + padding) (0 : Byte)
      = [0, 0, 0] ++ List.replicate (password.length + (secret.length + padding)) 0 := by
    rw [show 1 + 2 + password.length + secret.length + padding
      = (password.length + (secret.length + padding)) + 1 + 1 + 1 by omega]
    rfl
  have hpassword : arraycopy password 0
      (head ++ List.replicate (password.length + (secret.length + padding)) 0) 3 password.length
      = .ok (head ++ password ++ List.replicate (secret.length + padding) 0) :=
    arraycopy_fresh rfl rfl
  have hsecret : arraycopy secret 0
      (head ++ password ++ List.replicate (secret.length + padding) 0) (3 + password.length)
      secret.length = .ok (head ++ password ++ secret ++ List.replicate padding 0) :=
    arraycopy_fresh (by simp [hh]; omega) rfl
  have hpad : arraycopy (nextBytes random padding) 0
      (head ++ password ++ secret ++ List.replicate padding 0)
      (3 + password.length + secret.length) (nextBytes random padding).length
      = .ok (head ++ password ++ secret ++ nextBytes random padding ++ List.replicate 0 0) :=
    arraycopy_fresh (by simp [hh]; omega) (by simp)
  rw [List.replicate_zero, List.append_nil] at hpad
  unfold dataToEncrypt recordOf
  simp only [← hp, hfresh]
  show (do
    let data ← arraycopy password 0
      (head ++ List.replicate (password.length + (secret.length + padding)) 0) 3 password.length
    let data ← arraycopy secret 0 data (3 + password.length) secret.length
    if padding ≠ 0 then
      arraycopy (nextBytes random padding) 0 data (3 + password.length + secret.length)
        (nextBytes random padding).length
    else .ok data) = _
  rw [hpassword, ok_bind, hsecret, ok_bind, hpad]
  split_ifs with h0
  · rfl
  · rw [hh, not_not.mp h0]
    rfl

/-- What `readRecord` gives back for a record. -/
theorem readRecord_recordOf {password : Bytes} (hlen : password.length = 64) (secret : Bytes)
    (random : ℕ → Byte) (tonPublicKey : Option Text) :
    TonController.readRecord (recordOf password secret random) tonPublicKey
      = .ok (some { key := { publicKey := tonPublicKey, secret := secret },
                    localPassword := password }) := by
  set padding := paddingOf (1 + 2 + password.length + secret.length) with hp
  have hrec : recordOf password secret random
      = [BitVec.ofNat 8 padding, 0x6F, 0x6B] ++ password ++ secret ++ nextBytes random padding :=
    rfl
  have hsigned : (BitVec.ofNat 8 padding).toInt = padding := by
    have key : ∀ n < 16, (BitVec.ofNat 8 n).toInt = n := by decide
    exact key padding (paddingOf_lt _)
  have hsize : ((recordOf password secret random).length : ℤ) - 64
      - (BitVec.ofNat 8 padding).toInt - 3 = secret.length := by
    rw [hsigned, length_recordOf, ← hp, hlen]
    omega
  have hrec' : recordOf password secret random = [BitVec.ofNat 8 padding, 0x6F, 0x6B]
      ++ password ++ (secret ++ nextBytes random padding) := by rw [hrec, List.append_assoc]
  have hpassword : arraycopy (recordOf password secret random) 3 (List.replicate 64 0) 0 64
      = .ok password := arraycopy_block (by rfl) hlen.symm hrec'
  have hsecret : arraycopy (recordOf password secret random) (3 + 64)
      (List.replicate secret.length 0) 0 secret.length = .ok secret :=
    arraycopy_block (by simp [hlen]) rfl hrec
  have h0 : (recordOf password secret random).getD 0 0 = BitVec.ofNat 8 padding := rfl
  have hok : (recordOf password secret random).getD 1 0 = 0x6F ∧
      (recordOf password secret random).getD 2 0 = 0x6B := ⟨rfl, rfl⟩
  unfold TonController.readRecord
  rw [if_pos hok]
  simp only [h0, hsize]
  rw [if_neg (by omega), hpassword, Int.toNat_natCast, ok_bind, hsecret]
  rfl

/-! ## Through the ciphers -/

variable {K : Type} {P : Primitives K}

/-- The record a controller without authentication keeps for later. -/
theorem onFinishWalletCreate_passcode {c : TonController K} {e : KeyEntry K}
    (hc : c.entry = some e) (hauth : e.isUserAuthenticationRequired = false) (password : Bytes)
    (key : Key) (random : ℕ → Byte) (seed : Bytes) :
    c.onFinishWalletCreate P password key random seed
      = ({ c with memInputKey := some { key := key, localPassword := password }
                  creatingDataForLaterEncrypt := some (recordOf password key.secret random) },
        .ok none) := by
  unfold TonController.onFinishWalletCreate
  simp [dataToEncrypt_eq, TonController.keyProtectionType, hc, hauth]

/-- A record encrypted under a passcode is read back with the same passcode and salt. -/
theorem decryptTonData_setUserPasscode (hP : P.Lawful) {c : TonController K} {e : KeyEntry K}
    (hc : c.entry = some e) (hauth : e.isUserAuthenticationRequired = false) {password : Bytes}
    (hlen : password.length = 64) {secret : Bytes} {random : ℕ → Byte}
    (hdata : c.creatingDataForLaterEncrypt = some (recordOf password secret random))
    (hfits : (recordOf password secret random).length ≤ P.maxMessage)
    (passcode : Text) (salt seed : Bytes) :
    ∃ c' encrypted, c.setUserPasscode P passcode salt seed = (c', .ok (encrypted, salt)) ∧
      ∀ c'' : TonController K, c''.entry = some e →
        ∀ change passcodeType, passcodeType ≠ -1 → ∀ tonPublicKey,
        (c''.decryptTonData P (some passcode) none change (some encrypted) (some salt) passcodeType
          tonPublicKey).2
          = .ok (some { key := { publicKey := tonPublicKey, secret := secret },
                        localPassword := password }) := by
  set data := recordOf password secret random with hd
  set k := keyAndIv P (some passcode) (some salt) with hk
  set cipherText := P.aesIge k.1 k.2 true data with hct
  have hlenct : cipherText.length = data.length := hP.length_aesIge k.1 k.2 true data
  have hback : P.aesIge k.1 k.2 false cipherText = data :=
    hP.aesIge_roundtrip k.1 k.2 data (dvd_length_recordOf password secret random)
  have hbig : ¬ cipherText.length ≤ 3 := by
    rw [hlenct, hd, length_recordOf, hlen]
    omega
  obtain ⟨bytes, henc, hdec⟩ := hP.rsa_roundtrip e.key seed cipherText (by rw [hlenct]; exact hfits)
  refine ⟨{ c with creatingDataForLaterEncrypt := some cipherText }, P.encodeToString bytes, ?_, ?_⟩
  · unfold TonController.setUserPasscode
    simp only [hdata, ← hk, ← hct]
    simp [TonController.encrypt, hc, henc]
  · intro c'' hc'' change passcodeType htype tonPublicKey
    have hdecrypt : c''.decrypt P (some (P.encodeToString bytes)) none = some cipherText := by
      unfold TonController.decrypt
      simp [TonController.cipherForDecrypt, hc'', hP.decode_encodeToString, Cipher.doFinal, hauth,
        hdec]
    unfold TonController.decryptTonData
    simp only [hdecrypt, if_neg hbig, if_pos htype, ← hk, hback, hd,
      readRecord_recordOf hlen secret random tonPublicKey]

/-- A record encrypted at creation is read back by an authorised cipher. -/
theorem decryptTonData_onFinishWalletCreate (hP : P.Lawful) {c : TonController K}
    {e : KeyEntry K} (hc : c.entry = some e) (hauth : e.isUserAuthenticationRequired = true)
    {password : Bytes} (hlen : password.length = 64) {key : Key} {random : ℕ → Byte}
    (hfits : (recordOf password key.secret random).length ≤ P.maxMessage) (seed : Bytes) :
    ∃ c' encrypted, c.onFinishWalletCreate P password key random seed
        = (c', .ok (some encrypted)) ∧
      ∃ cipher, c'.cipherForDecrypt = some cipher ∧
        ∀ change passcodeSalt tonPublicKey,
        (c'.decryptTonData P none (some cipher.authorize) change (some encrypted) passcodeSalt (-1)
          tonPublicKey).2
          = .ok (some { key := { publicKey := tonPublicKey, secret := key.secret },
                        localPassword := password }) := by
  set data := recordOf password key.secret random with hd
  obtain ⟨bytes, henc, hdec⟩ := hP.rsa_roundtrip e.key seed data hfits
  have hbig : ¬ data.length ≤ 3 := by
    rw [hd, length_recordOf, hlen]
    omega
  set c' : TonController K :=
    { c with memInputKey := some { key := key, localPassword := password } } with hc'
  have htype : c'.keyProtectionType ≠ .none := TonController.keyProtectionType_ne_none hc hauth
  refine ⟨c', P.encodeToString bytes, ?_, { entry := e }, ?_, ?_⟩
  · unfold TonController.onFinishWalletCreate
    simp only [dataToEncrypt_eq, ← hc', if_pos htype, ← hd]
    simp [TonController.encrypt, hc', hc, henc]
  · simp [TonController.cipherForDecrypt, hc', hc]
  · intro change passcodeSalt tonPublicKey
    have hread := readRecord_recordOf hlen key.secret random tonPublicKey
    rw [← hd] at hread
    unfold TonController.decryptTonData TonController.decrypt
    simp [hP.decode_encodeToString, Cipher.doFinal, Cipher.authorize, hdec, hbig, hread]

/-- **Record round trip.** A 64-byte password and a secret of any length that fits are
read back byte for byte, (1) from the record of a passcode and (2) from the biometric
record; the buffer they are written to always consists of whole AES blocks. -/
theorem record_round_trip (hP : P.Lawful) {c : TonController K} {e : KeyEntry K}
    (hc : c.entry = some e) {password : Bytes} (hlen : password.length = 64) (key : Key)
    (random : ℕ → Byte) (hfits : (recordOf password key.secret random).length ≤ P.maxMessage)
    (seed : Bytes) (change : Bool) (tonPublicKey : Option Text) :
    (e.isUserAuthenticationRequired = false →
      ∀ (passcode : Text) (salt seed' : Bytes) (passcodeType : ℤ), passcodeType ≠ -1 →
      ∃ c₁ c₂ encrypted, c.onFinishWalletCreate P password key random seed = (c₁, .ok none) ∧
        c₁.setUserPasscode P passcode salt seed' = (c₂, .ok (encrypted, salt)) ∧
        (c₂.decryptTonData P (some passcode) none change (some encrypted) (some salt) passcodeType
          tonPublicKey).2
          = .ok (some { key := { publicKey := tonPublicKey, secret := key.secret },
                        localPassword := password })) ∧
    (e.isUserAuthenticationRequired = true →
      ∃ c₁ encrypted cipher,
        c.onFinishWalletCreate P password key random seed = (c₁, .ok (some encrypted)) ∧
        c₁.cipherForDecrypt = some cipher ∧
        (c₁.decryptTonData P none (some cipher.authorize) change (some encrypted) none (-1)
          tonPublicKey).2
          = .ok (some { key := { publicKey := tonPublicKey, secret := key.secret },
                        localPassword := password })) ∧
    ∃ data, dataToEncrypt password key.secret random = .ok data ∧ 16 ∣ data.length := by
  refine ⟨fun hauth passcode salt seed' passcodeType htype => ?_, fun hauth => ?_, ?_⟩
  · have hfinish := onFinishWalletCreate_passcode (P := P) hc hauth password key random seed
    set c₁ : TonController K :=
      { c with memInputKey := some { key := key, localPassword := password }
               creatingDataForLaterEncrypt := some (recordOf password key.secret random) } with hc₁
    have hentry : c₁.entry = some e := hc
    obtain ⟨c₂, encrypted, hset, hread⟩ := decryptTonData_setUserPasscode hP hentry hauth hlen rfl
      hfits passcode salt seed'
    have hentry₂ : c₂.entry = some e := by
      rw [← hentry, ← TonController.setUserPasscode_entry P c₁ passcode salt seed', hset]
    exact ⟨c₁, c₂, encrypted, hfinish, hset,
      hread c₂ hentry₂ change passcodeType htype tonPublicKey⟩
  · obtain ⟨c₁, encrypted, hfinish, cipher, hcipher, hread⟩ :=
      decryptTonData_onFinishWalletCreate hP hc hauth hlen hfits seed
    exact ⟨c₁, encrypted, cipher, hfinish, hcipher, hread change none tonPublicKey⟩
  · exact ⟨_, dataToEncrypt_eq password key.secret random, dvd_length_recordOf _ _ _⟩

/-! ## Sample ciphers -/

/-- Ciphers to run the controller with: RSA keeps the message behind the number of its
key, AES-IGE adds the first byte of the key to every byte. -/
def samplePrimitives : Primitives ℕ where
  rsaEncrypt key _ m := if m.length ≤ 214 then some (BitVec.ofNat 8 key :: m) else none
  rsaDecrypt key c := if c.head? = some (BitVec.ofNat 8 key) then some c.tail else none
  maxMessage := 214
  encodeToString b := b.map (·.setWidth 16)
  decode s := some (s.map (·.setWidth 8))
  computePBKDF2 password _ := ⟨List.replicate 64 (password.headD 0), List.length_replicate⟩
  aesIge key _ dir b := b.map fun x => if dir then x + key.headD 0 else x - key.headD 0

theorem samplePrimitives_lawful : samplePrimitives.Lawful where
  rsa_roundtrip k seed m h := ⟨_, if_pos h, by simp [samplePrimitives]⟩
  decode_encodeToString b := by
    have hid : ((fun c : Char16 => c.setWidth 8) ∘ fun x : Byte => x.setWidth 16) = id := by
      funext x
      exact BitVec.eq_of_toNat_eq (by simp)
    simp [samplePrimitives, hid]
  length_aesIge _ _ _ b := by simp [samplePrimitives]
  aesIge_roundtrip key iv b _ := by
    have hid : ((fun x => x - key.headD 0) ∘ fun x => x + key.headD 0) = (id : Byte → Byte) := by
      funext x
      exact BitVec.add_sub_cancel x _
    simp only [samplePrimitives, List.map_map, if_true, Bool.false_eq_true, if_false]
    rw [hid, List.map_id]

/-- A secret of three bytes, with the number `5` for its key: under the passcode `1234` with a salt
of 32 bytes, and behind a biometric prompt. Its record has 70 bytes and 10 of padding. -/
theorem record_round_trip_sample :
    (∃ c₁ c₂ encrypted,
      ({ entry := some { key := 5, isUserAuthenticationRequired := false } } :
          TonController ℕ).onFinishWalletCreate samplePrimitives (List.replicate 64 7)
          { publicKey := none, secret := [33, 0, 34] } (fun _ => 9) [] = (c₁, .ok none) ∧
        c₁.setUserPasscode samplePrimitives (text "1234") (List.replicate 32 1) []
          = (c₂, .ok (encrypted, List.replicate 32 1)) ∧
        (c₂.decryptTonData samplePrimitives (some (text "1234")) none false (some encrypted)
          (some (List.replicate 32 1)) 0 none).2
          = .ok (some { key := { publicKey := none, secret := [33, 0, 34] },
                        localPassword := List.replicate 64 7 })) ∧
    ∃ c₁ encrypted cipher,
      ({ entry := some { key := 5, isUserAuthenticationRequired := true } } :
          TonController ℕ).onFinishWalletCreate samplePrimitives (List.replicate 64 7)
          { publicKey := none, secret := [33, 0, 34] } (fun _ => 9) []
          = (c₁, .ok (some encrypted)) ∧
        c₁.cipherForDecrypt = some cipher ∧
        (c₁.decryptTonData samplePrimitives none (some cipher.authorize) false (some encrypted) none
          (-1) none).2
          = .ok (some { key := { publicKey := none, secret := [33, 0, 34] },
                        localPassword := List.replicate 64 7 }) :=
  ⟨(record_round_trip samplePrimitives_lawful rfl List.length_replicate
      { publicKey := none, secret := [33, 0, 34] } (fun _ => 9)
      (by rw [length_recordOf]; decide) [] false none).1 rfl
      (text "1234") (List.replicate 32 1) [] 0 (by decide),
    (record_round_trip samplePrimitives_lawful rfl List.length_replicate
      { publicKey := none, secret := [33, 0, 34] } (fun _ => 9)
      (by rw [length_recordOf]; decide) [] false none).2.1 rfl⟩

end TonWallet.Keystore
