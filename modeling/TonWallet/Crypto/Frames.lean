import TonWallet.Crypto.NaCl

/-!
# Frames of the bridge

A frame is a nonce and a box. `decryptMessage` cuts both out of what it is given
and makes room for the message before the box is opened, so it throws for arrays
that are too short before it can refuse them.

* `decryptMessage_refuses_iff`: exactly the arrays of 40 bytes and more are opened
  or refused.
-/

namespace TonWallet.Crypto

open Encoding

/-- `crypto_box_open_easy` opens the boxes made by the owner of the public key for the owner of the
private key, and nothing else. -/
structure Sodium.Exact (S : Sodium) : Prop where
  length_easy : ∀ m n pk sk, (S.boxEasy m n pk sk).length = m.length + macBytes
  open_iff : ∀ c n sender recipient m, n.length = nonceBytes →
    (S.boxOpenEasy c n (S.publicKey sender) recipient = some m ↔
      c = S.boxEasy m n (S.publicKey recipient) sender)

/-- A frame from one key pair to another. -/
def Frame (S : Sodium) (sender recipient b : Bytes) : Prop :=
  ∃ nonce m, nonce.length = nonceBytes ∧
    b = encryptMessage S nonce m (S.publicKey recipient) sender

/-- The exception of `decryptMessage` itself. -/
def couldNotDecrypt : Throwable := .runtime (text "Could not decrypt message")

/-- What is no frame is refused. -/
def Refuses (S : Sodium) (sender recipient b : Bytes) : Prop :=
  ¬ Frame S sender recipient b →
    decryptMessage S b (S.publicKey sender) recipient = .error couldNotDecrypt

variable {S : Sodium} {sender recipient b : Bytes}

/-- A frame has room for the nonce and the tag. -/
theorem Frame.length_le (hS : S.Exact) (h : Frame S sender recipient b) :
    nonceBytes + macBytes ≤ b.length := by
  obtain ⟨nonce, m, hn, rfl⟩ := h
  rw [encryptMessage, List.length_append, hn, hS.length_easy]
  omega

/-- A frame is decrypted to its message. -/
theorem decryptMessage_frame (hS : S.Exact) {nonce m : Bytes} (hn : nonce.length = nonceBytes) :
    decryptMessage S (encryptMessage S nonce m (S.publicKey recipient) sender)
      (S.publicKey sender) recipient = .ok m := by
  rw [decryptMessage_ok_iff]
  refine ⟨Frame.length_le hS ⟨nonce, m, hn, rfl⟩, ?_⟩
  rw [encryptMessage, List.drop_left' hn, List.take_left' hn, hS.open_iff _ _ _ _ _ hn]

/-- An array without room for a nonce cannot be cut. -/
theorem decryptMessage_no_nonce (pk sk : Bytes) (h : b.length < nonceBytes) :
    decryptMessage S b pk sk = .error .indexOutOfBounds := by
  rw [decryptMessage, sliceArray, if_neg (by decide), if_pos h, error_bind]

/-- Without room for a tag, the array for the message would have a negative size. -/
theorem decryptMessage_no_tag (pk sk : Bytes) (hn : nonceBytes ≤ b.length)
    (h : b.length < nonceBytes + macBytes) :
    decryptMessage S b pk sk = .error .negativeArraySize := by
  rw [decryptMessage, sliceArray_ok (by decide) hn, sliceArray_to_end, ok_bind, ok_bind,
    if_pos (by rw [List.length_drop]; omega)]

/-- An array with room for both is opened or refused. -/
theorem decryptMessage_of_length (hS : S.Exact) (h : nonceBytes + macBytes ≤ b.length) :
    Refuses S sender recipient b := by
  intro hframe
  have hn : (b.take nonceBytes).length = nonceBytes := by
    rw [List.length_take]
    omega
  have hclosed : S.boxOpenEasy (b.drop nonceBytes) (b.take nonceBytes) (S.publicKey sender)
      recipient = none := by
    refine Option.eq_none_iff_forall_ne_some.mpr fun m hm => hframe ⟨b.take nonceBytes, m, hn, ?_⟩
    rw [encryptMessage, ← (hS.open_iff _ _ _ _ _ hn).mp hm, List.take_append_drop]
  rw [decryptMessage, sliceArray_ok (by decide) (by omega), sliceArray_to_end, ok_bind, ok_bind,
    if_neg (by rw [List.length_drop]; omega)]
  rw [List.drop_zero, Nat.sub_zero, hclosed]
  rfl

/-- **Frames.** Every frame is decrypted, and an array that is none is refused exactly if it has
room for a nonce and a tag. -/
theorem decryptMessage_refuses_iff (hS : S.Exact) :
    (∀ nonce m sender recipient, nonce.length = nonceBytes →
      decryptMessage S (encryptMessage S nonce m (S.publicKey recipient) sender)
        (S.publicKey sender) recipient = .ok m) ∧
    ∀ b sender recipient, Refuses S sender recipient b ↔ nonceBytes + macBytes ≤ b.length := by
  refine ⟨fun nonce m sender recipient hn => decryptMessage_frame hS hn,
    fun b sender recipient => ⟨fun h => ?_, decryptMessage_of_length hS⟩⟩
  by_contra hshort
  have hrefused := h fun hframe => hshort (hframe.length_le hS)
  by_cases hn : b.length < nonceBytes
  · rw [decryptMessage_no_nonce _ _ hn] at hrefused
    cases hrefused
  · rw [decryptMessage_no_tag _ _ (by omega) (by omega)] at hrefused
    cases hrefused

/-! ## A box -/

/-- A box whose tag is made of the two keys. -/
def plainSodium : Sodium where
  boxEasy m _ pk sk := List.replicate macBytes (pk.headD 0 + sk.headD 0) ++ m
  boxOpenEasy c _ pk sk :=
    if c.take macBytes = List.replicate macBytes (pk.headD 0 + sk.headD 0)
    then some (c.drop macBytes) else none
  publicKey sk := sk
  keyPair seed := seed

theorem plainSodium_exact : plainSodium.Exact where
  length_easy m n pk sk := by
    rw [plainSodium, List.length_append, List.length_replicate, Nat.add_comm]
  open_iff c n sender recipient m _ := by
    have htag : sender.headD 0 + recipient.headD 0 = recipient.headD 0 + sender.headD 0 :=
      BitVec.add_comm ..
    simp only [plainSodium, htag]
    constructor
    · intro h
      split at h
      · rename_i hc
        rw [← Option.some.inj h, ← hc, List.take_append_drop]
      · cases h
    · rintro rfl
      rw [if_pos (List.take_left' List.length_replicate), List.drop_left' List.length_replicate]

/-- The frame of a message of three bytes, and an array of 40 zeros. -/
theorem decryptMessage_refuses_plain :
    decryptMessage plainSodium (encryptMessage plainSodium (List.replicate 24 9) [7, 0, 5] [2] [1])
        [1] [2] = .ok [7, 0, 5] ∧
      (Refuses plainSodium [1] [2] (List.replicate 40 0) ↔
        nonceBytes + macBytes ≤ (List.replicate 40 (0 : Byte)).length) :=
  ⟨(decryptMessage_refuses_iff plainSodium_exact).1 _ [7, 0, 5] [1] [2] rfl,
    (decryptMessage_refuses_iff plainSodium_exact).2 _ [1] [2]⟩

/-- Arrays that are too short are not refused: there is no nonce in the empty one, and no tag behind
a nonce alone. -/
theorem short_array_not_refused :
    decryptMessage plainSodium [] [1] [2] = .error .indexOutOfBounds ∧
    decryptMessage plainSodium (List.replicate 24 0) [1] [2] = .error .negativeArraySize ∧
    ¬ ∀ (S : Sodium) (b sender recipient : Bytes), S.Exact → Refuses S sender recipient b := by
  refine ⟨rfl, rfl, fun h => ?_⟩
  have hrefused := h plainSodium [] [1] [2] plainSodium_exact
    fun hframe => absurd (hframe.length_le plainSodium_exact) (by decide)
  cases hrefused

end TonWallet.Crypto
