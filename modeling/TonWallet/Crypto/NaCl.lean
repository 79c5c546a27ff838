import TonWallet.Encoding.Bytes

/-!
# The box of the bridge messages

`NaCL.kt` wraps `crypto_box` of libsodium. The library itself is a parameter
`Sodium`; `Sodium.Lawful` is what its documentation promises: the recipient
opens a box with the public key of its sender.

* `decryptMessage_encryptMessage`: a sealed message is decrypted.
* `decryptMessage_ok_iff`: what a successful decryption has checked.
-/

namespace TonWallet.Crypto

open Encoding

/-- The functions of libsodium and of its key pair class. -/
structure Sodium where
  /-- `crypto_box_easy` for message, nonce, recipient's public and sender's private key. -/
  boxEasy : Bytes → Bytes → Bytes → Bytes → Bytes
  /-- `crypto_box_open_easy` for ciphertext, nonce, sender's public and recipient's private key. -/
  boxOpenEasy : Bytes → Bytes → Bytes → Bytes → Option Bytes
  /-- The public key of a private key. -/
  publicKey : Bytes → Bytes
  /-- The private key of `KeyPair(seed)`. -/
  keyPair : Bytes → Bytes

/-- `Sodium.crypto_box_noncebytes()`. -/
def nonceBytes : ℕ := 24

/-- `Sodium.crypto_box_macbytes()`. -/
def macBytes : ℕ := 16

/-- `encryptMessage`, for the nonce the random generator returned (`NaCL.kt` lines 14–22). -/
def encryptMessage (S : Sodium) (nonce message recipientPublicKey senderPrivateKey : Bytes) :
    Bytes :=
  nonce ++ S.boxEasy message nonce recipientPublicKey senderPrivateKey

/-- `decryptMessage` (`NaCL.kt` lines 25–37). -/
def decryptMessage (S : Sodium) (encryptedMessage senderPublicKey recipientPrivateKey : Bytes) :
    Except Throwable Bytes := do
  let nonce ← sliceArray encryptedMessage 0 nonceBytes
  let ciphertext ← sliceArray encryptedMessage nonceBytes encryptedMessage.length
  if ciphertext.length < macBytes then .error .negativeArraySize
  else
    match S.boxOpenEasy ciphertext nonce senderPublicKey recipientPrivateKey with
    | some decrypted => .ok decrypted
    | none => .error (.runtime (text "Could not decrypt message"))

/-- The documented behaviour of `crypto_box`. -/
structure Sodium.Lawful (S : Sodium) : Prop where
  /-- A ciphertext is longer than its message by the authentication tag. -/
  length_easy : ∀ m n pk sk, (S.boxEasy m n pk sk).length = m.length + macBytes
  /-- The recipient opens a box with the sender's public key. -/
  open_easy : ∀ m n sender recipient,
    S.boxOpenEasy (S.boxEasy m n (S.publicKey recipient) sender) n (S.publicKey sender) recipient
      = some m

variable {S : Sodium}

/-- A successful decryption opened the box behind the nonce. -/
theorem decryptMessage_ok_iff {encrypted pk sk m : Bytes} :
    decryptMessage S encrypted pk sk = .ok m ↔
      nonceBytes + macBytes ≤ encrypted.length ∧
        S.boxOpenEasy (encrypted.drop nonceBytes) (encrypted.take nonceBytes) pk sk = some m := by
  unfold decryptMessage
  by_cases hn : encrypted.length < nonceBytes
  · rw [sliceArray, if_neg (by decide), if_pos hn, error_bind]
    constructor
    · intro h; cases h
    · intro h; omega
  rw [sliceArray_ok (by decide) (by omega), sliceArray_to_end, ok_bind, ok_bind, List.length_drop,
    List.drop_zero, Nat.sub_zero]
  by_cases hm : encrypted.length - nonceBytes < macBytes
  · rw [if_pos hm]
    constructor
    · intro h; cases h
    · intro h; omega
  · rw [if_neg hm]
    cases S.boxOpenEasy (encrypted.drop nonceBytes) (encrypted.take nonceBytes) pk sk with
    | none => simp
    | some d => simp; omega

/-- What the sender sealed for this recipient is decrypted. -/
theorem decryptMessage_encryptMessage (hS : S.Lawful) {nonce m sender recipient : Bytes}
    (hn : nonce.length = nonceBytes) :
    decryptMessage S (encryptMessage S nonce m (S.publicKey recipient) sender)
      (S.publicKey sender) recipient = .ok m := by
  rw [decryptMessage_ok_iff, encryptMessage, List.drop_left' hn, List.take_left' hn]
  refine ⟨?_, hS.open_easy m nonce sender recipient⟩
  rw [List.length_append, hn, hS.length_easy]
  omega

end TonWallet.Crypto
