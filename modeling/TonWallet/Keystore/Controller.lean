import TonWallet.Encoding.Text

/-!
# The key store controller

`TonController` keeps the wallet's key material in one record: a padding
length, the marker `ok`, the local password, the secret and random padding. The
record is encrypted with an RSA key of the Android key store. Under a passcode
it is encrypted before that with AES-IGE, with a key derived from the passcode.

The platform's ciphers are parameters, `Primitives`; `Primitives.Lawful` is
their documented behaviour. The model is the one of Android 6 and later.
-/

namespace TonWallet.Keystore

open Encoding

/-! ## The platform -/

/-- The ciphers the controller calls, for RSA keys of type `K`. -/
structure Primitives (K : Type) where
  /-- RSA-OAEP with a key, the random seed of the padding and a message. -/
  rsaEncrypt : K → Bytes → Bytes → Option Bytes
  rsaDecrypt : K → Bytes → Option Bytes
  /-- The longest message the padding leaves room for. -/
  maxMessage : ℕ
  /-- `Base64` of Android with `NO_WRAP`. -/
  encodeToString : Bytes → Text
  decode : Text → Option Bytes
  /-- `Utilities.computePBKDF2`: fills an array of 64 bytes. -/
  computePBKDF2 : Bytes → Bytes → { hash : Bytes // hash.length = 64 }
  /-- `Utilities.aesIgeEncryptionByteArray`, with key, iv, direction and buffer. -/
  aesIge : Bytes → Bytes → Bool → Bytes → Bytes

/-- What the documentation of the ciphers promises. -/
structure Primitives.Lawful {K : Type} (P : Primitives K) : Prop where
  rsa_roundtrip : ∀ k seed m, m.length ≤ P.maxMessage →
    ∃ c, P.rsaEncrypt k seed m = some c ∧ P.rsaDecrypt k c = some m
  decode_encodeToString : ∀ b, P.decode (P.encodeToString b) = some b
  length_aesIge : ∀ key iv dir b, (P.aesIge key iv dir b).length = b.length
  aesIge_roundtrip : ∀ key iv b, 16 ∣ b.length →
    P.aesIge key iv false (P.aesIge key iv true b) = b

/-- An entry of the key store, as its `KeyInfo` describes it. -/
structure KeyEntry (K : Type) where
  key : K
  isUserAuthenticationRequired : Bool
  userAuthenticationValidityDurationSeconds : ℤ := -1
deriving DecidableEq, Repr

/-- The entry `createKeyPair` makes for a generated key (`TonController.kt` lines 101–157). -/
def createKeyPair {K : Type} (isDeviceSecure useBiometric forPasscode : Bool) (key : K) :
    KeyEntry K where
  key := key
  isUserAuthenticationRequired := !forPasscode && isDeviceSecure
  userAuthenticationValidityDurationSeconds :=
    if !forPasscode && isDeviceSecure && !useBiometric then 15 else -1

/-- `KEY_PROTECTION_TYPE_*`. -/
inductive KeyProtectionType where
  | none
  | lockscreen
  | biometric
deriving DecidableEq, Repr

/-- A cipher initialised for decryption. The key store lets it run without the
authentication its key asks for only once a prompt has authorised it. -/
structure Cipher (K : Type) where
  entry : KeyEntry K
  authorized : Bool := false
deriving DecidableEq, Repr

/-- The cipher after a successful biometric prompt. -/
def Cipher.authorize {K : Type} (c : Cipher K) : Cipher K := { c with authorized := true }

/-- `TonApi.Key`; a key decrypted from a record carries the public key it was asked for. -/
structure Key where
  publicKey : Option Text
  secret : Bytes
deriving DecidableEq, Repr

/-- `TonApi.InputKeyRegular`. -/
structure InputKeyRegular where
  key : Key
  localPassword : Bytes
deriving DecidableEq, Repr

/-- The state of a `TonController`: its key store entry and its two fields. -/
structure TonController (K : Type) where
  entry : Option (KeyEntry K) := none
  creatingDataForLaterEncrypt : Option Bytes := none
  memInputKey : Option InputKeyRegular := none
deriving DecidableEq, Repr

variable {K : Type} (P : Primitives K)

/-- `cipher.doFinal`, `none` for an exception. -/
def Cipher.doFinal (c : Cipher K) (bytes : Bytes) : Option Bytes :=
  if c.entry.isUserAuthenticationRequired ∧ c.authorized = false then none
  else P.rsaDecrypt c.entry.key bytes

/-! ## The record -/

/-- The padding that brings a length to a multiple of 16. -/
def paddingOf (len : ℕ) : ℕ := if len % 16 ≠ 0 then 16 - len % 16 else 0

/-- `nextBytes` for an array of `n` bytes. -/
def nextBytes (random : ℕ → Byte) (n : ℕ) : Bytes := (List.range n).map random

/-- The array `dataToEncrypt` (`TonController.kt` lines 262–278). -/
def dataToEncrypt (password secret : Bytes) (random : ℕ → Byte) : Except Throwable Bytes := do
  let len := 1 + 2 + password.length + secret.length
  let padding := paddingOf len
  let data ← set (List.replicate (len + padding) 0) 0 (BitVec.ofNat 8 padding)
  let data ← set data 1 0x6F
  let data ← set data 2 0x6B
  let data ← arraycopy password 0 data 3 password.length
  let data ← arraycopy secret 0 data (3 + password.length) secret.length
  if padding ≠ 0 then
    let pad := nextBytes random padding
    arraycopy pad 0 data (3 + password.length + secret.length) pad.length
  else .ok data

/-- The AES key and iv, the halves of the hash. -/
def keyAndIv (passcode : Option Text) (salt : Option Bytes) : Bytes × Bytes :=
  let hash := P.computePBKDF2 ((passcode.map toByteArray).getD []) (salt.getD [])
  (hash.1.take 32, hash.1.drop 32)

namespace TonController

/-! ## The key store -/

/-- `keyProtectionType` (`TonController.kt` lines 44–63). -/
def keyProtectionType (c : TonController K) : KeyProtectionType :=
  match c.entry with
  | some e =>
    if e.isUserAuthenticationRequired then
      if e.userAuthenticationValidityDurationSeconds > 0 then .lockscreen else .biometric
    else .none
  | none => .none

/-- `cipherForDecrypt` (`TonController.kt` lines 65–83). -/
def cipherForDecrypt (c : TonController K) : Option (Cipher K) :=
  c.entry.map fun e => { entry := e }

/-- `encrypt`, with the random seed of the cipher (`TonController.kt` lines 229–239). -/
def encrypt (c : TonController K) (seed : Bytes) (input : Bytes) : Option Text := do
  let e ← c.entry
  let bytes ← P.rsaEncrypt e.key seed input
  return P.encodeToString bytes

/-- `decrypt` (`TonController.kt` lines 241–254). -/
def decrypt (c : TonController K) (encodedString : Option Text)
    (decryptCipher : Option (Cipher K)) : Option Bytes := do
  let cipher ← decryptCipher <|> c.cipherForDecrypt
  let encoded ← encodedString
  let bytes ← P.decode encoded
  cipher.doFinal P bytes

/-- `cleanup` (`TonController.kt` lines 445–453). -/
def cleanup (_ : TonController K) : TonController K := {}

/-- `createWallet`, for the key that is generated, `none` if that fails
(`TonController.kt` lines 294–302). -/
def createWallet (c : TonController K) (isDeviceSecure useBiometric forPasscode : Bool)
    (generated : Option K) : TonController K :=
  { c.cleanup with
    entry := generated.map fun key => createKeyPair isDeviceSecure useBiometric forPasscode key }

/-! ## Records -/

/-- `onFinishWalletCreate`; the result is what the callback receives
(`TonController.kt` lines 256–287). -/
def onFinishWalletCreate (c : TonController K) (password : Bytes) (key : Key)
    (random : ℕ → Byte) (seed : Bytes) : TonController K × Except Throwable (Option Text) :=
  let c := { c with memInputKey := some { key := key, localPassword := password } }
  match dataToEncrypt password key.secret random with
  | .error e => (c, .error e)
  | .ok data =>
    if c.keyProtectionType ≠ .none then
      match encrypt P c seed data with
      | some creatingEncryptedData => (c, .ok (some creatingEncryptedData))
      | none => (c, .error .nullPointer)
    else ({ c with creatingDataForLaterEncrypt := some data }, .ok none)

/-- `setUserPasscode`, for the salt drawn at its beginning; the buffer is encrypted in place
and stays where it is (`TonController.kt` lines 304–323). -/
def setUserPasscode (c : TonController K) (passcode : Text) (salt seed : Bytes) :
    TonController K × Except Throwable (Text × Bytes) :=
  match c.creatingDataForLaterEncrypt with
  | none => (c, .error .nullPointer)
  | some data =>
    let (key, iv) := keyAndIv P (some passcode) (some salt)
    let data := P.aesIge key iv true data
    let c := { c with creatingDataForLaterEncrypt := some data }
    match encrypt P c seed data with
    | some creatingEncryptedData => (c, .ok (creatingEncryptedData, salt))
    | none => (c, .error .nullPointer)

/-- The key in a decrypted record, or none without the marker (`TonController.kt`
lines 379–398). -/
def readRecord (decrypted : Bytes) (tonPublicKey : Option Text) :
    Except Throwable (Option InputKeyRegular) :=
  if decrypted.getD 1 0 = 0x6F ∧ decrypted.getD 2 0 = 0x6B then do
    let padding := (decrypted.getD 0 0).toInt
    let size : ℤ := decrypted.length - 64 - padding - 3
    if size < 0 then .error .negativeArraySize
    else
      let password ← arraycopy decrypted 3 (List.replicate 64 0) 0 64
      let secret ← arraycopy decrypted (3 + 64) (List.replicate size.toNat 0) 0 size.toNat
      .ok (some { key := { publicKey := tonPublicKey, secret := secret },
                  localPassword := password })
  else .ok none

/-- `decryptTonData`; it has no `onPasscodeOk` in any call (`TonController.kt` lines 355–399). -/
def decryptTonData (c : TonController K) (passcode : Option Text)
    (cipherForDecrypt : Option (Cipher K)) (forPasscodeChange : Bool)
    (encryptedData : Option Text) (passcodeSalt : Option Bytes) (passcodeType : ℤ)
    (tonPublicKey : Option Text) :
    TonController K × Except Throwable (Option InputKeyRegular) :=
  match decrypt P c encryptedData cipherForDecrypt with
  | none => (c, .ok none)
  | some decrypted =>
    if decrypted.length ≤ 3 then (c, .ok none)
    else
      let decrypted := if passcodeType ≠ -1 then
        P.aesIge (keyAndIv P passcode passcodeSalt).1 (keyAndIv P passcode passcodeSalt).2 false
          decrypted
        else decrypted
      match readRecord decrypted tonPublicKey with
      | .ok (some inputKey) =>
        (if forPasscodeChange then { c with creatingDataForLaterEncrypt := some decrypted } else c,
          .ok (some inputKey))
      | result => (c, result)

/-! ## Lemmas -/

theorem keyProtectionType_ne_none {c : TonController K} {e : KeyEntry K} (hc : c.entry = some e)
    (hauth : e.isUserAuthenticationRequired = true) : c.keyProtectionType ≠ .none := by
  unfold keyProtectionType
  simp only [hc, hauth, if_true]
  split_ifs <;> simp

@[simp] theorem setUserPasscode_entry (c : TonController K) (passcode : Text) (salt seed : Bytes) :
    (c.setUserPasscode P passcode salt seed).1.entry = c.entry := by
  unfold setUserPasscode
  cases c.creatingDataForLaterEncrypt with
  | none => rfl
  | some data =>
    dsimp only
    split <;> rfl

@[simp] theorem decryptTonData_entry (c : TonController K) (passcode : Option Text)
    (cipher : Option (Cipher K)) (change : Bool) (encryptedData : Option Text)
    (passcodeSalt : Option Bytes) (passcodeType : ℤ) (tonPublicKey : Option Text) :
    (c.decryptTonData P passcode cipher change encryptedData passcodeSalt passcodeType
      tonPublicKey).1.entry = c.entry := by
  unfold decryptTonData
  cases decrypt P c encryptedData cipher with
  | none => rfl
  | some decrypted =>
    dsimp only
    split_ifs
    · rfl
    · split
      · rfl
      · rfl
    · split
      · rfl
      · rfl
    · split
      · rfl
      · rfl
    · split
      · rfl
      · rfl

end TonController

end TonWallet.Keystore
