import TonWallet.Keystore.Controller
import TonWallet.Storage.Records
import TonWallet.Storage.Serial

/-!
# The lock screen

The screen launches a coroutine for each complete passcode and for each biometric
success. A passcode is read when its coroutine runs, and its key, or none, is
written to `inputKeyTemp` of the client; a biometric key is only returned. When
the success animation ends, the key goes to `onSuccess` as a text, and what the
unlock was made for takes the key from `inputKeyTemp`: `sendTon` of the pending
screen, or the approval of a connection.

A coroutine makes one step from one point where it may be suspended to the next.
-/

namespace TonWallet.LockScreen

open Encoding Keystore Storage

/-! ## Keys -/

/-- `InputKeyRegular` of the storage, with its `Key`. -/
structure StoredKey where
  publicKey : Text
  secret : Bytes
  localPassword : Bytes
deriving DecidableEq, Repr

/-- `TonApi.InputKeyRegular.toStorage()`; the public key must not be null
(`InputKeyRegular.kt` lines 59–62). -/
def toStorage (key : InputKeyRegular) : Option StoredKey :=
  key.key.publicKey.map fun publicKey =>
    { publicKey := publicKey, secret := key.key.secret, localPassword := key.localPassword }

namespace StoredKey

def toJson (k : StoredKey) : Json.Value :=
  .object [
    (text "key", .object [
      (text "publicKey", .string k.publicKey),
      (text "secret", bytesToJson k.secret)]),
    (text "localPassword", bytesToJson k.localPassword)]

/-- `Json.encodeToString`. -/
def encodeToString (k : StoredKey) : Text := Json.print k.toJson

end StoredKey

/-! ## The client -/

/-- What a run depends on and does not change: the controllers, the stored records, and
`optionsInfo`, once tonlib is initialised. -/
structure Client (K : Type) where
  passcodeTonController : TonController K := {}
  biometricTonController : TonController K := {}
  encryptedData : Option PasscodeData := none
  currentWallet : Option WalletData := none
  defaultWalletId : Option ℤ := none

variable {K : Type} (P : Primitives K) (client : Client K)

/-- What `getInputKeyWithCipher(passcode)` decrypts (`TonWalletClient.kt` lines 560–571). -/
def inputKeyWithPasscode (passcode : Text) : Except Throwable (Option InputKeyRegular) :=
  (client.passcodeTonController.decryptTonData P (some passcode) none false
    (client.encryptedData.bind (·.encryptedPinData))
    (client.encryptedData.bind (·.passcodeSalt)) 0
    (client.encryptedData.bind (·.tonPublicKey))).2

/-- What `getInputKeyWithCipher(cipher)` decrypts (lines 576–587). -/
def inputKeyWithCipher (cipher : Cipher K) : Except Throwable (Option InputKeyRegular) :=
  (client.biometricTonController.decryptTonData P none (some cipher) false
    (client.encryptedData.bind (·.encryptedBiometricData))
    (client.encryptedData.bind (·.passcodeSalt)) (-1)
    (client.encryptedData.bind (·.tonPublicKey))).2

/-! ## What an unlock is made for -/

/-- What `sendTon` makes `CreateQuery` of (`TonWalletClient.kt` lines 423–449). -/
structure Query where
  keyRegular : InputKeyRegular
  currentWalletAddress : Option Text
  publicKey : Option Text
  message : Text
  destinationAddress : Text
  amount : ℤ
  walletId : ℤ
deriving DecidableEq, Repr

/-- The arguments of the pending screen. -/
structure Payment where
  destination : Option Text := none
  amount : Option Text := none
  comment : Option Text := none
deriving DecidableEq, Repr

/-- The query of `TonSendPendingViewModel.sendTon`, unless it throws: for an amount that is no
number, or before tonlib is initialised. -/
def Payment.query (p : Payment) (keyRegular : InputKeyRegular) : Option Query := do
  let amount ← (p.amount.map toLong).getD (some 0)
  let walletId ← client.defaultWalletId
  return {
    keyRegular := keyRegular
    currentWalletAddress := client.currentWallet.map (·.address)
    publicKey := client.currentWallet.bind (·.publicKey)
    message := p.comment.getD []
    destinationAddress := p.destination.getD []
    amount := amount
    walletId := walletId }

/-- How far `sendTon` of the pending screen has come. -/
inductive SendStage where
  | launched
  /-- `inputKeyTemp` has been read, and is still to be cleared. -/
  | taken (key : Option InputKeyRegular)
  | sendTon (key : InputKeyRegular)
  | createQuery (query : Query)
  | querySend
  | ended
  | thrown
deriving DecidableEq, Repr

/-- `TonSendPendingViewModel`. -/
structure Pending where
  stage : SendStage := .launched
  isSendSuccess : Bool := false
  isSendError : Bool := false
deriving DecidableEq, Repr

/-- `ButtonState`. -/
inductive ButtonState where
  | Empty
  | Loading
  | Success
  | Error
deriving DecidableEq, Repr

/-- How far `approveConnectionRequest` has come. -/
inductive ApproveStage where
  | rawAddress
  | unpackAccountAddress (address : Text)
  | publicKey
  | walletStateInit
  | rawGetAccountState (address : Text)
  | privateKey
  | exportUnencryptedKey (key : InputKeyRegular)
  /-- `inputKeyTemp` is still to be cleared. -/
  | taken
  | approving
  | ended
  | thrown
deriving DecidableEq, Repr

/-- `approveConnectionRequest`, with its local values and the button. -/
structure Approval where
  stage : ApproveStage := .rawAddress
  rawAddress : Option Text := none
  publicKey : Option Text := none
  walletStateInit : Option Text := none
  privateKey : Option Bytes := none
  buttonState : ButtonState := .Loading
deriving DecidableEq, Repr

/-- What an unlock is made for. -/
inductive Purpose where
  | send (payment : Payment)
  | connection
  | other
deriving DecidableEq, Repr

/-- What takes the key after an unlock. -/
inductive Consumer where
  | none
  | send (payment : Payment) (pending : Pending)
  | connection (approval : Approval)
deriving DecidableEq, Repr

/-- What `onSuccess` leads to. -/
def Purpose.onSuccess : Purpose → Consumer
  | .send payment => .send payment {}
  | .connection => .connection {}
  | .other => .none

/-! ## The screen -/

/-- A launched check, and how far it has come. -/
inductive Check (K : Type) where
  | passcode
  | decryptPasscode (passcode : Text)
  | decryptCipher (cipher : Cipher K)
  /-- `inputKeyTemp` is still to be written. -/
  | decrypted (inputKey : Option InputKeyRegular)
  | returned (inputKey : Option InputKeyRegular)
  /-- `inputKey` of the screen has been written. -/
  | keyed
deriving DecidableEq, Repr

/-- `LockScreen` and the slot. The last member is a history: what `onSuccess` was given, and what
the slot held. -/
structure State (K : Type) where
  purpose : Purpose
  digitsCount : ℕ := 4
  currentPasscode : Text := []
  showSuccessAnimation : Bool := false
  showErrorAnimation : Bool := false
  inputKey : Text := []
  isSuccessTriggered : Bool := false
  checks : List (Check K) := []
  inputKeyTemp : Option InputKeyRegular
  consumer : Consumer := .none
  unlocks : List (Text × Option InputKeyRegular) := []

/-- The replies of tonlib and of the bridge to the consumer. -/
inductive Reply where
  /-- To `CreateQuery`, and to `QuerySend`. -/
  | queryInfo (ok : Bool)
  | querySent (ok : Bool)
  | unpackedAccountAddress (rawAddress : Option Text)
  | rawFullAccountState (walletStateInit : Option Text)
  | exportedUnencryptedKey (privateKey : Option Bytes)
  | approved (result : Except Throwable Bool)

/-- What can happen. The keyboard is disabled by a later composition, so that a press can still
come in while the animation is shown. -/
inductive Action (K : Type) where
  | onPasscodeOptionsChanged (newDigitsCount : ℕ)
  | onNewDigitClick (number : Text)
  | onDeleteDigitClick
  | onAuthenticationSuccess (cipher : Option (Cipher K))
  | onErrorAnimationEnd
  | onSuccessAnimationEnd
  /-- Check `i` goes on. -/
  | check (i : ℕ)
  /-- The consumer goes on, by itself or with a reply. -/
  | consume
  | reply (r : Reply)

namespace State

variable {K : Type}

/-- `onNewDigitClick` (`LockScreen.kt` lines 79–95). -/
def onNewDigitClick (s : State K) (number : Text) : State K :=
  let s := if s.currentPasscode.length < s.digitsCount then
      { s with currentPasscode := s.currentPasscode ++ number }
    else s
  if s.currentPasscode.length = s.digitsCount then { s with checks := s.checks ++ [.passcode] }
  else s

/-- `onSuccessAnimationEnd` (lines 112–118). -/
def onSuccessAnimationEnd (s : State K) : State K :=
  if s.isSuccessTriggered then { s with showSuccessAnimation := false }
  else
    { s with
      showSuccessAnimation := false
      isSuccessTriggered := true
      consumer := s.purpose.onSuccess
      unlocks := (s.inputKey, s.inputKeyTemp) :: s.unlocks }

/-- A check comes to a stage, or ends. -/
def advance (s : State K) (i : ℕ) (c : Check K) : State K := { s with checks := s.checks.set i c }

def finish (s : State K) (i : ℕ) : State K := { s with checks := s.checks.eraseIdx i }

end State

/-- What a check does next; an exception ends the app. -/
def goOn (s : State K) (i : ℕ) : Check K → Option (State K)
  | .passcode => some (s.advance i (.decryptPasscode s.currentPasscode))
  | .decryptPasscode passcode =>
    (inputKeyWithPasscode P client passcode).toOption.map fun key => s.advance i (.decrypted key)
  | .decryptCipher cipher =>
    (inputKeyWithCipher P client cipher).toOption.map fun key => s.advance i (.returned key)
  | .decrypted key => some ({ s with inputKeyTemp := key }.advance i (.returned key))
  | .returned none => some ({ s with showErrorAnimation := true }.finish i)
  | .returned (some key) =>
    (toStorage key).map fun k => { s with inputKey := k.encodeToString }.advance i .keyed
  | .keyed => some ({ s with showSuccessAnimation := true }.finish i)

/-! ## The consumers -/

/-- `TonSendPendingViewModel.sendTon` (lines 30–45), for what the slot holds. -/
def Pending.goOn (payment : Payment) (p : Pending) (slot : Option InputKeyRegular) :
    Option (Option InputKeyRegular × Pending) :=
  match p.stage with
  | .launched => some (slot, { p with stage := .taken slot })
  | .taken none => some (none, { p with stage := .ended })
  | .taken (some key) => some (none, { p with stage := .sendTon key })
  | .sendTon key =>
    match payment.query client key with
    | some query => some (slot, { p with stage := .createQuery query })
    | none => some (slot, { p with stage := .thrown })
  | .createQuery _ | .querySend | .ended | .thrown => none

/-- The result of `sendTon` (`TonWalletClient.kt` lines 450–462). -/
def Pending.reply (p : Pending) : Reply → Option Pending
  | .queryInfo ok =>
    match p.stage with
    | .createQuery _ =>
      some (if ok then { p with stage := .querySend }
        else { p with stage := .ended, isSendError := true })
    | _ => none
  | .querySent ok =>
    match p.stage with
    | .querySend =>
      some (if ok then { p with stage := .ended, isSendSuccess := true }
        else { p with stage := .ended, isSendError := true })
    | _ => none
  | _ => none

/-- `approveConnectionRequest` (`TonConnectViewModel.kt` lines 57–80), for what the slot holds. -/
def Approval.goOn (a : Approval) (slot : Option InputKeyRegular) :
    Option (Option InputKeyRegular × Approval) :=
  match a.stage with
  | .rawAddress =>
    match client.currentWallet with
    | some wallet => some (slot, { a with stage := .unpackAccountAddress wallet.address })
    | none => some (slot, { a with stage := .publicKey })
  | .publicKey =>
    some (slot, { a with
      stage := .walletStateInit
      publicKey := client.currentWallet.bind (·.publicKey) })
  | .walletStateInit =>
    match client.currentWallet with
    | some wallet => some (slot, { a with stage := .rawGetAccountState wallet.address })
    | none => some (slot, { a with stage := .privateKey })
  | .privateKey =>
    match slot with
    | some key => some (slot, { a with stage := .exportUnencryptedKey key })
    | none => some (slot, { a with stage := .taken })
  | .taken =>
    let complete := a.rawAddress.isSome ∧ a.publicKey.isSome ∧ a.walletStateInit.isSome ∧
      a.privateKey.isSome
    some (none, { a with stage := if complete then .approving else .ended })
  | .unpackAccountAddress _ | .rawGetAccountState _ | .exportUnencryptedKey _ | .approving |
    .ended | .thrown => none

/-- The replies to its requests, and the result of `approveTonConnectionRequest`. -/
def Approval.reply (a : Approval) : Reply → Option Approval
  | .unpackedAccountAddress rawAddress =>
    match a.stage with
    | .unpackAccountAddress _ => some { a with stage := .publicKey, rawAddress := rawAddress }
    | _ => none
  | .rawFullAccountState walletStateInit =>
    match a.stage with
    | .rawGetAccountState _ =>
      some { a with stage := .privateKey, walletStateInit := walletStateInit }
    | _ => none
  | .exportedUnencryptedKey privateKey =>
    match a.stage with
    | .exportUnencryptedKey _ => some { a with stage := .taken, privateKey := privateKey }
    | _ => none
  | .approved result =>
    match a.stage, result with
    | .approving, .ok isSuccess =>
      some { a with stage := .ended, buttonState := if isSuccess then .Success else .Error }
    | .approving, .error _ => some { a with stage := .thrown }
    | _, _ => none
  | _ => none

/-- The consumer goes on by itself. -/
def consume (s : State K) : Option (State K) :=
  match s.consumer with
  | .none => none
  | .send payment p => (p.goOn client payment s.inputKeyTemp).map fun r =>
    { s with inputKeyTemp := r.1, consumer := .send payment r.2 }
  | .connection a => (a.goOn client s.inputKeyTemp).map fun r =>
    { s with inputKeyTemp := r.1, consumer := .connection r.2 }

/-- The consumer receives a reply. -/
def State.reply {K : Type} (s : State K) (r : Reply) : Option (State K) :=
  match s.consumer with
  | .none => none
  | .send payment p => (p.reply r).map fun p => { s with consumer := .send payment p }
  | .connection a => (a.reply r).map fun a => { s with consumer := .connection a }

/-- One step. -/
def step (s : State K) : Action K → Option (State K)
  | .onPasscodeOptionsChanged newDigitsCount =>
    some { s with digitsCount := newDigitsCount, currentPasscode := [] }
  | .onNewDigitClick number => some (s.onNewDigitClick number)
  | .onDeleteDigitClick => some { s with currentPasscode := s.currentPasscode.dropLast }
  | .onAuthenticationSuccess cipher =>
    some { s with checks := s.checks ++ (cipher.map Check.decryptCipher).toList }
  | .onErrorAnimationEnd => some { s with showErrorAnimation := false }
  | .onSuccessAnimationEnd =>
    if s.showSuccessAnimation then some s.onSuccessAnimationEnd else none
  | .check i => s.checks[i]?.bind (goOn P client s i)
  | .consume => consume client s
  | .reply r => s.reply r

/-- The screen, for what the slot holds when it is opened. -/
def start (purpose : Purpose) (inputKeyTemp : Option InputKeyRegular) : State K :=
  { purpose := purpose, inputKeyTemp := inputKeyTemp }

end TonWallet.LockScreen
