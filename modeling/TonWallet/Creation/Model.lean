import TonWallet.Keystore.Controller
import TonWallet.Storage.Records

/-!
# Creating and importing a wallet

`importWallet` and `createWallet` of `TonWalletClient` as a state machine: one
step for each reply of tonlib they wait for, one for the block that ends them,
one for each launched write that reaches the storage. Calls may overlap, be
abandoned while they wait, and the process may stop at any time. What survives
it is the `Disk`: the preferences and the entries of the key store.
-/

namespace TonWallet.Creation

open Encoding Keystore Storage

/-! ## tonlib -/

/-- `TonApi.Key`, as tonlib returns it. -/
structure TonKey where
  publicKey : Text
  secret : Bytes
deriving DecidableEq, Repr

/-- The replies of tonlib that the calls tell apart. -/
inductive Reply where
  | key (key : TonKey)
  | exportedKey
  | accountAddress (address : Text)
  | unpackedAccountAddress
  | fullAccountState (address : Text) (lastTransactionId : InternalTransactionId) (balance : ℤ)
  | error
deriving DecidableEq, Repr

/-- The account addresses that were found, by wallet version. -/
abbrev Addresses := List (WalletVersion × Text)

/-- The request a call waits for. -/
inductive Phase where
  | importKey
  | createKey
  | exportKey (key : TonKey)
  /-- `GetAccountAddress` for revision 1, then for revision 2. -/
  | addressV3R1 (key : TonKey)
  | addressV3R2 (key : TonKey) (found : Addresses)
  /-- `UnpackAccountAddress` and `PackAccountAddress` for the version 4 wallet. -/
  | unpackV4R2 (key : TonKey) (found : Addresses)
  | packV4R2 (key : TonKey) (found : Addresses)
  /-- `GetAccountState` of the first address. -/
  | accountStates (key : TonKey) (version : WalletVersion) (rest : Addresses)
  /-- No request: the last block is about to run. -/
  | finish (key : TonKey)
deriving DecidableEq, Repr

/-! ## State -/

/-- What a stopped process leaves behind. -/
structure Disk (K : Type) where
  preferences : Preferences := {}
  biometricEntry : Option (KeyEntry K) := none
  passcodeEntry : Option (KeyEntry K) := none

/-- A call, with the disk it found. -/
structure Call (K : Type) where
  password : Bytes
  phase : Phase
  found : Disk K

/-- How a call has ended. -/
inductive Outcome (K : Type) where
  /-- It has returned a key; the current wallet at that moment. -/
  | returned (key : InputKeyRegular) (currentWallet : Option WalletData)
  /-- It has returned null; the disk it found and the one it left. -/
  | failed (found left : Disk K)

/-- The two controllers, the preferences, the launched writes, the running calls, and a history
of the calls that have ended. -/
structure State (K : Type) where
  biometric : TonController K := {}
  passcode : TonController K := {}
  preferences : Preferences := {}
  writes : List PasscodeData := []
  calls : List (Call K) := []
  ended : List (Outcome K) := []

/-- What can happen. -/
inductive Action (K : Type) where
  /-- A call begins: its kind, the local password it draws and the key pairs it generates. -/
  | begin (importing : Bool) (password : Bytes) (isDeviceSecure : Bool)
      (biometricKey passcodeKey : Option K)
  /-- tonlib answers call `i`. -/
  | reply (i : ℕ) (r : Reply)
  /-- Call `i` runs its last block, with the random bytes of the two paddings. -/
  | finish (i : ℕ) (random random' : ℕ → Byte) (seed : Bytes)
  /-- The scope of call `i` is cancelled. -/
  | abandon (i : ℕ)
  /-- The confirmed PIN is saved. -/
  | setUserPasscode (pin : Text) (salt seed : Bytes)
  /-- The screen after outcome `j` stores the public key of the returned key. -/
  | finishCreateImportWallet (j : ℕ)
  /-- A launched write reaches the storage. -/
  | write (i : ℕ)
  /-- The process stops and starts again. -/
  | stop

namespace State

variable {K : Type}

/-- What a stopped process would leave behind. -/
def disk (s : State K) : Disk K where
  preferences := s.preferences
  biometricEntry := s.biometric.entry
  passcodeEntry := s.passcode.entry

/-! ## Steps -/

/-- The beginning of both calls: the old entries of the key store are deleted and new ones are
generated (`TonWalletClient.kt` lines 231–234 and 252–255). -/
def begin (s : State K) (importing : Bool) (password : Bytes) (isDeviceSecure : Bool)
    (biometricKey passcodeKey : Option K) : State K :=
  { s with
    biometric := s.biometric.createWallet isDeviceSecure true false biometricKey
    passcode := s.passcode.createWallet isDeviceSecure false true passcodeKey
    calls := s.calls ++ [{ password := password
                           phase := if importing then .importKey else .createKey
                           found := s.disk }] }

/-- Call `i` goes on with another phase. -/
def goOn (s : State K) (i : ℕ) (call : Call K) (phase : Phase) : State K :=
  { s with calls := s.calls.set i { call with phase := phase } }

/-- Call `i` returns null. -/
def fail (s : State K) (i : ℕ) (call : Call K) : State K :=
  { s with calls := s.calls.eraseIdx i, ended := .failed call.found s.disk :: s.ended }

/-- The phase that asks for the account states of the addresses that are left. -/
def accountPhase (key : TonKey) : Addresses → Phase
  | [] => .finish key
  | (version, _) :: rest => .accountStates key version rest

/-- The wallet that is saved for an account state (`TonWalletClient.kt` lines 783–791). -/
def walletData (key : TonKey) (version : WalletVersion) (address : Text)
    (lastTransactionId : InternalTransactionId) (balance : ℤ) : WalletData where
  address := address
  publicKey := some key.publicKey
  walletVersion := version
  lastTransactionId := lastTransactionId
  balance := balance

/-- The reply of tonlib to call `i` (`TonWalletClient.kt` lines 231–282 and 743–800). -/
def reply (s : State K) (i : ℕ) (r : Reply) : Option (State K) :=
  s.calls[i]?.bind fun call =>
    match call.phase, r with
    | .importKey, .key key => some (s.goOn i call (.addressV3R1 key))
    | .importKey, _ => some (s.fail i call)
    | .createKey, .key key => some (s.goOn i call (.exportKey key))
    | .createKey, _ => some (s.fail i call)
    | .exportKey key, .exportedKey => some (s.goOn i call (.addressV3R1 key))
    | .exportKey _, _ => some (s.fail i call)
    | .addressV3R1 key, .accountAddress a => some (s.goOn i call (.addressV3R2 key [(.V3R1, a)]))
    | .addressV3R1 key, _ => some (s.goOn i call (.addressV3R2 key []))
    | .addressV3R2 key found, .accountAddress a =>
      some (s.goOn i call (.unpackV4R2 key (found ++ [(.V3R2, a)])))
    | .addressV3R2 key found, _ => some (s.goOn i call (.unpackV4R2 key found))
    | .unpackV4R2 key found, .unpackedAccountAddress => some (s.goOn i call (.packV4R2 key found))
    | .unpackV4R2 key found, _ => some (s.goOn i call (accountPhase key found))
    | .packV4R2 key found, .accountAddress a =>
      some (s.goOn i call (accountPhase key (found ++ [(.V4R2, a)])))
    | .packV4R2 key found, _ => some (s.goOn i call (accountPhase key found))
    | .accountStates key version rest, .fullAccountState address lastTransactionId balance =>
      let s := { s with preferences := s.preferences.saveWalletData
                          (walletData key version address lastTransactionId balance) }
      some (s.goOn i call (accountPhase key rest))
    | .accountStates key _ rest, _ => some (s.goOn i call (accountPhase key rest))
    | .finish _, _ => none

/-- The end of both calls: both controllers make their records, the write of the biometric one is
launched and the key is returned. An exception of the biometric controller ends the program
(`TonWalletClient.kt` lines 240–246, 268–275 and 803–815). -/
def finish (P : Primitives K) (s : State K) (i : ℕ) (random random' : ℕ → Byte) (seed : Bytes) :
    Option (State K) :=
  s.calls[i]?.bind fun call =>
    match call.phase with
    | .finish tonKey =>
      let key : Key := { publicKey := some tonKey.publicKey, secret := tonKey.secret }
      let (biometric, encryptedData) := s.biometric.onFinishWalletCreate P call.password key random
        seed
      match encryptedData with
      | .error _ => none
      | .ok encryptedData =>
        let (passcode, _) := s.passcode.onFinishWalletCreate P call.password key random' seed
        some { s with
          biometric := biometric
          passcode := passcode
          writes := s.writes ++ [{ encryptedBiometricData := some (encryptedData.getD []) }]
          calls := s.calls.eraseIdx i
          ended := .returned { key := key, localPassword := call.password }
            s.preferences.getCurrentWallet :: s.ended }
    | _ => none

/-- The confirmed PIN is saved; the write is launched (`TonWalletClient.kt` lines 538–544). -/
def setUserPasscode (P : Primitives K) (s : State K) (pin : Text) (salt seed : Bytes) :
    Option (State K) :=
  match s.passcode.setUserPasscode P pin salt seed with
  | (passcode, .ok (encryptedData, salt)) =>
    some { s with
      passcode := passcode
      writes := s.writes ++ [{ encryptedPinData := some encryptedData
                               passcodeSalt := some salt }] }
  | (_, .error _) => none

/-- The launched write of a public key (`TonWalletClient.kt` lines 609–613). -/
def finishCreateImportWallet (s : State K) (j : ℕ) : Option (State K) :=
  match s.ended[j]? with
  | some (.returned inputKey _) =>
    some { s with writes := s.writes ++ [{ tonPublicKey := inputKey.key.publicKey }] }
  | _ => none

/-- A launched write (`TonWalletClient.kt` lines 642–658). -/
def write (s : State K) (i : ℕ) : Option (State K) :=
  s.writes[i]?.map fun update =>
    { s with preferences := s.preferences.updatePasscode update, writes := s.writes.eraseIdx i }

/-- A new process on the disk of the old one. -/
def restart (s : State K) : State K where
  biometric := { entry := s.biometric.entry }
  passcode := { entry := s.passcode.entry }
  preferences := s.preferences
  ended := s.ended

end State

/-- The state machine. -/
def step {K : Type} (P : Primitives K) (s : State K) : Action K → Option (State K)
  | .begin importing password isDeviceSecure biometricKey passcodeKey =>
    some (s.begin importing password isDeviceSecure biometricKey passcodeKey)
  | .reply i r => s.reply i r
  | .finish i random random' seed => s.finish P i random random' seed
  | .abandon i => if i < s.calls.length then some { s with calls := s.calls.eraseIdx i } else none
  | .setUserPasscode pin salt seed => s.setUserPasscode P pin salt seed
  | .finishCreateImportWallet j => s.finishCreateImportWallet j
  | .write i => s.write i
  | .stop => some s.restart

end TonWallet.Creation
