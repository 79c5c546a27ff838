import TonWallet.Keystore.Controller
import TonWallet.Storage.Records

/-!
# Choosing a PIN

The two passcode screens after a wallet has been created. On the first one a
PIN is chosen, on the second one it is typed again and the record that creation
left behind is encrypted under it. Both screens are a `CreatePasscodeViewModel`
and launch a coroutine whenever a digit is pressed while the PIN is complete.

The state machine takes one step for each press and for each block of a
coroutine between two suspension points: a job that prepares reads the PIN,
reads the storage and decrypts, a job that saves is one block, and the storage
is written later by a job of its own.
-/

namespace TonWallet.Passcode

open Encoding Keystore Storage

/-! ## The view model -/

/-- `CreatePasscodeViewModel`. -/
structure CreatePasscodeViewModel where
  cachedPasscode : Option Text
  passcodeCount : ℕ
  passcode : Text := []
  loading : Bool := false
  successAnimation : Bool := false
  errorAnimation : Bool := false
deriving DecidableEq, Repr

/-- The two screens. -/
inductive Screen where
  | setup
  | confirm
deriving DecidableEq, Repr

/-- A coroutine of a screen, by what it does next. -/
inductive Job where
  | prepare (screen : Screen)
  | prepareRead (screen : Screen) (passcode : Text)
  | prepareDecrypt (screen : Screen) (passcode : Text) (encryptedData : Option PasscodeData)
  | save (screen : Screen)
deriving DecidableEq, Repr

namespace CreatePasscodeViewModel

/-- The view model a screen creates (`CreatePasscodeViewModel.kt` lines 12–35). -/
def create (cachedPasscode : Option Text) : CreatePasscodeViewModel where
  cachedPasscode := cachedPasscode
  passcodeCount := (cachedPasscode.map List.length).getD 4

/-- `onCountChanged` (`CreatePasscodeViewModel.kt` lines 37–40). -/
def onCountChanged (vm : CreatePasscodeViewModel) (newPasscodeCount : ℕ) :
    CreatePasscodeViewModel :=
  { vm with passcodeCount := newPasscodeCount, passcode := [] }

/-- The digit is appended as long as there is room. -/
def appendDigit (vm : CreatePasscodeViewModel) (digit : Text) : CreatePasscodeViewModel :=
  if vm.passcode.length < vm.passcodeCount then { vm with passcode := vm.passcode ++ digit } else vm

/-- `onNewDigitInPasscode`, with the job it launches. The last test is made on every press, also
when the digit was dropped (`CreatePasscodeViewModel.kt` lines 42–60). -/
def onNewDigitInPasscode (screen : Screen) (vm : CreatePasscodeViewModel) (digit : Text) :
    CreatePasscodeViewModel × List Job :=
  let vm := vm.appendDigit digit
  if vm.passcode.length = vm.passcodeCount then
    if vm.cachedPasscode.getD [] = [] then (vm, [.prepare screen])
    else if vm.cachedPasscode = some vm.passcode then (vm, [.save screen])
    else ({ vm with errorAnimation := true }, [])
  else (vm, [])

/-- `onDeleteDigit` (`CreatePasscodeViewModel.kt` lines 62–64). -/
def onDeleteDigit (vm : CreatePasscodeViewModel) : CreatePasscodeViewModel :=
  { vm with passcode := vm.passcode.dropLast }

/-- `onErrorAnimationEnd` (`CreatePasscodeViewModel.kt` lines 66–68). -/
def onErrorAnimationEnd (vm : CreatePasscodeViewModel) : CreatePasscodeViewModel :=
  { vm with errorAnimation := false }

end CreatePasscodeViewModel

/-! ## The screens and their jobs -/

/-- The two screens, the controller and the storage they share, the jobs that run and the
storage writes that are launched but not done. -/
structure State (K : Type) where
  controller : TonController K
  stored : Option PasscodeData
  writes : List PasscodeData
  setup : CreatePasscodeViewModel := .create none
  confirm : Option CreatePasscodeViewModel := none
  jobs : List Job := []

/-- What can happen: presses on the screen that is shown, the end of an animation, and the next
block of a job. -/
inductive Action where
  | digit (d : Fin 10)
  | delete
  | countChanged (six : Bool)
  | errorAnimationEnd
  /-- The success animation of the current screen ends. -/
  | successAnimationEnd
  /-- The next block of a job, with the random bytes it draws. -/
  | run (i : ℕ) (salt seed : Bytes)
  /-- A launched write reaches the storage. -/
  | write (i : ℕ)
deriving DecidableEq, Repr

/-- The string of a key of the keyboard. -/
def digitText (d : Fin 10) : Text := [BitVec.ofNat 16 (0x30 + d)]

namespace State

variable {K : Type}

/-- The screen that is shown. -/
def current (s : State K) : Screen := if s.confirm.isSome then .confirm else .setup

/-- The view model of a screen. -/
def viewModel (s : State K) : Screen → Option CreatePasscodeViewModel
  | .setup => some s.setup
  | .confirm => s.confirm

/-- A changed view model. -/
def setViewModel (s : State K) (vm : CreatePasscodeViewModel) : Screen → State K
  | .setup => { s with setup := vm }
  | .confirm => { s with confirm := some vm }

/-- A press that changes the view model of the current screen. -/
def onViewModel (s : State K) (f : CreatePasscodeViewModel → CreatePasscodeViewModel) :
    Option (State K) :=
  (s.viewModel s.current).map fun vm => s.setViewModel (f vm) s.current

/-- A digit on the current screen. -/
def onDigit (s : State K) (d : Fin 10) : Option (State K) :=
  (s.viewModel s.current).map fun vm =>
    let (vm, launched) := vm.onNewDigitInPasscode s.current (digitText d)
    { s.setViewModel vm s.current with jobs := s.jobs ++ launched }

/-- `onSuccess` of the current screen. The first one opens the second one with the PIN as it is
then; the second one leaves the graph, which cancels the jobs of both
(`PasscodeSetupNavigation.kt` lines 38–76). -/
def onSuccess (s : State K) : Option (State K) :=
  match s.confirm with
  | none =>
    if s.setup.successAnimation then
      some { s with confirm := some (.create (some s.setup.passcode)) }
    else none
  | some vm => if vm.successAnimation then some { s with jobs := [] } else none

/-- A job has shown success and ends. -/
def succeed (s : State K) (i : ℕ) (screen : Screen) : Option (State K) :=
  (s.viewModel screen).map fun vm =>
    { s.setViewModel { vm with successAnimation := true } screen with jobs := s.jobs.eraseIdx i }

/-- The next block of job `i`. A job that throws ends the program
(`CreatePasscodeViewModel.kt` lines 69–86, `TonWalletClient.kt` lines 538–558). -/
def runJob (P : Primitives K) (s : State K) (i : ℕ) (salt seed : Bytes) : Option (State K) :=
  match s.jobs[i]? with
  | none => none
  | some (.prepare screen) =>
    (s.viewModel screen).map fun vm =>
      { s.setViewModel { vm with loading := true } screen with
        jobs := s.jobs.set i (.prepareRead screen vm.passcode) }
  | some (.prepareRead screen passcode) =>
    some { s with jobs := s.jobs.set i (.prepareDecrypt screen passcode s.stored) }
  | some (.prepareDecrypt screen passcode encryptedData) =>
    let (controller, result) := s.controller.decryptTonData P (some passcode) none true
      (encryptedData.bind (·.encryptedPinData)) (encryptedData.bind (·.passcodeSalt)) 0
      (encryptedData.bind (·.tonPublicKey))
    match result with
    | .ok _ => succeed { s with controller := controller } i screen
    | .error _ => none
  | some (.save screen) =>
    (s.viewModel screen).bind fun vm =>
      let (controller, result) := s.controller.setUserPasscode P vm.passcode salt seed
      match result with
      | .ok (encryptedData, salt) =>
        succeed { s.setViewModel { vm with loading := true } screen with
                  controller := controller
                  writes := s.writes ++ [{ encryptedPinData := some encryptedData
                                           passcodeSalt := some salt }] } i screen
      | .error _ => none

/-- A launched write (`TonWalletClient.kt` lines 642–658). -/
def write (s : State K) (i : ℕ) : Option (State K) :=
  s.writes[i]?.map fun update =>
    { s with stored := some (updatePasscodeData s.stored update), writes := s.writes.eraseIdx i }

end State

/-- The state machine. -/
def step {K : Type} (P : Primitives K) (s : State K) : Action → Option (State K)
  | .digit d => s.onDigit d
  | .delete => s.onViewModel CreatePasscodeViewModel.onDeleteDigit
  | .countChanged six =>
    if s.current = .setup then s.onViewModel fun vm => vm.onCountChanged (if six then 6 else 4)
    else none
  | .errorAnimationEnd => s.onViewModel CreatePasscodeViewModel.onErrorAnimationEnd
  | .successAnimationEnd => s.onSuccess
  | .run i salt seed => s.runJob P i salt seed
  | .write i => s.write i

end TonWallet.Passcode
