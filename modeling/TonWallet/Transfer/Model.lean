import TonWallet.Encoding.Currency
import TonWallet.Storage.Records
import TonWallet.TonConnect.Manager

/-!
# Transfers of TON Connect

From the event of a connection to `sendTon`, as a state machine: the flows of
`TonConnectViewModel` and what `Navigation` has collected from them, the view
models of the transfer sheet with the coroutines they launch, the lock screens,
and the one slot `inputKeyTemp` through which an unlock hands its key on. A
coroutine makes one step from one point where it may be suspended to the next.

The state also keeps what the code does not: which unlock a key comes from,
which request a sheet was last composed with, and a history. Only the
properties read these.
-/

namespace TonWallet.Transfer

open Encoding Storage TonConnect

/-- The decoders, and the addresses tonlib makes of raw ones, for which it needs no network. -/
structure Env where
  json : Json
  getAddressFromRaw : Text → Option Text

/-- `transformAddress` (`AddressUtils.kt` lines 3–5). -/
def transformAddress (s : Text) : Text :=
  s.take 4 ++ text "…" ++ s.drop (s.length - 4)

/-! ## Keys and history -/

/-- What else a lock screen is opened for. -/
inductive Occasion where
  | appStart
  | recoveryPhrase
  | send
  | connection
deriving DecidableEq, Repr

/-- What a lock screen is opened for. -/
inductive Purpose where
  | other (occasion : Occasion)
  /-- Confirm was pressed on the sheet that showed the request. -/
  | transfer (r : Request)
deriving DecidableEq, Repr

/-- What happens on a lock screen. -/
inductive Unlock where
  | passcode
  | biometric
  | wrongPasscode
deriving DecidableEq, Repr

/-- A call of `sendTon` by `onConfirmClick`: the request the sheet showed when it was started
and the one it shows at the call, the unlock the key comes from, and the arguments. -/
structure SendTon where
  request : Request
  shown : Request
  key : Purpose
  destination : Text
  amount : ℤ
deriving DecidableEq, Repr

/-- The message of `CreateQuery`, one for each query. -/
structure Query where
  sender : Option Text
  destination : Text
  amount : ℤ
deriving DecidableEq, Repr

/-- `TonConnectTransferState`; the fee is not rounded yet. -/
inductive TransferState where
  | Loading
  | NotEnoughFunds
  | InfoLoaded (amount recipient : Text) (fee : ℤ)
  | LoadingError (error : Text)
deriving DecidableEq, Repr

/-- The history. -/
inductive Obs where
  | authenticated (purpose : Purpose)
  /-- Confirm was pressed on the sheet that showed the request, with what it displayed. -/
  | confirmPressed (r : Request) (displayed : TransferState)
  | dismissed (r : Request)
  | feeEstimated (shown : Request) (address : Text) (amount : ℤ)
  | sendTon (call : SendTon)
  /-- `QuerySend` at the given time. -/
  | submitted (r : Request) (query : Query) (now : ℤ)
  | succeeded (r : Request)
  | replied (r : Request) (connection : ℕ) (reply : Reply)
deriving DecidableEq, Repr

/-! ## The view model of the sheet -/

/-- `TonWalletClient.FeeResponse`. -/
inductive FeeResponse where
  | Success (fee : ℤ)
  | NotEnoughFunds
  | Error
deriving DecidableEq, Repr

/-- `TonConnectTransferButtonState`. -/
inductive ButtonState where
  | Empty
  | Loading
  | Success
  | Error
deriving DecidableEq, Repr

/-- `TonConnectBottomSheetTransferViewModel`, and the request its sheet was last composed with.
The constructor parses the amount. -/
structure ViewModel where
  shown : Request
  amount : Text
  value : ℤ
  toLong_amount : toLong amount = some value
  recipientAddress : Text := []
  state : TransferState := .Loading
  buttonState : ButtonState := .Empty

/-- A coroutine of `loadData`, and the address it has asked the fee for. -/
structure FeeJob where
  owner : ℕ
  recipient : Text
  address : Option Text := none
deriving DecidableEq, Repr

namespace ViewModel

/-- The factory, which an amount that is no number makes throw. -/
def create (r : Request) : Option ViewModel :=
  match h : toLong r.event.amount with
  | some value =>
    some { shown := r, amount := r.event.amount, value := value, toLong_amount := h }
  | none => none

/-- `amountToSend.toString().toTonLong()`. -/
def amountToSend (vm : ViewModel) : ℤ := toTonLong (formatCurrency vm.value)

/-- The composition of the sheet for `r`, with the `setNewRecipient` of its side effect
(`TonConnectBottomSheetTransferViewModel.kt` lines 32–37). -/
def compose (vm : ViewModel) (r : Request) : ViewModel :=
  if r.event.recipient ≠ vm.recipientAddress then
    { vm with shown := r, recipientAddress := r.event.recipient, state := .Loading }
  else { vm with shown := r }

/-- The coroutine of `loadData` that this launches. -/
def launches (vm : ViewModel) (o : ℕ) (r : Request) : List FeeJob :=
  if r.event.recipient ≠ vm.recipientAddress then
    [{ owner := o, recipient := r.event.recipient }]
  else []

/-- `InfoLoaded` of a fee (`TonConnectBottomSheetTransferViewModel.kt` lines 86–96). -/
def loaded (vm : ViewModel) (address : Text) : FeeResponse → TransferState
  | .Success fee => .InfoLoaded (formatCurrency vm.value) (transformAddress address) fee
  | .NotEnoughFunds => .NotEnoughFunds
  | .Error => .LoadingError (text "Unknown error!")

end ViewModel

/-! ## State -/

/-- The points where the coroutine of `onConfirmClick` is suspended. -/
inductive ConfirmStage where
  | started
  | keyed (key : Option Purpose)
  | addressed (key : Option Purpose) (recipient : Text)
  | created (query : Query)
  | sent (query : Query)
deriving DecidableEq, Repr

/-- A coroutine of `onConfirmClick`: its view model, and the request shown when it was
launched. -/
structure ConfirmJob where
  owner : ℕ
  request : Request
  stage : ConfirmStage := .started
deriving DecidableEq, Repr

/-- `BottomSheetState`. -/
inductive BottomSheetState where
  | Empty
  | ConnectionRequest
  | TransferRequest
deriving DecidableEq, Repr

/-- The two flows of `TonConnectViewModel`, and the states `Navigation` collects them in. -/
structure Screen where
  transferRequest : Option Request := none
  bottomSheetShow : BottomSheetState := .Empty
  collectedTransfer : Option Request := none
  collectedSheet : BottomSheetState := .Empty
deriving DecidableEq, Repr

/-- What the transfers depend on, and do not change. -/
structure World where
  currentWallet : Option WalletData := none
  now : ℤ := 0
deriving DecidableEq, Repr

structure State where
  world : World
  manager : Manager := {}
  screen : Screen := {}
  /-- The unlock that the waiting key comes from. -/
  inputKeyTemp : Option Purpose := none
  lockScreens : List Purpose := []
  /-- One view model for each entry of MAIN on the back stack, once its sheet is composed. -/
  viewModels : ℕ → Option ViewModel := fun _ => none
  confirmJobs : List ConfirmJob := []
  feeJobs : List FeeJob := []
  /-- The coroutines of `rejectTonConnectionEvent`, each with its request. -/
  rejectJobs : List Request := []
  log : List Obs := []

inductive WorldAction where
  | setCurrentWallet (wallet : Option WalletData)
  | pass (seconds : ℕ)
deriving DecidableEq, Repr

inductive ScreenAction where
  | collectTransfer
  | collectSheet
  /-- A connection request is shown. -/
  | requestConnection
deriving DecidableEq, Repr

/-- The steps of `onConfirmClick`, with the replies of tonlib to its two queries. -/
inductive ConfirmAction where
  | takeKey
  | getAddress
  | sendTon
  | createQuery (ok : Bool)
  | querySend (ok : Bool)
deriving DecidableEq, Repr

/-- The steps of `loadData`. -/
inductive FeeAction where
  | getAddress
  | reply (response : FeeResponse)
deriving DecidableEq, Repr

inductive Action where
  | world (a : WorldAction)
  | manager (a : ManagerAction)
  | screen (a : ScreenAction)
  /-- The collector delivers an event. -/
  | present (i : ℕ)
  /-- The sheet of entry `o` is composed, or recomposed. -/
  | compose (o : ℕ)
  | pressConfirm (o : ℕ)
  /-- The sheet of entry `o` leaves the composition. -/
  | dispose (o : ℕ)
  /-- Entry `o` is popped. -/
  | clear (o : ℕ)
  /-- The sheet is hidden. -/
  | dismiss
  | openLock (occasion : Occasion)
  | unlock (i : ℕ) (u : Unlock)
  /-- Lock screen `i` is left. -/
  | closeLock (i : ℕ)
  /-- Another reader takes the waiting key. -/
  | takeOther
  | confirm (i : ℕ) (a : ConfirmAction)
  | fee (i : ℕ) (a : FeeAction)
  | reject (i : ℕ)
deriving DecidableEq, Repr

/-! ## Screens and locks -/

/-- What happens around the transfers. -/
def World.step (w : World) : WorldAction → World
  | .setCurrentWallet wallet => { w with currentWallet := wallet }
  | .pass seconds => { w with now := w.now + seconds }

namespace Screen

/-- The flows are collected, or a connection request is shown. -/
def step (s : Screen) : ScreenAction → Screen
  | .collectTransfer => { s with collectedTransfer := s.transferRequest }
  | .collectSheet => { s with collectedSheet := s.bottomSheetShow }
  | .requestConnection => { s with bottomSheetShow := .ConnectionRequest }

/-- An event gets into the flow, which does not take note of an equal one
(`TonConnectViewModel.kt` lines 30–34). -/
def emit (s : Screen) (r : Request) : Screen :=
  { s with
    transferRequest :=
      if s.transferRequest.map Request.event = some r.event then s.transferRequest else some r
    bottomSheetShow := .TransferRequest }

/-- The request that the composed sheet is given. -/
def composed (s : Screen) : Option Request :=
  if s.collectedSheet = .TransferRequest then s.collectedTransfer else none

end Screen

namespace State

/-- The collector delivers the event at place `i`. -/
def present (s : State) (i : ℕ) : Option State :=
  s.manager.pending[i]?.map fun r =>
    { s with
      manager := { s.manager with pending := s.manager.pending.eraseIdx i }
      screen := s.screen.emit r }

/-- The history goes on. -/
def record (s : State) (e : Obs) : State := { s with log := e :: s.log }

/-- `isPrivateKeyWait` (`TonWalletClient.kt` line 872). -/
def isPrivateKeyWait (s : State) : Bool := s.inputKeyTemp.isSome

/-- Lock screen `i` is left. -/
def closeLock (s : State) (i : ℕ) : State :=
  { s with lockScreens := s.lockScreens.eraseIdx i }

/-- A lock screen is answered, and stays open while its animation runs. The passcode leaves its
key behind, a wrong one none, and biometry does not touch the slot (`LockScreen.kt` lines 41–95,
`TonWalletClient.kt` lines 560–588). -/
def unlock (s : State) (i : ℕ) (u : Unlock) : Option State :=
  s.lockScreens[i]?.map fun p =>
    match u with
    | .passcode => { s.record (.authenticated p) with inputKeyTemp := some p }
    | .biometric => s.record (.authenticated p)
    | .wrongPasscode => { s with inputKeyTemp := none }

/-! ## The sheet -/

/-- The view model of an entry changes. -/
def setViewModel (s : State) (o : ℕ) (vm : Option ViewModel) : State :=
  { s with viewModels := Function.update s.viewModels o vm }

/-- The button of the sheet of an entry changes, if there is one. -/
def setButton (s : State) (o : ℕ) (b : ButtonState) : State :=
  s.setViewModel o ((s.viewModels o).map fun vm => { vm with buttonState := b })

/-- `onConfirmClick`, as far as it runs at once. -/
def onConfirmClick (s : State) (o : ℕ) (vm : ViewModel) : State :=
  let s := s.setViewModel o (some { vm with buttonState := .Loading })
  { s with confirmJobs := s.confirmJobs ++ [{ owner := o, request := vm.shown }] }

/-- The view model that is composed with `r`, and the coroutine of `loadData` when the recipient
is new. -/
def setNewRecipient (s : State) (o : ℕ) (vm : ViewModel) (r : Request) : State :=
  { s.setViewModel o (some (vm.compose r)) with feeJobs := s.feeJobs ++ vm.launches o r }

/-- `viewModel()` calls the factory only the first time. -/
def viewModel (s : State) (o : ℕ) (r : Request) : Option ViewModel :=
  s.viewModels o <|> ViewModel.create r

/-- A composition with its side effect: a key that waits is taken for a confirmation
(`TonConnectBottomSheetTransferContent.kt` lines 78–83). -/
def compose (s : State) (o : ℕ) : Option State :=
  s.screen.composed.bind fun r =>
    (s.viewModel o r).map fun vm =>
      let s := s.setNewRecipient o vm r
      if s.isPrivateKeyWait then s.onConfirmClick o (vm.compose r) else s

/-- Confirm. The button of the invisible content under a message or a progress bar does not ask
for the passcode (`TonConnectBottomSheetTransferContent.kt` lines 97–164). -/
def pressConfirm (s : State) (o : ℕ) : Option State :=
  s.screen.composed.bind fun _ =>
    (s.viewModels o).map fun vm =>
      match vm.state with
      | .InfoLoaded _ _ _ =>
        let s := s.record (.confirmPressed vm.shown vm.state)
        if s.isPrivateKeyWait then s.onConfirmClick o vm
        else { s with lockScreens := s.lockScreens ++ [.transfer vm.shown] }
      | _ => s.onConfirmClick o vm

/-- The view model of a popped entry is cleared, and its scope is cancelled. -/
def clear (s : State) (o : ℕ) : State :=
  { s.setViewModel o none with
    confirmJobs := s.confirmJobs.filter fun j => j.owner ≠ o
    feeJobs := s.feeJobs.filter fun j => j.owner ≠ o }

/-- `onBottomSheetDismiss` (`TonConnectViewModel.kt` lines 94–108). -/
def dismiss (s : State) : State :=
  let t := { s with screen := { s.screen with transferRequest := none, bottomSheetShow := .Empty } }
  match s.screen.transferRequest with
  | some r => { t.record (.dismissed r) with rejectJobs := t.rejectJobs ++ [r] }
  | none => t

/-! ## Coroutines -/

/-- A confirmation goes on. -/
def goOn (s : State) (i : ℕ) (j : ConfirmJob) (stage : ConfirmStage) : State :=
  { s with confirmJobs := s.confirmJobs.set i { j with stage := stage } }

/-- A confirmation ends. -/
def finish (s : State) (i : ℕ) (j : ConfirmJob) (b : ButtonState) : State :=
  { s.setButton j.owner b with confirmJobs := s.confirmJobs.eraseIdx i }

/-- The coroutine of `onConfirmClick` (`TonConnectBottomSheetTransferViewModel.kt` lines 41–59)
and of `sendTon` (`TonWalletClient.kt` lines 417–457). The recipient is read after the key, and the
wallet when `sendTon` begins. -/
def confirm (E : Env) (s : State) (i : ℕ) (a : ConfirmAction) : Option State :=
  s.confirmJobs[i]?.bind fun j =>
    match a, j.stage with
    | .takeKey, .started =>
      some { s.goOn i j (.keyed s.inputKeyTemp) with inputKeyTemp := none }
    | .getAddress, .keyed key =>
      (s.viewModels j.owner).map fun vm => s.goOn i j (.addressed key vm.recipientAddress)
    | .sendTon, .addressed none _ => some (s.finish i j .Error)
    | .sendTon, .addressed (some key) recipient =>
      (s.viewModels j.owner).map fun vm =>
        let query : Query :=
          { sender := s.world.currentWallet.map WalletData.address
            destination := (E.getAddressFromRaw recipient).getD []
            amount := vm.value }
        (s.goOn i j (.created query)).record (.sendTon
          { request := j.request, shown := vm.shown, key := key
            destination := query.destination, amount := query.amount })
    | .createQuery true, .created query =>
      some ((s.goOn i j (.sent query)).record (.submitted j.request query s.world.now))
    | .createQuery false, .created _ => some (s.finish i j .Error)
    | .querySend true, .sent _ => some ((s.finish i j .Success).record (.succeeded j.request))
    | .querySend false, .sent _ => some (s.finish i j .Error)
    | _, _ => none

/-- A fee coroutine ends. -/
def finishFee (s : State) (i : ℕ) (j : FeeJob) (vm : ViewModel) (state : TransferState) : State :=
  { s.setViewModel j.owner (some { vm with state := state }) with
    feeJobs := s.feeJobs.eraseIdx i }

/-- The coroutine of `loadData` (`TonConnectBottomSheetTransferViewModel.kt` lines 69–97). -/
def fee (E : Env) (s : State) (i : ℕ) (a : FeeAction) : Option State :=
  s.feeJobs[i]?.bind fun j =>
    (s.viewModels j.owner).bind fun vm =>
      match a, j.address with
      | .getAddress, none =>
        let address := (E.getAddressFromRaw j.recipient).getD []
        if address = [] then some (s.finishFee i j vm (.LoadingError (text "Invalid address")))
        else
          let s := { s with feeJobs := s.feeJobs.set i { j with address := some address } }
          some (s.record (.feeEstimated vm.shown address vm.amountToSend))
      | .reply response, some address => some (s.finishFee i j vm (vm.loaded address response))
      | _, _ => none

/-- The coroutine of `rejectTonConnectionEvent` (`TonConnectManager.kt` lines 94–96). -/
def reject (s : State) (i : ℕ) : Option State :=
  s.rejectJobs[i]?.map fun r =>
    let t := { s with rejectJobs := s.rejectJobs.eraseIdx i }
    match s.manager.getTonConnectionWithData r.data with
    | some c =>
      { t.record (.replied r c.object c.rejectTransferRequest) with
        manager := s.manager.count c.object }
    | none => t

end State

/-- The state machine. -/
def step (E : Env) (s : State) : Action → Option State
  | .world a => some { s with world := s.world.step a }
  | .manager a => (s.manager.step E.json a).map fun m => { s with manager := m }
  | .screen a => some { s with screen := s.screen.step a }
  | .present i => s.present i
  | .compose o => s.compose o
  | .pressConfirm o => s.pressConfirm o
  | .dispose o => some (s.setButton o .Empty)
  | .clear o => some (s.clear o)
  | .dismiss => some s.dismiss
  | .openLock occasion => some { s with lockScreens := s.lockScreens ++ [.other occasion] }
  | .closeLock i => some (s.closeLock i)
  | .unlock i u => s.unlock i u
  | .takeOther => some { s with inputKeyTemp := none }
  | .confirm i a => s.confirm E i a
  | .fee i a => s.fee E i a
  | .reject i => s.reject i

end TonWallet.Transfer
