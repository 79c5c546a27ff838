import TonWallet.Transfer.Steps

/-!
# What the sheet displays

The view model of an entry keeps the amount it was made with, and displays it
with whatever address a fee coroutine has asked for. So the sheet displays the
request it shows while it only meets requests of that amount, and no coroutine
replies for another recipient.

* `State.Amounts.step`: the amount of the view model stays that of the request.
* `State.Displaying.step`: what is displayed stays the request.
-/

namespace TonWallet.Transfer

open Encoding Storage TonConnect

variable (E : Env)

/-! ## The properties -/

/-- The sheet displays the amount and the recipient of the request it shows. -/
def ViewModel.Displays (vm : ViewModel) (r : Request) : Prop :=
  ∀ amount recipient fee, vm.state = .InfoLoaded amount recipient fee →
    ∃ value address, toLong r.event.amount = some value ∧ amount = formatCurrency value ∧
      E.getAddressFromRaw r.event.recipient = some address ∧ recipient = transformAddress address

/-- The amount and the recipient of the request are displayed. -/
def TransferState.Presents (displayed : TransferState) (r : Request) : Prop :=
  ∃ value address fee, toLong r.event.amount = some value ∧
    E.getAddressFromRaw r.event.recipient = some address ∧
    displayed = .InfoLoaded (formatCurrency value) (transformAddress address) fee

/-- Each view model has the amount of the request it shows. -/
def State.Amounts (s : State) : Prop :=
  ∀ o vm, s.viewModels o = some vm → toLong vm.shown.event.amount = some vm.value

/-- What the sheets display, and are going to display. -/
structure State.Displaying (s : State) : Prop where
  recipient : ∀ o vm, s.viewModels o = some vm → vm.recipientAddress = vm.shown.event.recipient
  displays : ∀ o vm, s.viewModels o = some vm → vm.Displays E vm.shown
  asked : ∀ j ∈ s.feeJobs, j.Asked E

/-! ## The conditions -/

/-- A sheet is composed with requests of the amount of its view model only. -/
def SameAmount (s : State) : Action → Prop
  | .compose o => ∀ r ∈ s.screen.composed, ∀ vm ∈ s.viewModels o,
      toLong r.event.amount = some vm.value
  | _ => True

/-- A fee is displayed while its recipient is still the one of the sheet. -/
def FeeInTime (s : State) : Action → Prop
  | .fee i (.reply _) => ∀ j ∈ s.feeJobs[i]?, ∀ vm ∈ s.viewModels j.owner,
      vm.recipientAddress = j.recipient
  | _ => True

instance (s : State) : ∀ a, Decidable (SameAmount s a)
  | .compose _ => by
    dsimp only [SameAmount]
    infer_instance
  | .world _ | .manager _ | .screen _ | .present _ | .pressConfirm _ | .dispose _ | .clear _
  | .dismiss | .openLock _ | .unlock _ _ | .closeLock _ | .takeOther | .confirm _ _ | .fee _ _
  | .reject _ => isTrue trivial

instance (s : State) : ∀ a, Decidable (FeeInTime s a)
  | .fee _ (.reply _) => by
    dsimp only [FeeInTime]
    infer_instance
  | .world _ | .manager _ | .screen _ | .present _ | .compose _ | .pressConfirm _ | .dispose _
  | .clear _ | .dismiss | .openLock _ | .unlock _ _ | .closeLock _ | .takeOther | .confirm _ _
  | .fee _ .getAddress | .reject _ => isTrue trivial

/-! ## Steps -/

variable {E} {s t : State} {a : Action}

theorem ViewModel.compose_state_of_loading (vm : ViewModel) (r : Request)
    (h : vm.state = .Loading) : (vm.compose r).state = .Loading := by
  unfold ViewModel.compose
  split
  · rfl
  · exact h

/-- The view model that is composed with a request has its amount. -/
theorem viewModel_amount {o : ℕ} (hc : SameAmount s (.compose o)) {r : Request} {vm : ViewModel}
    (hr : s.screen.composed = some r) (hvm : s.viewModel o r = some vm) :
    toLong r.event.amount = some vm.value := by
  rcases viewModel_cases hvm with hvm | ⟨-, hnew⟩
  · exact hc r hr vm hvm
  · exact (ViewModel.create_spec hnew).2

theorem State.Amounts.step (h : s.Amounts) (hc : SameAmount s a) (hs : step E s a = some t) :
    t.Amounts := by
  intro o vm hvm
  have hstep := step_viewModel hs o
  generalize t.viewModels o = v at hstep hvm
  cases hstep with
  | kept => exact h o vm hvm
  | @setButton _ old b hold =>
    obtain rfl := Option.some.inj hvm
    exact h o old hold
  | compose b hr hnew =>
    obtain rfl := Option.some.inj hvm
    dsimp only
    rw [ViewModel.compose_shown, ViewModel.compose_value]
    exact viewModel_amount hc hr hnew
  | clear => cases hvm
  | @fail i old error hold =>
    obtain rfl := Option.some.inj hvm
    exact h o old hold
  | @reply i j old address response hj ho hold ha =>
    obtain rfl := Option.some.inj hvm
    exact h o old hold

/-- A composition with a request of the same amount: what is displayed is kept only for the
recipient it belongs to. -/
theorem ViewModel.Displays.compose {vm : ViewModel} {r : Request}
    (hamount : toLong r.event.amount = toLong vm.shown.event.amount)
    (hrecipient : vm.recipientAddress = vm.shown.event.recipient)
    (h : vm.Displays E vm.shown) : (vm.compose r).Displays E r := by
  intro amount recipient fee hstate
  unfold ViewModel.compose at hstate
  by_cases hnew : r.event.recipient ≠ vm.recipientAddress
  · rw [if_pos hnew] at hstate
    cases hstate
  · rw [if_neg hnew] at hstate
    obtain ⟨value, address, hv, ha, hg, ht⟩ := h amount recipient fee hstate
    rw [← hrecipient, ← not_not.mp hnew] at hg
    exact ⟨value, address, hamount.trans hv, ha, hg, ht⟩

/-- What a fee coroutine displays for its recipient. -/
theorem ViewModel.displays_loaded {vm : ViewModel} {address : Text} (response : FeeResponse)
    (hamount : toLong vm.shown.event.amount = some vm.value)
    (haddress : E.getAddressFromRaw vm.shown.event.recipient = some address) :
    ViewModel.Displays E { vm with state := vm.loaded address response } vm.shown := by
  intro amount recipient fee hstate
  cases response with
  | Success fee' =>
    obtain ⟨rfl, rfl, -⟩ := TransferState.InfoLoaded.inj hstate
    exact ⟨vm.value, address, hamount, rfl, haddress, rfl⟩
  | NotEnoughFunds => cases hstate
  | Error => cases hstate

theorem State.Displaying.step (h : s.Displaying E) (ha : s.Amounts) (hc : SameAmount s a)
    (hf : FeeInTime s a) (hs : step E s a = some t) : t.Displaying E := by
  have hboth : ∀ o vm, t.viewModels o = some vm →
      vm.recipientAddress = vm.shown.event.recipient ∧ vm.Displays E vm.shown := by
    intro o vm hvm
    have hstep := step_viewModel hs o
    generalize t.viewModels o = v at hstep hvm
    cases hstep with
    | kept => exact ⟨h.recipient o vm hvm, h.displays o vm hvm⟩
    | @setButton _ old b hold =>
      obtain rfl := Option.some.inj hvm
      exact ⟨h.recipient o old hold, h.displays o old hold⟩
    | @compose r old b hr hnew =>
      obtain rfl := Option.some.inj hvm
      dsimp only
      rw [ViewModel.compose_shown, ViewModel.compose_recipientAddress]
      refine ⟨rfl, ?_⟩
      rcases viewModel_cases hnew with hold | ⟨-, hcreate⟩
      · have hamount : toLong r.event.amount = toLong old.shown.event.amount :=
          (hc r hr old hold).trans (ha o old hold).symm
        exact (h.displays o old hold).compose hamount (h.recipient o old hold)
      · -- A new view model is loading.
        intro amount recipient fee hstate
        have hloading := old.compose_state_of_loading r (ViewModel.create_spec hcreate).1
        rw [show (old.compose r).state = _ from hstate] at hloading
        cases hloading
    | clear => cases hvm
    | @fail i old error hold =>
      obtain rfl := Option.some.inj hvm
      exact ⟨h.recipient o old hold, fun amount recipient fee hstate => by cases hstate⟩
    | @reply i j old address response hj ho hold haddress =>
      obtain rfl := Option.some.inj hvm
      refine ⟨h.recipient o old hold, ViewModel.displays_loaded response (ha o old hold) ?_⟩
      have hasked := h.asked j (List.mem_of_getElem? hj) address haddress
      rwa [← hf j hj old (ho ▸ hold), h.recipient o old hold] at hasked
  exact ⟨fun o vm hvm => (hboth o vm hvm).1, fun o vm hvm => (hboth o vm hvm).2,
    step_feeJobs hs h.asked⟩

/-- Confirm is pressed on a sheet that displays its request. -/
theorem State.Displaying.presents (h : s.Displaying E) {o : ℕ} {vm : ViewModel}
    (hvm : s.viewModels o = some vm)
    (hstate : ∃ amount recipient fee, vm.state = .InfoLoaded amount recipient fee) :
    vm.state.Presents E vm.shown := by
  obtain ⟨amount, recipient, fee, hstate⟩ := hstate
  obtain ⟨value, address, hv, rfl, hg, rfl⟩ := h.displays o vm hvm amount recipient fee hstate
  exact ⟨value, address, fee, hv, hg, hstate⟩

theorem amounts_start (world : World) : (start world).Amounts := fun _ _ hvm => by cases hvm

theorem displaying_start (world : World) : (start world).Displaying E where
  recipient _ _ hvm := by cases hvm
  displays _ _ hvm := by cases hvm
  asked _ hj := by cases hj

end TonWallet.Transfer
