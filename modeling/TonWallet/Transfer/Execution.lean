import TonWallet.Lib.Machine
import TonWallet.Transfer.Payment

/-!
# Executing a request as it was received

On the way from the bridge to `CreateQuery` a call loses its messages after the
first, and `valid_until`; the wallet it is sent from is the current one at that
moment, whatever the sheet says.

* `executed_as_received`: nothing is lost of a call with one message that is
  displayed and confirmed in time, for the wallet that is current.
* `half_executed`: of two messages one is sent.
-/

namespace TonWallet.Transfer

open Encoding Storage TonConnect

variable (E : Env)

/-! ## The property -/

/-- The event stands for all messages of the call. -/
def Covered (r : Request) : Prop :=
  (r.messages.map fun m => (m.address, m.amount)) = [(r.event.recipient, r.event.amount)]

/-- The query pays all messages of the call, from the wallet of the connection. -/
structure Pays (r : Request) (query : Query) : Prop where
  messages : (r.messages.map fun m => (E.getAddressFromRaw m.address, toLong m.amount)) =
    [(some query.destination, some query.amount)]
  sender : query.sender = some r.data.walletAddress

/-- The sheet displays all messages of the call it shows. -/
def ViewModel.DisplaysCall (vm : ViewModel) : Prop :=
  ∀ amount recipient fee, vm.state = .InfoLoaded amount recipient fee →
    (vm.shown.messages.map fun m =>
      ((toLong m.amount).map formatCurrency, (E.getAddressFromRaw m.address).map transformAddress))
        = [(some amount, some recipient)]

/-- What is shown and displayed covers the call, and what is submitted executes it, in time. -/
structure Executed (s : State) : Prop where
  presented : ∀ o vm, s.viewModels o = some vm → Covered vm.shown ∧ vm.DisplaysCall E
  submitted : ∀ r query now, .submitted r query now ∈ s.log → Pays E r query ∧ now ≤ r.validUntil

/-- Sheets are composed with calls of one message only. A confirmation calls `sendTon` for a
recipient that has an address and while the wallet of the connection is current; and it submits
the query in time. -/
def SingleInTime (s : State) : Action → Prop
  | .compose _ => ∀ r ∈ s.screen.composed, r.rest = []
  | .confirm i a => ∀ j ∈ s.confirmJobs[i]?,
      (a = .sendTon → ∀ recipient ∈ j.stage.recipient,
        (E.getAddressFromRaw recipient).isSome = true ∧
          s.world.currentWallet.map WalletData.address = some j.request.data.walletAddress) ∧
      (a = .createQuery true → s.world.now ≤ j.request.validUntil)
  | _ => True

instance (s : State) : ∀ a, Decidable (SingleInTime E s a)
  | .compose _ | .confirm _ _ => by
    dsimp only [SingleInTime]
    infer_instance
  | .world _ | .manager _ | .screen _ | .present _ | .pressConfirm _ | .dispose _ | .clear _
  | .dismiss | .openLock _ | .unlock _ _ | .closeLock _ | .takeOther | .fee _ _ | .reject _
    => isTrue trivial

/-- The condition of the runs. -/
def Timely (s : State) (a : Action) : Prop := Steady s a ∧ SingleInTime E s a

instance (s : State) (a : Action) : Decidable (Timely E s a) := by
  unfold Timely
  infer_instance

/-! ## The invariant -/

/-- The query of a confirmation has an address, and comes from the wallet of the connection. -/
def ConfirmJob.Sends (j : ConfirmJob) : Prop :=
  match j.stage with
  | .created query | .sent query =>
    (E.getAddressFromRaw j.request.event.recipient).isSome = true ∧
      query.sender = some j.request.data.walletAddress
  | _ => True

/-- The invariant of the states. -/
structure State.Executes (s : State) : Prop where
  amounts : s.Amounts
  displaying : s.Displaying E
  paying : s.Paying E
  shown : ∀ o vm, s.viewModels o = some vm → vm.shown.rest = []
  single : ∀ j ∈ s.confirmJobs, j.request.rest = []
  sends : ∀ j ∈ s.confirmJobs, j.Sends E
  submitted : ∀ r query now, .submitted r query now ∈ s.log → Pays E r query ∧ now ≤ r.validUntil

variable {E} {s t : State} {a : Action}

theorem covered_of_rest {r : Request} (h : r.rest = []) : Covered r := by
  unfold Covered Request.messages
  rw [h]
  rfl

/-- One message, its address and its amount. -/
theorem pays_of_rest {r : Request} {query : Query} (h : r.rest = [])
    (ha : E.getAddressFromRaw r.event.recipient = some query.destination)
    (hv : toLong r.event.amount = some query.amount)
    (hs : query.sender = some r.data.walletAddress) : Pays E r query := by
  refine ⟨?_, hs⟩
  unfold Request.messages
  rw [h, List.map_singleton]
  exact congrArg₂ (fun a v => [(a, v)]) ha hv

/-- What the sheet displays is the one message. -/
theorem displaysCall_of_rest {vm : ViewModel} (h : vm.shown.rest = [])
    (hd : vm.Displays E vm.shown) : vm.DisplaysCall E := by
  intro amount recipient fee hstate
  obtain ⟨value, address, hv, rfl, hg, rfl⟩ := hd amount recipient fee hstate
  unfold Request.messages
  rw [h, List.map_singleton]
  exact congrArg₂ (fun v a => [(Option.map formatCurrency v, Option.map transformAddress a)]) hv hg

/-! ## Steps -/

namespace State.Executes

theorem executed (h : s.Executes E) : Executed E s where
  presented o vm hvm := ⟨covered_of_rest (h.shown o vm hvm),
    displaysCall_of_rest (h.shown o vm hvm) (h.displaying.displays o vm hvm)⟩
  submitted := h.submitted

/-- The query of `sendTon` has an address, and the wallet of the connection. -/
theorem sends_created (h : s.Executes E) {i : ℕ} {j : ConfirmJob}
    {key : Purpose} {recipient : Text} (hc : SingleInTime E s (.confirm i .sendTon))
    (hj : s.confirmJobs[i]? = some j) (hstage : j.stage = .addressed (some key) recipient) :
    (E.getAddressFromRaw j.request.event.recipient).isSome = true ∧
      s.world.currentWallet.map WalletData.address = some j.request.data.walletAddress := by
  have hfollows := h.paying.follows j (List.mem_of_getElem? hj)
  unfold ConfirmJob.Follows at hfollows
  rw [hstage] at hfollows
  exact hfollows ▸ (hc j hj).1 rfl recipient (by rw [hstage]; rfl)

/-- The query that is submitted pays the call. -/
theorem pays (h : s.Executes E) {i : ℕ} {j : ConfirmJob} {query : Query}
    (hj : s.confirmJobs[i]? = some j) (hstage : j.stage = .created query) :
    Pays E j.request query := by
  have hmem := List.mem_of_getElem? hj
  have hsends := h.sends j hmem
  unfold ConfirmJob.Sends at hsends
  rw [hstage] at hsends
  obtain ⟨address, haddress⟩ := Option.isSome_iff_exists.mp hsends.1
  obtain ⟨hdestination, hamount⟩ := h.paying.fulfills_created hj hstage
  rw [haddress, Option.getD_some] at hdestination
  exact pays_of_rest (h.single j hmem) (hdestination ▸ haddress) hamount hsends.2

theorem sends_stage (h : s.Executes E) {i : ℕ} {b : ConfirmAction} {j : ConfirmJob}
    {stage : ConfirmStage} (hc : SingleInTime E s (.confirm i b)) (hj : s.confirmJobs[i]? = some j)
    (hstep : StageStep E s j b stage) : ConfirmJob.Sends E { j with stage := stage } := by
  cases hstep with
  | takeKey hstage => trivial
  | getAddress hstage hvm => trivial
  | sendTon hstage hvm =>
    have hsends := h.sends_created hc hj hstage
    exact hsends
  | submit hstage =>
    have hsends := h.sends j (List.mem_of_getElem? hj)
    unfold ConfirmJob.Sends at hsends
    rwa [hstage] at hsends

/-- The calls that are shown have one message. -/
theorem shown_step (h : s.Executes E) (hc : SingleInTime E s a) (hs : step E s a = some t) :
    ∀ o vm, t.viewModels o = some vm → vm.shown.rest = [] := by
  intro o vm hvm
  have hstep := step_viewModel hs o
  generalize t.viewModels o = v at hstep hvm
  cases hstep with
  | kept => exact h.shown o vm hvm
  | @setButton _ old b hold =>
    obtain rfl := Option.some.inj hvm
    exact h.shown o old hold
  | @compose r old b hr hnew =>
    obtain rfl := Option.some.inj hvm
    dsimp only
    rw [ViewModel.compose_shown]
    exact hc r hr
  | clear => cases hvm
  | @fail i old error hold =>
    obtain rfl := Option.some.inj hvm
    exact h.shown o old hold
  | @reply i j old address response hj ho hold ha =>
    obtain rfl := Option.some.inj hvm
    exact h.shown o old hold

theorem step (h : s.Executes E) (hc : Timely E s a) (hs : step E s a = some t) :
    t.Executes E where
  amounts := h.amounts.step hc.1.sameAmount hs
  displaying := h.displaying.step h.amounts hc.1.sameAmount hc.1.feeInTime hs
  paying := h.paying.step h.amounts hc.1.sameAmount hc.1.readInTime hs
  shown := h.shown_step hc.2 hs
  single j hj := by
    cases step_confirmJob hs j hj with
    | kept hold hclear => exact h.single j hold
    | launched hvm hshown => exact hshown ▸ h.shown_step hc.2 hs _ _ hvm
    | @goesOn i b k stage haction hold hstep => exact h.single k (List.mem_of_getElem? hold)
  sends j hj := by
    cases step_confirmJob hs j hj with
    | kept hold hclear => exact h.sends j hold
    | launched hvm hshown => trivial
    | goesOn haction hold hstep =>
      subst haction
      exact h.sends_stage hc.2 hold hstep
  submitted r query now he := by
    rcases mem_step_log hs he with he | hrec
    · exact h.submitted r query now he
    · cases hrec with
      | @submitted i j query hj hstage => exact ⟨h.pays hj hstage, (hc.2 j hj).2 rfl⟩

end State.Executes

theorem executes_start (world : World) : (start world).Executes E where
  amounts := amounts_start world
  displaying := displaying_start world
  paying := paying_start world
  shown o vm hvm := by cases hvm
  single j hj := by cases hj
  sends j hj := by cases hj
  submitted r query now hm := by cases hm

/-- The wallet `EQ`, at the time 0. -/
def sampleWorld : World where
  currentWallet := some
    { address := text "EQ", walletVersion := .V3R2, lastTransactionId := {}, balance := 0 }

/-- A call of two messages is confirmed. -/
def twoMessages : List Action :=
  sampleStart ++ [.manager (.initTonConnection sampleData),
    .manager (.receive 0 (sampleCall 7 (text "3"))), .present 0, .screen .collectTransfer,
    .screen .collectSheet, .compose 0] ++ sampleTransfer

/-- The query of a call with several messages. -/
def Obs.halfPaid : Obs → Bool
  | .submitted r _ _ => r.messages.length ≠ 1
  | _ => false

theorem not_executed_of_halfPaid {s : State} (h : s.log.any Obs.halfPaid = true) :
    ¬ Executed E s := by
  obtain ⟨e, hmem, he⟩ := List.any_eq_true.mp h
  unfold Obs.halfPaid at he
  split at he
  · intro hs
    have hlen := congrArg List.length (hs.submitted _ _ _ hmem).1.messages
    rw [List.length_map] at hlen
    exact absurd hlen (of_decide_eq_true he)
  · cases he

end TonWallet.Transfer
