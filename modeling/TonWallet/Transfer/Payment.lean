import TonWallet.Transfer.Display

/-!
# What a confirmation pays

`onConfirmClick` is launched for the request that the sheet shows, but reads the
recipient from the view model after it has got its key, and the amount when it
calls `sendTon`. Both are those of its request while view models meet one amount
only, and the recipient is read while it is still shown.

* `State.Paying.step`: every confirmation pays its own request.
-/

namespace TonWallet.Transfer

open Encoding Storage TonConnect

variable (E : Env)

/-- The destination and the amount are those of the request; an address that tonlib makes nothing
of is empty. -/
def Fulfills (r : Request) (destination : Text) (amount : ℤ) : Prop :=
  destination = (E.getAddressFromRaw r.event.recipient).getD [] ∧
    toLong r.event.amount = some amount

/-- What a confirmation has got so far belongs to its request. -/
def ConfirmJob.Follows (j : ConfirmJob) : Prop :=
  match j.stage with
  | .addressed _ recipient => recipient = j.request.event.recipient
  | .created query | .sent query => Fulfills E j.request query.destination query.amount
  | _ => True

/-- What the confirmations pay, and are going to pay. -/
structure State.Paying (s : State) : Prop where
  owned : ∀ j ∈ s.confirmJobs, ∃ vm, s.viewModels j.owner = some vm ∧
    toLong j.request.event.amount = some vm.value
  follows : ∀ j ∈ s.confirmJobs, j.Follows E
  sent : ∀ call, .sendTon call ∈ s.log → Fulfills E call.request call.destination call.amount
  submitted : ∀ r query now, .submitted r query now ∈ s.log →
    Fulfills E r query.destination query.amount

/-! ## The conditions -/

/-- A confirmation reads the recipient while that of its request is still shown. -/
def ReadInTime (s : State) : Action → Prop
  | .confirm i .getAddress => ∀ j ∈ s.confirmJobs[i]?, ∀ vm ∈ s.viewModels j.owner,
      vm.recipientAddress = j.request.event.recipient
  | _ => True

instance (s : State) : ∀ a, Decidable (ReadInTime s a)
  | .confirm _ .getAddress => by
    dsimp only [ReadInTime]
    infer_instance
  | .world _ | .manager _ | .screen _ | .present _ | .compose _ | .pressConfirm _ | .dispose _
  | .clear _ | .dismiss | .openLock _ | .unlock _ _ | .closeLock _ | .takeOther
  | .confirm _ .takeKey | .confirm _ .sendTon | .confirm _ (.createQuery _)
  | .confirm _ (.querySend _) | .fee _ _ | .reject _ => isTrue trivial

/-- What is displayed and what is paid is the request that is shown. -/
structure Steady (s : State) (a : Action) : Prop where
  sameAmount : SameAmount s a
  feeInTime : FeeInTime s a
  readInTime : ReadInTime s a

instance (s : State) (a : Action) : Decidable (Steady s a) :=
  decidable_of_iff (SameAmount s a ∧ FeeInTime s a ∧ ReadInTime s a)
    ⟨fun h => ⟨h.1, h.2.1, h.2.2⟩, fun h => ⟨h.sameAmount, h.feeInTime, h.readInTime⟩⟩

/-! ## Steps -/

variable {E} {s t : State} {a : Action}

namespace State.Paying

/-- The arguments of `sendTon`. -/
theorem fulfills (h : s.Paying E) {i : ℕ} {j : ConfirmJob} {key : Option Purpose}
    {recipient : Text} {vm : ViewModel} (hj : s.confirmJobs[i]? = some j)
    (hstage : j.stage = .addressed key recipient) (hvm : s.viewModels j.owner = some vm) :
    Fulfills E j.request ((E.getAddressFromRaw recipient).getD []) vm.value := by
  have hmem := List.mem_of_getElem? hj
  have hfollows := h.follows j hmem
  unfold ConfirmJob.Follows at hfollows
  rw [hstage] at hfollows
  obtain ⟨vm', hvm', hamount⟩ := h.owned j hmem
  obtain rfl := Option.some.inj (hvm.symm.trans hvm')
  exact ⟨by rw [hfollows], hamount⟩

/-- The query of a confirmation. -/
theorem fulfills_created (h : s.Paying E) {i : ℕ} {j : ConfirmJob} {query : Query}
    (hj : s.confirmJobs[i]? = some j) (hstage : j.stage = .created query) :
    Fulfills E j.request query.destination query.amount := by
  have hfollows := h.follows j (List.mem_of_getElem? hj)
  unfold ConfirmJob.Follows at hfollows
  rwa [hstage] at hfollows

/-- A confirmation goes on with what belongs to its request. -/
theorem follows_stage (h : s.Paying E) {i : ℕ} {b : ConfirmAction} {j : ConfirmJob}
    {stage : ConfirmStage} (hc : ReadInTime s (.confirm i b)) (hj : s.confirmJobs[i]? = some j)
    (hstep : StageStep E s j b stage) : ConfirmJob.Follows E { j with stage := stage } := by
  cases hstep with
  | takeKey hstage => trivial
  | getAddress hstage hvm => exact hc j hj _ hvm
  | sendTon hstage hvm =>
    have hpays := h.fulfills hj hstage hvm
    exact hpays
  | submit hstage =>
    have hpays := h.fulfills_created hj hstage
    exact hpays

theorem step (h : s.Paying E) (ha : s.Amounts) (hc : SameAmount s a) (hr : ReadInTime s a)
    (hs : step E s a = some t) : t.Paying E where
  owned j hj := by
    have hkept : ∀ k ∈ s.confirmJobs, a ≠ .clear k.owner → ∃ vm,
        t.viewModels k.owner = some vm ∧ toLong k.request.event.amount = some vm.value := by
      intro k hk hclear
      obtain ⟨vm, hvm, hamount⟩ := h.owned k hk
      obtain ⟨vm', hvm', hvalue⟩ := viewModel_persists hs hclear hvm
      exact ⟨vm', hvm', by rw [hvalue, hamount]⟩
    cases step_confirmJob hs j hj with
    | kept hold hclear => exact hkept j hold hclear
    | launched hvm hshown => exact ⟨_, hvm, hshown ▸ ha.step hc hs _ _ hvm⟩
    | @goesOn i b k stage haction hold hstep =>
      exact hkept k (List.mem_of_getElem? hold) (by rw [haction]; nofun)
  follows j hj := by
    cases step_confirmJob hs j hj with
    | kept hold hclear => exact h.follows j hold
    | launched hvm hshown => trivial
    | goesOn haction hold hstep =>
      subst haction
      exact h.follows_stage hr hold hstep
  sent call he := by
    rcases mem_step_log hs he with he | hrec
    · exact h.sent call he
    · cases hrec with
      | sendTon hj hstage hvm => exact h.fulfills hj hstage hvm
  submitted r query now he := by
    rcases mem_step_log hs he with he | hrec
    · exact h.submitted r query now he
    · cases hrec with
      | submitted hj hstage => exact h.fulfills_created hj hstage

end State.Paying

theorem paying_start (world : World) : (start world).Paying E where
  owned j hj := by cases hj
  follows j hj := by cases hj
  sent call hc := by cases hc
  submitted r query now hm := by cases hm

end TonWallet.Transfer
