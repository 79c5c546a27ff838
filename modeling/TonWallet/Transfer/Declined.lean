import TonWallet.Lib.Jobs
import TonWallet.Lib.Machine
import TonWallet.Transfer.Payment

/-!
# Declined transfers

`onBottomSheetDismiss` declines the request that is current, whatever has become
of it: it does not look at the button state of the transfer, as it does at that
of a connection. The sheet is hidden after a successful transfer too.

* `declined_not_sent`: the dApp is told nothing wrong when a request is only
  dismissed before it is confirmed, and not confirmed after, and a confirmation
  pays no other request than its own.
* `sent_and_declined`: the sheet is closed after the transfer.
-/

namespace TonWallet.Transfer

open Encoding Storage TonConnect

/-! ## The property -/

/-- No request is both sent and declined: each call of `sendTon` pays the request it is made for,
and no reply declines that one. -/
def NeverBoth (E : Env) (s : State) : Prop :=
  ∀ call, .sendTon call ∈ s.log → Fulfills E call.request call.destination call.amount ∧
    ∀ connection reply, .replied call.request connection reply ∉ s.log

/-- A confirmation that has found no key. -/
def ConfirmStage.keyless : ConfirmStage → Bool
  | .keyed none | .addressed none _ => true
  | _ => false

/-- The transfers so far. -/
def State.calls (s : State) : List SendTon :=
  s.log.filterMap fun
    | .sendTon call => some call
    | _ => none

/-- A request is dismissed while no confirmation of it has, or may still get, its key; and once
it is dismissed it is not confirmed any more. -/
def InTime (s : State) : Action → Prop
  | .dismiss => ∀ r ∈ s.screen.transferRequest,
      (∀ j ∈ s.confirmJobs, j.request = r → j.stage.keyless = true) ∧
      ∀ call ∈ s.calls, call.request ≠ r
  | .compose _ => ∀ r ∈ s.screen.composed, s.inputKeyTemp ≠ none → .dismissed r ∉ s.log
  | .pressConfirm o => ∀ vm ∈ s.viewModels o, .dismissed vm.shown ∉ s.log
  | _ => True

instance (s : State) : ∀ a, Decidable (InTime s a)
  | .compose _ | .pressConfirm _ | .dismiss => by
    dsimp only [InTime]
    infer_instance
  | .world _ | .manager _ | .screen _ | .present _ | .dispose _ | .clear _ | .openLock _
  | .unlock _ _ | .closeLock _ | .takeOther | .confirm _ _ | .fee _ _ | .reject _ => isTrue trivial

theorem mem_calls {s : State} {call : SendTon} : call ∈ s.calls ↔ .sendTon call ∈ s.log := by
  unfold State.calls
  rw [List.mem_filterMap]
  constructor
  · rintro ⟨e, he, hcall⟩
    split at hcall
    · cases hcall
      exact he
    · cases hcall
  · intro h
    exact ⟨_, h, rfl⟩

/-! ## The invariant -/

/-- A dismissed request is not under way, and the declined ones have been dismissed. -/
structure Settled (jobs : List ConfirmJob) (rejects : List Request) (log : List Obs) : Prop where
  rejects : ∀ r ∈ rejects, .dismissed r ∈ log
  replied : ∀ r connection reply, .replied r connection reply ∈ log → .dismissed r ∈ log
  jobs : ∀ j ∈ jobs, .dismissed j.request ∈ log → j.stage.keyless = true
  sent : ∀ call, .sendTon call ∈ log → .dismissed call.request ∉ log

/-- The invariant of the states. -/
def State.Settled (s : State) : Prop := Transfer.Settled s.confirmJobs s.rejectJobs s.log

namespace Settled

variable {jobs jobs' : List ConfirmJob} {rejects rejects' : List Request} {log : List Obs}

theorem not_replied (h : Settled jobs rejects log) {call : SendTon} (hc : .sendTon call ∈ log)
    (connection : ℕ) (reply : Reply) : .replied call.request connection reply ∉ log :=
  fun hr => h.sent call hc (h.replied _ _ _ hr)

/-- An event is added that is no dismissal. -/
theorem record (h : Settled jobs rejects log) {e : Obs} (hd : ∀ r, e ≠ .dismissed r)
    (hr : ∀ r connection reply, e = .replied r connection reply → .dismissed r ∈ log)
    (hs : ∀ call, e = .sendTon call → .dismissed call.request ∉ log) :
    Settled jobs rejects (e :: log) := by
  have hmem : ∀ r, .dismissed r ∈ e :: log → .dismissed r ∈ log := by
    intro r hm
    rcases List.mem_cons.mp hm with he | hm
    · exact absurd he.symm (hd r)
    · exact hm
  refine ⟨fun r hm => List.mem_cons_of_mem _ (h.rejects r hm), fun r c reply hm => ?_,
    fun j hj hm => h.jobs j hj (hmem _ hm), fun call hm hm' => ?_⟩
  · rcases List.mem_cons.mp hm with he | hm
    · exact List.mem_cons_of_mem _ (hr r c reply he.symm)
    · exact List.mem_cons_of_mem _ (h.replied r c reply hm)
  · rcases List.mem_cons.mp hm with he | hm
    · exact hs call he.symm (hmem _ hm')
    · exact h.sent call hm (hmem _ hm')

/-- Any event but a dismissal, a reply or a transfer. -/
theorem record_other (h : Settled jobs rejects log) {e : Obs} (hd : ∀ r, e ≠ .dismissed r)
    (hr : ∀ r connection reply, e ≠ .replied r connection reply)
    (hs : ∀ call, e ≠ .sendTon call) : Settled jobs rejects (e :: log) :=
  h.record hd (fun r c reply he => absurd he (hr r c reply)) (fun call he => absurd he (hs call))

/-- A request is dismissed that is not under way. -/
theorem dismiss (h : Settled jobs rejects log) {r : Request}
    (hjobs : ∀ j ∈ jobs, j.request = r → j.stage.keyless = true)
    (hsent : ∀ call, .sendTon call ∈ log → call.request ≠ r) :
    Settled jobs (rejects ++ [r]) (.dismissed r :: log) where
  rejects := Jobs.launch (fun q hq => List.mem_cons_of_mem _ (h.rejects q hq))
    (List.mem_cons_self ..)
  replied q c reply hq := by
    rcases List.mem_cons.mp hq with he | hq
    · cases he
    · exact List.mem_cons_of_mem _ (h.replied q c reply hq)
  jobs j hj hm := by
    rcases List.mem_cons.mp hm with he | hm
    · exact hjobs j hj (Obs.dismissed.inj he)
    · exact h.jobs j hj hm
  sent call hm hd := by
    rcases List.mem_cons.mp hm with he | hm
    · cases he
    rcases List.mem_cons.mp hd with he | hd
    · exact hsent call hm (Obs.dismissed.inj he)
    · exact h.sent call hm hd

/-- Coroutines end. -/
theorem subset (h : Settled jobs rejects log) (hjobs : ∀ j ∈ jobs', j ∈ jobs)
    (hrejects : ∀ r ∈ rejects', r ∈ rejects) : Settled jobs' rejects' log :=
  ⟨fun r hr => h.rejects r (hrejects r hr), h.replied, fun j hj => h.jobs j (hjobs j hj), h.sent⟩

/-- A confirmation of a request is launched that has not been dismissed. -/
theorem launch (h : Settled jobs rejects log) {o : ℕ} {r : Request} (hr : .dismissed r ∉ log) :
    Settled (jobs ++ [{ owner := o, request := r }]) rejects log :=
  ⟨h.rejects, h.replied, Jobs.launch h.jobs fun hm => absurd hm hr, h.sent⟩

/-- A confirmation goes on; without a key it stays without. -/
theorem goOn (h : Settled jobs rejects log) {i : ℕ} {j : ConfirmJob} (hj : j ∈ jobs)
    {stage : ConfirmStage} (hstage : j.stage.keyless = true → stage.keyless = true) :
    Settled (jobs.set i { j with stage := stage }) rejects log :=
  ⟨h.rejects, h.replied, Jobs.goOn h.jobs fun hm => hstage (h.jobs j hj hm), h.sent⟩

end Settled

/-! ## Steps -/

namespace State.Settled

variable {E : Env} {s t : State}

theorem onConfirmClick (h : s.Settled) (o : ℕ) {vm : ViewModel} (hd : .dismissed vm.shown ∉ s.log) :
    (s.onConfirmClick o vm).Settled :=
  h.launch hd

theorem compose (h : s.Settled) {o : ℕ} (hc : InTime s (.compose o)) (hs : s.compose o = some t) :
    t.Settled := by
  obtain ⟨r, vm, hr, -, ⟨-, rfl⟩ | ⟨p, hp, rfl⟩⟩ := compose_cases hs
  · exact h
  · have hset : (s.setNewRecipient o vm r).Settled := h
    refine hset.onConfirmClick o ?_
    rw [ViewModel.compose_shown]
    exact hc r hr (by simp [hp])

theorem confirmPressed (h : s.Settled) (vm : ViewModel) : (s.confirmPressed vm).Settled :=
  h.record_other (by simp) (by simp) (by simp)

theorem pressConfirm (h : s.Settled) {o : ℕ} (hc : InTime s (.pressConfirm o))
    (hs : s.pressConfirm o = some t) : t.Settled := by
  obtain ⟨vm, hvm, rfl | ⟨-, ⟨-, rfl⟩ | ⟨-, rfl⟩⟩⟩ := pressConfirm_cases hs
  · exact h.onConfirmClick o (hc vm hvm)
  · refine (h.confirmPressed vm).onConfirmClick o ?_
    intro hm
    rcases List.mem_cons.mp hm with he | hm
    · cases he
    · exact hc vm hvm hm
  · exact h.confirmPressed vm

theorem finish (h : s.Settled) (i : ℕ) (j : ConfirmJob) (b : ButtonState) :
    (s.finish i j b).Settled :=
  h.subset (fun _ => List.mem_of_mem_eraseIdx) (fun _ hr => hr)

theorem goOn (h : s.Settled) (i : ℕ) {j : ConfirmJob} (hj : j ∈ s.confirmJobs)
    {stage : ConfirmStage} (hstage : j.stage.keyless = true → stage.keyless = true) :
    (s.goOn i j stage).Settled :=
  Transfer.Settled.goOn h hj hstage

theorem confirm (h : s.Settled) {i : ℕ} {a : ConfirmAction} (hs : s.confirm E i a = some t) :
    t.Settled := by
  obtain ⟨j, hj, hstep⟩ := confirm_cases hs
  have hmem := List.mem_of_getElem? hj
  cases hstep with
  | takeKey hstage => exact h.goOn i hmem (by simp [hstage, ConfirmStage.keyless])
  | @getAddress key vm hstage hvm =>
    refine h.goOn i hmem fun hk => ?_
    rw [hstage] at hk
    cases key with
    | none => rfl
    | some p => cases hk
  | sendTon hstage hvm hquery =>
    refine (h.goOn i hmem ?_).record (by simp) (by simp) fun call he => ?_
    · simp [hstage, ConfirmStage.keyless]
    · -- It has its key, so it has not been dismissed.
      obtain rfl := Obs.sendTon.inj he
      intro hm
      have hk := h.jobs j hmem hm
      rw [hstage] at hk
      cases hk
  | submit hstage =>
    refine (h.goOn i hmem ?_).record_other (by simp) (by simp) (by simp)
    simp [hstage, ConfirmStage.keyless]
  | succeed hstage => exact (h.finish i j .Success).record_other (by simp) (by simp) (by simp)
  | fail => exact h.finish i j .Error

theorem fee (h : s.Settled) {i : ℕ} {a : FeeAction} (hs : s.fee E i a = some t) : t.Settled := by
  obtain ⟨j, vm, -, -, hstep⟩ := fee_cases hs
  cases hstep with
  | invalid => exact h
  | estimate ha => exact h.record_other (by simp) (by simp) (by simp)
  | reply ha => exact h

theorem unlock (h : s.Settled) {i : ℕ} {u : Unlock} (hs : s.unlock i u = some t) : t.Settled := by
  obtain ⟨p, -, rfl⟩ := Option.map_eq_some_iff.mp hs
  cases u with
  | passcode => exact h.record_other (by simp) (by simp) (by simp)
  | biometric => exact h.record_other (by simp) (by simp) (by simp)
  | wrongPasscode => exact h

theorem dismiss (h : s.Settled) (hc : InTime s .dismiss) : s.dismiss.Settled := by
  unfold State.dismiss
  split
  · rename_i r hr
    obtain ⟨hjobs, hsent⟩ := hc r hr
    exact Transfer.Settled.dismiss h hjobs fun call hm => hsent call (mem_calls.mpr hm)
  · exact h

theorem reject (h : s.Settled) {i : ℕ} (hs : s.reject i = some t) : t.Settled := by
  obtain ⟨r, hr, rfl⟩ := Option.map_eq_some_iff.mp hs
  have herase : Transfer.Settled s.confirmJobs (s.rejectJobs.eraseIdx i) s.log :=
    h.subset (fun _ hj => hj) (fun _ => List.mem_of_mem_eraseIdx)
  dsimp only
  split
  · refine herase.record (by simp) (fun q c reply he => ?_) (by simp)
    obtain ⟨rfl, -⟩ := Obs.replied.inj he
    exact h.rejects r (List.mem_of_getElem? hr)
  · exact herase

theorem step (h : s.Settled) {a : Action} (hc : InTime s a) (hs : step E s a = some t) :
    t.Settled := by
  cases a with
  | world a => cases hs; exact h
  | manager a =>
    obtain ⟨m, -, rfl⟩ := Option.map_eq_some_iff.mp hs
    exact h
  | screen a => cases hs; exact h
  | present i =>
    obtain ⟨r, -, rfl⟩ := Option.map_eq_some_iff.mp hs
    exact h
  | compose o => exact h.compose hc hs
  | pressConfirm o => exact h.pressConfirm hc hs
  | dispose o => cases hs; exact h
  | clear o =>
    cases hs
    exact h.subset (fun j hj => (List.mem_filter.mp hj).1) (fun _ hr => hr)
  | dismiss => cases hs; exact h.dismiss hc
  | openLock occasion => cases hs; exact h
  | closeLock i => cases hs; exact h
  | unlock i u => exact h.unlock hs
  | takeOther => cases hs; exact h
  | confirm i a => exact h.confirm hs
  | fee i a => exact h.fee hs
  | reject i => exact h.reject hs

end State.Settled

theorem settled_start (world : World) : (start world).Settled where
  rejects r hr := by cases hr
  replied r connection reply hr := by cases hr
  jobs j hj := by cases hj
  sent call hc := by cases hc

/-- The condition of the runs: requests are dismissed in time, and confirmations pay their own. -/
def InTimeForOwn (s : State) (a : Action) : Prop := InTime s a ∧ SameAmount s a ∧ ReadInTime s a

instance (s : State) (a : Action) : Decidable (InTimeForOwn s a) := by
  unfold InTimeForOwn
  infer_instance

/-- The invariant of the states. -/
structure State.Separate (E : Env) (s : State) : Prop where
  settled : s.Settled
  amounts : s.Amounts
  paying : s.Paying E

theorem State.Separate.neverBoth {E : Env} {s : State} (h : s.Separate E) : NeverBoth E s :=
  fun call hc => ⟨h.paying.sent call hc, h.settled.not_replied hc⟩

theorem State.Separate.step {E : Env} {s t : State} {a : Action} (h : s.Separate E)
    (hc : InTimeForOwn s a) (hs : step E s a = some t) : t.Separate E where
  settled := h.settled.step hc.1 hs
  amounts := h.amounts.step hc.2.1 hs
  paying := h.paying.step h.amounts hc.2.1 hc.2.2 hs

/-- **Dismissed in time, a request is declined or sent, not both.** Let each request in the run
be dismissed only while no confirmation of it has its key, or may still get one, and `sendTon` has
not been called for it; and let it not be confirmed after that. Let the sheet be composed with
requests of the amount of its view model only, and each confirmation read the recipient of its own
request. Then no request is both sent and declined, in whatever order: each call of `sendTon` pays
the request of its confirmation, and this one is not declined. -/
theorem declined_not_sent (E : Env) (world : World) {as : List Action}
    (hc : Machine.Guarded (step E) InTimeForOwn (start world) as) :
    Machine.Always (step E) (NeverBoth E) (start world) as :=
  Machine.always_of_guarded (fun _ _ _ h hc hs => State.Separate.step h hc hs)
    (fun _ h => State.Separate.neverBoth h)
    ⟨settled_start world, amounts_start world, paying_start world⟩ hc

/-- A request is dismissed, and the next one, which is like it, is sent. -/
theorem declined_not_sent_twice :
    Machine.Always (step sampleEnv) (NeverBoth sampleEnv) (start {})
      (sampleStart ++ sampleArrival ++ [.compose 0, .dismiss, .reject 0,
        .manager (.receive 0 (sampleCall 8 (text "1"))), .present 0, .screen .collectTransfer,
        .screen .collectSheet, .compose 0] ++ sampleTransfer) :=
  declined_not_sent sampleEnv {} (by decide +kernel)

/-! ## Closing the sheet -/

/-- A request is sent, and the user closes the sheet. -/
def closedRun : List Action :=
  sampleStart ++ sampleArrival ++ .compose 0 :: sampleTransfer ++ [.dismiss, .reject 0]

/-- A reply to the request of the transfer. -/
def Obs.declines (call : SendTon) : Obs → Bool
  | .replied r _ _ => r = call.request
  | _ => false

theorem not_neverBoth_of_declines {s : State}
    (h : (s.calls.any fun call => s.log.any (Obs.declines call)) = true) :
    ¬ NeverBoth sampleEnv s := by
  obtain ⟨call, hcall, h⟩ := List.any_eq_true.mp h
  obtain ⟨e, hmem, he⟩ := List.any_eq_true.mp h
  unfold Obs.declines at he
  split at he
  · intro hn
    obtain rfl := of_decide_eq_true he
    exact (hn call (mem_calls.mp hcall)).2 _ _ hmem
  · cases he

/-- The dApp is told that the transfer was declined, after it has been sent. -/
theorem sent_and_declined :
    ¬ Machine.Always (step sampleEnv) (NeverBoth sampleEnv) (start {}) closedRun := by
  have hrun : (Machine.run (step sampleEnv) (start {}) closedRun).any
      (fun s => s.calls.any fun call => s.log.any (Obs.declines call)) = true := by decide +kernel
  obtain ⟨t, ht, hlog⟩ := (Option.any_eq_true ..).mp hrun
  exact Machine.not_always_of_run ht (not_neverBoth_of_declines hlog)

end TonWallet.Transfer
