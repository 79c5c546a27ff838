import TonWallet.Lib.Jobs
import TonWallet.Lib.Machine
import TonWallet.Transfer.Numbering

/-!
# Replies to requests

The id of a call does not leave `onEvent`. A reply takes its id from the counter
of a connection, which is looked up by the id of the dApp, and is sent for each
dismissal. No code sends the result of a transfer.

* `replies_correlated`: the replies match while the calls are numbered as the
  counters are, and there is nothing to report.
* `uncorrelated_reply`: the first call of a dApp is not number one.
-/

namespace TonWallet.Transfer

open Encoding Storage TonConnect

/-! ## The property -/

/-- The replies so far match the requests. -/
structure Correlated (log : List Obs) : Prop where
  /-- The connection and the id of a reply are those of the call. -/
  own : ∀ r connection reply, .replied r connection reply ∈ log →
    connection = r.connection ∧ reply.id = r.id
  once : ∀ r, log.countP (Obs.repliesTo r) ≤ 1
  /-- A transfer that succeeds is reported. -/
  result : ∀ r, .succeeded r ∈ log → ∃ connection reply,
    .replied r connection reply ∈ log ∧ reply.error = none

/-- Requests and replies keep in step. A request has the id that the counter of its connection is
going to have when all requests before it have been replied to. Nothing else is sent over a
connection while a request is open on it. A dApp is connected again only after the requests of its
id have been replied to and its connection is gone. A reply is sent when the requests before its
own have been replied to. And no request is presented again after it was dismissed. -/
def InStep (E : Env) (s : State) : Action → Prop
  | .manager (.receive object model) =>
    ∀ c ∈ s.manager.connections.find? fun c => c.object = object,
      (requestOf E.json s.manager.arrived object c.data model).isSome = true →
        model.id = c.clientLastEventId + (unansweredOn s.manager s.log object).length
  | .manager (.sendApproveRequest object) => unansweredOn s.manager s.log object = []
  | .manager (.initTonConnection data) =>
    (∀ c ∈ s.manager.connections.eraseP fun c => c.data.manifest = data.manifest,
      c.data.id ≠ data.id) ∧ ∀ r ∈ unanswered s.manager s.log, r.data.id ≠ data.id
  | .present i => ∀ r ∈ s.manager.pending[i]?, .dismissed r ∉ s.log
  | .reject i => ∀ r ∈ s.rejectJobs[i]?,
      (s.manager.getTonConnectionWithData r.data).isSome = true →
        ∀ q ∈ unansweredOn s.manager s.log r.connection, r.arrival ≤ q.arrival
  | _ => True

instance (E : Env) (s : State) : ∀ a, Decidable (InStep E s a)
  | .manager (.receive _ _) | .manager (.sendApproveRequest _) | .manager (.initTonConnection _)
  | .present _ | .reject _ => by
    dsimp only [InStep]
    infer_instance
  | .world _ | .manager (.deleteApp _) | .screen _ | .compose _ | .pressConfirm _ | .dispose _
  | .clear _ | .dismiss | .openLock _ | .unlock _ _ | .closeLock _ | .takeOther | .confirm _ _
  | .fee _ _ => isTrue trivial

/-- The transfer is not reported to have succeeded. -/
def Unsuccessful : Action → Prop
  | .confirm _ a => a ≠ .querySend true
  | _ => True

instance : ∀ a, Decidable (Unsuccessful a)
  | .confirm _ a => inferInstanceAs (Decidable (a ≠ .querySend true))
  | .world _ | .manager _ | .screen _ | .present _ | .compose _ | .pressConfirm _ | .dispose _
  | .clear _ | .dismiss | .openLock _ | .unlock _ _ | .closeLock _ | .takeOther | .fee _ _
  | .reject _ => isTrue trivial

/-! ## The invariant -/

/-- The dismissals pay for the replies, sent and to be sent. -/
structure Accounted (m : Manager) (current : Option Request) (rejects : List Request)
    (log : List Obs) : Prop where
  numbered : Numbered m log
  fresh : ∀ r ∈ current, r ∈ m.requests ∧ .dismissed r ∉ log
  known : ∀ r ∈ rejects, r ∈ m.requests
  own : ∀ r connection reply, .replied r connection reply ∈ log →
    connection = r.connection ∧ reply.id = r.id
  errors : ∀ r connection reply, .replied r connection reply ∈ log → reply.error ≠ none
  paid : ∀ r, rejects.count r + log.countP (Obs.repliesTo r) ≤ if .dismissed r ∈ log then 1 else 0
  succeeded : ∀ r, .succeeded r ∉ log

/-- The invariant of the states. -/
def State.Accounted (s : State) : Prop :=
  Transfer.Accounted s.manager s.screen.transferRequest s.rejectJobs s.log

namespace Accounted

variable {m m' : Manager} {current : Option Request} {rejects : List Request} {log : List Obs}

theorem correlated (h : Accounted m current rejects log) : Correlated log where
  own := h.own
  once r := by
    have hp := h.paid r
    split_ifs at hp <;> omega
  result r hr := absurd hr (h.succeeded r)

/-- A request that is still to be declined has not been replied to. -/
theorem mem_unanswered_of_reject (h : Accounted m current rejects log) {r : Request}
    (hr : r ∈ rejects) : r ∈ unanswered m log := by
  refine mem_unanswered.mpr ⟨h.known r hr, fun connection reply hrep => ?_⟩
  have hcount : 0 < rejects.count r := List.count_pos_iff.mpr hr
  have hreplied : 0 < log.countP (Obs.repliesTo r) :=
    List.countP_pos_iff.mpr ⟨_, hrep, repliesTo_iff.mpr ⟨connection, reply, rfl⟩⟩
  have hp := h.paid r
  split_ifs at hp <;> omega

/-- An event that is no dismissal, no reply and no success. -/
theorem record (h : Accounted m current rejects log) {e : Obs} (hd : ∀ r, e ≠ .dismissed r)
    (hr : ∀ r connection reply, e ≠ .replied r connection reply) (hs : ∀ r, e ≠ .succeeded r) :
    Accounted m current rejects (e :: log) := by
  have hold : ∀ r connection reply, .replied r connection reply ∈ e :: log →
      .replied r connection reply ∈ log := by
    intro r connection reply hm
    rcases List.mem_cons.mp hm with he | hm
    · exact absurd he.symm (hr r connection reply)
    · exact hm
  have hiff : ∀ r, .dismissed r ∈ e :: log ↔ .dismissed r ∈ log := by
    intro r
    rw [List.mem_cons]
    exact or_iff_right fun he => hd r he.symm
  refine ⟨h.numbered.record hr, fun r hc => ?_, h.known,
    fun r c p hm => h.own r c p (hold r c p hm), fun r c p hm => h.errors r c p (hold r c p hm),
    fun r => ?_, fun r hm => ?_⟩
  · rw [hiff]
    exact h.fresh r hc
  · have hno : Obs.repliesTo r e = false := by
      refine Bool.eq_false_iff.mpr fun hrep => ?_
      obtain ⟨connection, reply, rfl⟩ := repliesTo_iff.mp hrep
      exact hr _ _ _ rfl
    rw [List.countP_cons_of_neg (by simp [hno])]
    simp only [hiff]
    exact h.paid r
  · rcases List.mem_cons.mp hm with he | hm
    · exact hs r he.symm
    · exact h.succeeded r hm

/-- The manager goes on, and forgets no request. -/
theorem setManager (h : Accounted m current rejects log) (hm : Numbered m' log)
    (hsub : ∀ r ∈ m.requests, r ∈ m'.requests) : Accounted m' current rejects log :=
  ⟨hm, fun r hr => (h.fresh r hr).imp_left (hsub r), fun r hr => hsub r (h.known r hr), h.own,
    h.errors, h.paid, h.succeeded⟩

/-- A request is presented that was not dismissed. -/
theorem present (h : Accounted m current rejects log) {next : Option Request}
    (hnext : ∀ r ∈ next, r ∈ m.requests ∧ .dismissed r ∉ log) : Accounted m next rejects log :=
  ⟨h.numbered, hnext, h.known, h.own, h.errors, h.paid, h.succeeded⟩

/-- A request is dismissed for the first time. -/
theorem dismiss {r : Request} (h : Accounted m (some r) rejects log) :
    Accounted m none (rejects ++ [r]) (.dismissed r :: log) where
  numbered := h.numbered.record (by simp)
  fresh q hq := by cases hq
  known := Jobs.launch h.known (h.fresh r rfl).1
  own q connection reply hm := by
    rcases List.mem_cons.mp hm with he | hm
    · cases he
    · exact h.own q connection reply hm
  errors q connection reply hm := by
    rcases List.mem_cons.mp hm with he | hm
    · cases he
    · exact h.errors q connection reply hm
  paid q := by
    have hp := h.paid q
    rw [List.count_append, List.countP_cons_of_neg (by simp [Obs.repliesTo])]
    by_cases hq : q = r
    · subst hq
      rw [if_neg (h.fresh q rfl).2] at hp
      rw [if_pos (List.mem_cons_self ..), List.count_singleton_self]
      omega
    · have hiff : .dismissed q ∈ .dismissed r :: log ↔ .dismissed q ∈ log := by simp [hq]
      have hcount : [r].count q = 0 := by simp [Ne.symm hq]
      simp only [hiff, hcount]
      omega
  succeeded q hm := by
    rcases List.mem_cons.mp hm with he | hm
    · cases he
    · exact h.succeeded q hm

/-- A dismissed request is not replied to. -/
theorem drop (h : Accounted m current rejects log) {i : ℕ} {r : Request}
    (hr : rejects[i]? = some r) : Accounted m current (rejects.eraseIdx i) log where
  numbered := h.numbered
  fresh := h.fresh
  known := Jobs.finish h.known i
  own := h.own
  errors := h.errors
  paid q := by
    have hp := h.paid q
    rw [Jobs.count_finish hr q] at hp
    omega
  succeeded := h.succeeded

/-- A dismissed request is replied to, when no request before it is open. -/
theorem reply (h : Accounted m current rejects log) {i : ℕ} {r : Request} {c : Connection}
    (hr : rejects[i]? = some r) (hc : m.getTonConnectionWithData r.data = some c)
    (hfirst : ∀ q ∈ unansweredOn m log r.connection, r.arrival ≤ q.arrival) :
    Accounted (m.count c.object) current (rejects.eraseIdx i)
      (.replied r c.object c.rejectTransferRequest :: log) := by
  obtain ⟨hobject, hid, hnumbered⟩ :=
    h.numbered.reply (h.mem_unanswered_of_reject (List.mem_of_getElem? hr)) hfirst hc
  have hiff : ∀ q, .dismissed q ∈ .replied r c.object c.rejectTransferRequest :: log ↔
      .dismissed q ∈ log := fun q => by simp
  refine ⟨hnumbered, fun q hq => ?_, Jobs.finish h.known i, fun q o p hm => ?_, fun q o p hm => ?_,
    fun q => ?_, fun q hm => ?_⟩
  · rw [hiff]
    exact h.fresh q hq
  · rcases List.mem_cons.mp hm with he | hm
    · obtain ⟨rfl, rfl, rfl⟩ := Obs.replied.inj he
      exact ⟨hobject, hid⟩
    · exact h.own q o p hm
  · rcases List.mem_cons.mp hm with he | hm
    · obtain ⟨-, -, rfl⟩ := Obs.replied.inj he
      exact nofun
    · exact h.errors q o p hm
  · have hp := h.paid q
    rw [Jobs.count_finish hr q] at hp
    rw [List.countP_cons]
    simp only [hiff, Obs.repliesTo, decide_eq_true_eq]
    omega
  · rcases List.mem_cons.mp hm with he | hm
    · cases he
    · exact h.succeeded q hm

end Accounted

/-! ## Steps -/

namespace State.Accounted

variable {E : Env} {s t : State}

theorem manager (h : s.Accounted) {a : ManagerAction} (hc : InStep E s (.manager a))
    {m : Manager} (hm : s.manager.step E.json a = some m) :
    State.Accounted { s with manager := m } := by
  have hn := h.numbered
  cases a with
  | receive object model =>
    obtain ⟨c, hfind, rfl⟩ := Option.map_eq_some_iff.mp hm
    split
    · rename_i r hr
      exact h.setManager (hn.receive hfind hr (hc c hfind (by rw [hr]; rfl)))
        fun q hq => List.mem_append_left _ hq
    · exact h
  | initTonConnection data =>
    cases hm
    exact h.setManager (hn.initTonConnection hc.1 hc.2) fun q hq => hq
  | sendApproveRequest object =>
    cases hm
    exact h.setManager (hn.count hc) fun q hq => hq
  | deleteApp data =>
    cases hm
    exact h.setManager hn.deleteApp fun q hq => hq

theorem present (h : s.Accounted) {i : ℕ} (hc : InStep E s (.present i))
    (hs : s.present i = some t) : t.Accounted := by
  obtain ⟨r, hr, rfl⟩ := Option.map_eq_some_iff.mp hs
  have herase := h.setManager (h.numbered.present i) fun q hq => hq
  refine Transfer.Accounted.present herase fun q hq => ?_
  have hq : q ∈ if s.screen.transferRequest.map Request.event = some r.event
      then s.screen.transferRequest else some r := hq
  split at hq
  · exact h.fresh q hq
  · obtain rfl := Option.some.inj hq
    exact ⟨h.numbered.pending _ (List.mem_of_getElem? hr), hc _ hr⟩

theorem pressConfirm (h : s.Accounted) {o : ℕ} (hs : s.pressConfirm o = some t) :
    t.Accounted := by
  obtain ⟨vm, -, rfl | ⟨-, ⟨-, rfl⟩ | ⟨-, rfl⟩⟩⟩ := pressConfirm_cases hs
  · exact h
  · exact h.record (by simp) (by simp) (by simp)
  · exact h.record (by simp) (by simp) (by simp)

theorem compose (h : s.Accounted) {o : ℕ} (hs : s.compose o = some t) : t.Accounted := by
  obtain ⟨r, vm, -, -, ⟨-, rfl⟩ | ⟨p, -, rfl⟩⟩ := compose_cases hs
  · exact h
  · exact h

theorem confirm (h : s.Accounted) {i : ℕ} {a : ConfirmAction} (hc : a ≠ .querySend true)
    (hs : s.confirm E i a = some t) : t.Accounted := by
  obtain ⟨j, -, hstep⟩ := confirm_cases hs
  cases hstep with
  | takeKey => exact h
  | getAddress => exact h
  | sendTon => exact h.record (by simp) (by simp) (by simp)
  | submit => exact h.record (by simp) (by simp) (by simp)
  | succeed => exact absurd rfl hc
  | fail => exact h

theorem fee (h : s.Accounted) {i : ℕ} {a : FeeAction} (hs : s.fee E i a = some t) :
    t.Accounted := by
  obtain ⟨j, vm, -, -, hstep⟩ := fee_cases hs
  cases hstep with
  | invalid => exact h
  | estimate => exact h.record (by simp) (by simp) (by simp)
  | reply => exact h

theorem unlock (h : s.Accounted) {i : ℕ} {u : Unlock} (hs : s.unlock i u = some t) :
    t.Accounted := by
  obtain ⟨p, -, rfl⟩ := Option.map_eq_some_iff.mp hs
  cases u with
  | passcode => exact h.record (by simp) (by simp) (by simp)
  | biometric => exact h.record (by simp) (by simp) (by simp)
  | wrongPasscode => exact h

theorem dismiss (h : s.Accounted) : s.dismiss.Accounted := by
  unfold State.dismiss
  cases hr : s.screen.transferRequest with
  | some r =>
    have h : Transfer.Accounted s.manager (some r) s.rejectJobs s.log := hr ▸ h
    exact h.dismiss
  | none => exact Transfer.Accounted.present h fun q hq => by cases hq

theorem reject (h : s.Accounted) {i : ℕ} (hc : InStep E s (.reject i))
    (hs : s.reject i = some t) : t.Accounted := by
  obtain ⟨r, hr, rfl⟩ := Option.map_eq_some_iff.mp hs
  dsimp only
  split
  · rename_i c hfound
    exact h.reply hr hfound (hc r hr (by rw [hfound]; rfl))
  · exact h.drop hr

theorem step (h : s.Accounted) {a : Action} (hc : InStep E s a) (hu : Unsuccessful a)
    (hs : step E s a = some t) : t.Accounted := by
  cases a with
  | world a => cases hs; exact h
  | manager a =>
    obtain ⟨m, hm, rfl⟩ := Option.map_eq_some_iff.mp hs
    exact h.manager hc hm
  | screen a =>
    cases hs
    cases a <;> exact h
  | present i => exact h.present hc hs
  | compose o => exact h.compose hs
  | pressConfirm o => exact h.pressConfirm hs
  | dispose o => cases hs; exact h
  | clear o => cases hs; exact h
  | dismiss => cases hs; exact h.dismiss
  | openLock occasion => cases hs; exact h
  | closeLock i => cases hs; exact h
  | unlock i u => exact h.unlock hs
  | takeOther => cases hs; exact h
  | confirm i a => exact h.confirm hu hs
  | fee i a => exact h.fee hs
  | reject i => exact h.reject hc hs

/-- A success calls for a result, and all replies are errors. -/
theorem not_correlated (h : s.Accounted) {a : Action} (hu : ¬ Unsuccessful a)
    (hs : Transfer.step E s a = some t) : ¬ Correlated t.log := by
  intro hc
  cases a with
  | confirm i a =>
    obtain rfl : a = .querySend true := not_not.mp hu
    obtain ⟨j, -, hstep⟩ := confirm_cases hs
    cases hstep with
    | succeed hstage =>
      obtain ⟨connection, reply, hrep, herror⟩ := hc.result j.request List.mem_cons_self
      rcases List.mem_cons.mp hrep with he | hrep
      · cases he
      · exact h.errors _ _ _ hrep herror
    | fail ha => exact ha rfl
  | _ => exact hu trivial

end State.Accounted

theorem accounted_start (world : World) : (start world).Accounted where
  numbered := Numbered.start
  fresh r hr := by cases hr
  known r hr := by cases hr
  own r connection reply hr := by cases hr
  errors r connection reply hr := by cases hr
  paid r := by simp [start]
  succeeded r hr := by cases hr

/-- Another dApp. -/
def otherData : TonConnectConnectionData :=
  { sampleData with
    manifest := { sampleData.manifest with url := text "https://other" }
    id := text "0b" }

/-- A reply with another id than that of its request. -/
def Obs.misnumbered : Obs → Bool
  | .replied r _ reply => reply.id ≠ r.id
  | _ => false

theorem not_correlated_of_misnumbered {log : List Obs} (h : log.any Obs.misnumbered = true) :
    ¬ Correlated log := by
  obtain ⟨e, hmem, he⟩ := List.any_eq_true.mp h
  unfold Obs.misnumbered at he
  split at he
  · intro hc
    exact absurd (hc.own _ _ _ hmem).2 (of_decide_eq_true he)
  · cases he

end TonWallet.Transfer
