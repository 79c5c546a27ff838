import Mathlib.Data.List.Nodup
import TonWallet.Transfer.Steps

/-!
# The numbers of requests and replies

The counter of a connection numbers the replies it sends. It stands at the id of
the first request that has not been replied to as long as the dApp numbers its
requests one by one from there, and nothing else is sent while one is open.

* `Numbered`: the connections are told apart, and their counters stand at the ids
  of the requests that are open on them.
* `Numbered.reply`: the reply to the first open request has its id.
-/

namespace TonWallet.Transfer

open Encoding Storage TonConnect

/-! ## Open requests -/

/-- A reply to the request. -/
def Obs.repliesTo (r : Request) : Obs → Bool
  | .replied q _ _ => q = r
  | _ => false

/-- The requests that have not been replied to, in the order of their arrival. -/
def unanswered (m : Manager) (log : List Obs) : List Request :=
  m.requests.filter fun r => ¬ log.any (Obs.repliesTo r)

/-- Those that arrived on a connection. -/
def unansweredOn (m : Manager) (log : List Obs) (object : ℕ) : List Request :=
  (unanswered m log).filter fun r => r.connection = object

/-- The requests have consecutive ids, from `n` on. -/
def Consecutive (n : ℤ) : List Request → Prop
  | [] => True
  | r :: l => r.id = n ∧ Consecutive (n + 1) l

/-- The connections, and the requests they have received. -/
structure Received (m : Manager) (log : List Obs) : Prop where
  objects : ∀ c ∈ m.connections, c.object < m.created
  distinct : (m.connections.map Connection.object).Nodup
  ids : (m.connections.map fun c => c.data.id).Nodup
  sorted : m.requests.Pairwise fun q r => q.arrival < r.arrival
  arrivals : ∀ r ∈ m.requests, r.arrival < m.arrived ∧ r.connection < m.created
  pending : ∀ r ∈ m.pending, r ∈ m.requests
  replay : ∀ i, ∀ r ∈ m.replay i, r ∈ m.requests
  replied : ∀ r connection reply, .replied r connection reply ∈ log → r ∈ m.requests
  /-- A connection with the id of the dApp of an open request is the one it has come in on. -/
  own : ∀ r ∈ unanswered m log, ∀ c ∈ m.connections, c.data.id = r.data.id →
    c.object = r.connection

/-- The open requests have the ids that the counter of their connection is going to have. -/
structure Numbered (m : Manager) (log : List Obs) : Prop extends Received m log where
  numbers : ∀ c ∈ m.connections,
    Consecutive c.clientLastEventId (unansweredOn m log c.object)

variable {m : Manager} {log : List Obs} {r : Request} {e : Obs} {d : TonConnectConnectionData}
  {object : ℕ}

theorem consecutive_append {n : ℤ} {l : List Request} (h : Consecutive n l)
    (hr : r.id = n + l.length) : Consecutive n (l ++ [r]) := by
  induction l generalizing n with
  | nil => exact ⟨by simpa using hr, trivial⟩
  | cons q l ih =>
    refine ⟨h.1, ih h.2 ?_⟩
    rw [hr, List.length_cons]
    push_cast
    ring

theorem repliesTo_iff :
    e.repliesTo r = true ↔ ∃ connection reply, e = .replied r connection reply := by
  unfold Obs.repliesTo
  split
  · simp
  · rename_i hno
    simp only [Bool.false_eq_true, false_iff]
    rintro ⟨connection, reply, rfl⟩
    exact hno r connection reply rfl

theorem mem_unanswered : r ∈ unanswered m log ↔
    r ∈ m.requests ∧ ∀ connection reply, .replied r connection reply ∉ log := by
  have hany : log.any (Obs.repliesTo r) = true ↔
      ∃ connection reply, .replied r connection reply ∈ log := by
    rw [List.any_eq_true]
    constructor
    · rintro ⟨e, he, h⟩
      obtain ⟨connection, reply, rfl⟩ := repliesTo_iff.mp h
      exact ⟨connection, reply, he⟩
    · rintro ⟨connection, reply, he⟩
      exact ⟨_, he, repliesTo_iff.mpr ⟨connection, reply, rfl⟩⟩
  rw [unanswered, List.mem_filter, decide_eq_true_iff, hany]
  push Not
  rfl

theorem mem_unansweredOn : r ∈ unansweredOn m log object ↔
    r ∈ unanswered m log ∧ r.connection = object := by
  rw [unansweredOn, List.mem_filter, decide_eq_true_iff]

/-- Nothing but a reply changes what is open. -/
theorem unanswered_record (he : ∀ r connection reply, e ≠ .replied r connection reply) :
    unanswered m (e :: log) = unanswered m log := by
  unfold unanswered
  congr 1
  funext r
  have hno : e.repliesTo r = false :=
    Bool.eq_false_iff.mpr fun h => by
      obtain ⟨connection, reply, rfl⟩ := repliesTo_iff.mp h
      exact he _ _ _ rfl
  rw [List.any_cons, hno, Bool.false_or]

theorem unanswered_reply (connection : ℕ) (reply : Reply) :
    unanswered m (.replied r connection reply :: log)
      = (unanswered m log).filter fun q => q ≠ r := by
  unfold unanswered
  rw [List.filter_filter]
  congr 1
  funext q
  by_cases hq : q = r
  · simp [Obs.repliesTo, hq]
  · simp [Obs.repliesTo, hq, Ne.symm hq]

theorem unansweredOn_reply (connection : ℕ) (reply : Reply) :
    unansweredOn m (.replied r connection reply :: log) object
      = (unansweredOn m log object).filter fun q => q ≠ r := by
  unfold unansweredOn
  rw [unanswered_reply, List.filter_filter, List.filter_filter]
  congr 1
  funext q
  exact Bool.and_comm _ _

namespace Received

/-- The connections that stay, or are counted, keep their objects and their data. -/
theorem setConnections (h : Received m log) {connections : List Connection}
    (hsub : (connections.map fun c => (c.object, c.data)).Sublist
      (m.connections.map fun c => (c.object, c.data))) :
    Received { m with connections := connections } log := by
  have hold : ∀ c ∈ connections, ∃ c' ∈ m.connections, c'.object = c.object ∧ c'.data = c.data := by
    intro c hc
    obtain ⟨c', hc', he⟩ := List.mem_map.mp (hsub.subset (List.mem_map_of_mem hc))
    exact ⟨c', hc', (Prod.mk.inj he).1, (Prod.mk.inj he).2⟩
  refine ⟨fun c hc => ?_, ?_, ?_, h.sorted, h.arrivals, h.pending, h.replay, h.replied,
    fun r hr c hc hid => ?_⟩
  · obtain ⟨c', hc', ho, -⟩ := hold c hc
    exact ho ▸ h.objects c' hc'
  · have hmap := hsub.map Prod.fst
    rw [List.map_map, List.map_map] at hmap
    exact hmap.nodup h.distinct
  · have hmap := hsub.map fun p : ℕ × TonConnectConnectionData => p.2.id
    rw [List.map_map, List.map_map] at hmap
    exact hmap.nodup h.ids
  · obtain ⟨c', hc', ho, hd⟩ := hold c hc
    rw [← ho]
    exact h.own r hr c' hc' (by rw [hd, hid])

theorem count (h : Received m log) (object : ℕ) : Received (m.count object) log := by
  refine h.setConnections ?_
  rw [List.map_map]
  have hsame : (m.connections.map fun c => (c.object, c.data)) = m.connections.map
      ((fun c => (c.object, c.data)) ∘ fun c => if c.object = object then
        { c with clientLastEventId := c.clientLastEventId + 1 } else c) := by
    refine List.map_congr_left fun c _ => ?_
    dsimp only [Function.comp_apply]
    split <;> rfl
  exact hsame ▸ List.Sublist.refl _

/-- What is open does not grow with the history, and replies are to known requests. -/
theorem record (h : Received m log)
    (he : ∀ r connection reply, e = .replied r connection reply → r ∈ m.requests) :
    Received m (e :: log) := by
  refine ⟨h.objects, h.distinct, h.ids, h.sorted, h.arrivals, h.pending, h.replay,
    fun r c p hr => ?_, fun r hr => h.own r ?_⟩
  · rcases List.mem_cons.mp hr with hr | hr
    · exact he r c p hr.symm
    · exact h.replied r c p hr
  · obtain ⟨hmem, hno⟩ := mem_unanswered.mp hr
    exact mem_unanswered.mpr ⟨hmem, fun c p hrep => hno c p (List.mem_cons_of_mem e hrep)⟩

/-- The first request that is open on a connection. -/
theorem unansweredOn_eq_cons (h : Received m log) (hr : r ∈ unansweredOn m log object)
    (hfirst : ∀ q ∈ unansweredOn m log object, r.arrival ≤ q.arrival) :
    ∃ rest, unansweredOn m log object = r :: rest ∧ ∀ q ∈ rest, q ≠ r := by
  have hsorted : (unansweredOn m log object).Pairwise fun q r => q.arrival < r.arrival :=
    (h.sorted.filter _).filter _
  cases hopen : unansweredOn m log object with
  | nil =>
    rw [hopen] at hr
    exact absurd hr List.not_mem_nil
  | cons q rest =>
    rw [hopen] at hr hfirst hsorted
    obtain ⟨hlt, -⟩ := List.pairwise_cons.mp hsorted
    rcases List.mem_cons.mp hr with rfl | hr
    · refine ⟨rest, rfl, ?_⟩
      rintro q hq rfl
      exact (hlt q hq).false
    · exact absurd (hfirst q List.mem_cons_self) (hlt r hr).not_ge

end Received

namespace Numbered

theorem start : Numbered {} [] := by
  refine ⟨⟨?_, List.nodup_nil, List.nodup_nil, List.Pairwise.nil, ?_, ?_, ?_, ?_, ?_⟩, ?_⟩
  · exact fun c hc => absurd hc List.not_mem_nil
  · exact fun r hr => absurd hr List.not_mem_nil
  · exact fun r hr => absurd hr List.not_mem_nil
  · rintro i r ⟨⟩
  · exact fun r _ _ hr => absurd hr List.not_mem_nil
  · exact fun r hr => absurd hr List.not_mem_nil
  · exact fun c hc => absurd hc List.not_mem_nil

/-- An event that is no reply. -/
theorem record (h : Numbered m log) (he : ∀ r connection reply, e ≠ .replied r connection reply) :
    Numbered m (e :: log) := by
  refine ⟨h.toReceived.record fun r c p hr => absurd hr (he r c p), ?_⟩
  unfold unansweredOn
  rw [unanswered_record he]
  exact h.numbers

/-- Something else is sent while no request is open. -/
theorem count (h : Numbered m log) (hopen : unansweredOn m log object = []) :
    Numbered (m.count object) log := by
  refine ⟨h.toReceived.count object, fun c hc => ?_⟩
  obtain ⟨c', hc', rfl⟩ := List.mem_map.mp hc
  by_cases ho : c'.object = object
  · rw [if_pos ho]
    show Consecutive (c'.clientLastEventId + 1) (unansweredOn m log c'.object)
    rw [ho, hopen]
    trivial
  · rw [if_neg ho]
    exact h.numbers c' hc'

theorem deleteApp (h : Numbered m log) : Numbered (m.deleteApp d) log :=
  ⟨h.toReceived.setConnections ((List.eraseP_sublist ..).map _),
    fun c hc => h.numbers c (List.mem_of_mem_eraseP hc)⟩

/-- An event is delivered. -/
theorem present (h : Numbered m log) (i : ℕ) :
    Numbered { m with pending := m.pending.eraseIdx i } log :=
  ⟨⟨h.objects, h.distinct, h.ids, h.sorted, h.arrivals,
    fun r hr => h.pending r (List.mem_of_mem_eraseIdx hr), h.replay, h.replied, h.own⟩, h.numbers⟩

/-- A connection of another dApp than those of the other connections, and of the open requests. -/
theorem initTonConnection (h : Numbered m log)
    (hnew : ∀ c ∈ m.connections.eraseP (fun c => c.data.manifest = d.manifest), c.data.id ≠ d.id)
    (hopen : ∀ r ∈ unanswered m log, r.data.id ≠ d.id) :
    Numbered (m.initTonConnection d) log := by
  have hdel := h.deleteApp (d := d)
  have hnone : unansweredOn m log m.created = [] := by
    refine List.filter_eq_nil_iff.mpr fun r hr => ?_
    have hlt := (h.arrivals r (mem_unanswered.mp hr).1).2
    simpa using hlt.ne
  refine ⟨⟨List.forall_mem_append.mpr ⟨fun c hc => ?_, ?_⟩, ?_, ?_, h.sorted, fun r hr => ?_,
    fun r hr => ?_, h.replay, h.replied, fun r hr => List.forall_mem_append.mpr ⟨?_, ?_⟩⟩,
    List.forall_mem_append.mpr ⟨hdel.numbers, ?_⟩⟩
  · exact (hdel.objects c hc).trans (Nat.lt_succ_self _)
  · exact List.forall_mem_singleton.mpr (Nat.lt_succ_self _)
  · show (List.map Connection.object (_ ++ _)).Nodup
    rw [List.map_append]
    refine List.nodup_append.mpr ⟨hdel.distinct, List.nodup_singleton _, ?_⟩
    rintro _ ho _ hc rfl
    obtain ⟨c, hmem, ho⟩ := List.mem_map.mp ho
    rw [← ho] at hc
    exact (hdel.objects c hmem).ne (List.mem_singleton.mp hc)
  · show (List.map (fun c : Connection => c.data.id) (_ ++ _)).Nodup
    rw [List.map_append]
    refine List.nodup_append.mpr ⟨hdel.ids, List.nodup_singleton _, ?_⟩
    rintro _ hid _ hc rfl
    obtain ⟨c, hmem, hid⟩ := List.mem_map.mp hid
    exact hnew c hmem (hid.trans (List.mem_singleton.mp hc))
  · exact ⟨(h.arrivals r hr).1, (h.arrivals r hr).2.trans (Nat.lt_succ_self _)⟩
  · obtain ⟨i, -, hi⟩ := List.mem_filterMap.mp hr
    exact h.replay i r hi
  · exact hdel.own r hr
  · exact List.forall_mem_singleton.mpr fun hid => absurd hid.symm (hopen r hr)
  · refine List.forall_mem_singleton.mpr ?_
    show Consecutive 1 (unansweredOn m log m.created)
    rw [hnone]
    trivial

/-- A request arrives with the next number. -/
theorem receive {J : Json} {model : TonConnectMethodResponse} {c : Connection}
    (h : Numbered m log) (hc : m.connections.find? (fun c => c.object = object) = some c)
    (hr : requestOf J m.arrived object c.data model = some r)
    (hid : model.id = c.clientLastEventId + (unansweredOn m log object).length) :
    Numbered { m with
      arrived := m.arrived + 1
      requests := m.requests ++ [r]
      replay := Function.update m.replay object (some r)
      pending := m.pending ++ [r] } log := by
  obtain ⟨harrival, hconnection, hdata, hmodel⟩ := requestOf_eq_some hr
  have hmem := List.mem_of_find?_eq_some hc
  have hobject : c.object = object := by simpa using List.find?_some hc
  have hnew : r ∉ m.requests := fun hold => (h.arrivals r hold).1.ne harrival
  have hopen : unanswered { m with
      arrived := m.arrived + 1
      requests := m.requests ++ [r]
      replay := Function.update m.replay object (some r)
      pending := m.pending ++ [r] } log = unanswered m log ++ [r] := by
    have hkeep : log.any (Obs.repliesTo r) = false := by
      refine Bool.eq_false_iff.mpr fun hany => ?_
      obtain ⟨e, he, hrep⟩ := List.any_eq_true.mp hany
      obtain ⟨connection, reply, rfl⟩ := repliesTo_iff.mp hrep
      exact hnew (h.replied r connection reply he)
    unfold unanswered
    rw [List.filter_append, List.filter_singleton, hkeep]
    rfl
  refine ⟨⟨h.objects, h.distinct, h.ids, ?_, ?_, ?_, fun i q hq => ?_, fun q o p hq => ?_, ?_⟩,
    fun c' hc' => ?_⟩
  · refine List.pairwise_append.mpr ⟨h.sorted, List.pairwise_singleton _ _, fun q hq q' hq' => ?_⟩
    rw [List.mem_singleton.mp hq', harrival]
    exact (h.arrivals q hq).1
  · refine List.forall_mem_append.mpr ⟨fun q hq => ?_, List.forall_mem_singleton.mpr ⟨?_, ?_⟩⟩
    · exact ⟨(h.arrivals q hq).1.trans (Nat.lt_succ_self _), (h.arrivals q hq).2⟩
    · exact harrival ▸ Nat.lt_succ_self _
    · rw [hconnection, ← hobject]
      exact h.objects c hmem
  · exact List.forall_mem_append.mpr ⟨fun q hq => List.mem_append_left _ (h.pending q hq),
      List.forall_mem_singleton.mpr (List.mem_append_right _ (List.mem_singleton_self r))⟩
  · by_cases hi : i = object
    · rw [hi] at hq
      dsimp only at hq
      rw [Function.update_self] at hq
      obtain rfl := Option.some.inj hq
      exact List.mem_append_right _ (List.mem_singleton_self _)
    · dsimp only at hq
      rw [Function.update_of_ne hi] at hq
      exact List.mem_append_left _ (h.replay i q hq)
  · exact List.mem_append_left _ (h.replied q o p hq)
  · rw [hopen]
    refine List.forall_mem_append.mpr ⟨h.own, List.forall_mem_singleton.mpr fun c' hc' hid' => ?_⟩
    rw [hdata] at hid'
    rw [List.inj_on_of_nodup_map h.ids hc' hmem hid', hobject, hconnection]
  · unfold unansweredOn
    rw [hopen, List.filter_append, List.filter_singleton]
    have hold := h.numbers c' hc'
    by_cases hco : c'.object = object
    · obtain rfl := List.inj_on_of_nodup_map h.distinct hc' hmem (hco.trans hobject.symm)
      rw [decide_eq_true (hconnection.trans hco.symm)]
      refine consecutive_append hold ?_
      rw [hmodel, hid, hobject]
      rfl
    · rw [decide_eq_false fun hrc => hco (hrc.symm.trans hconnection), cond_false, List.append_nil]
      exact hold

/-- The first open request is replied to, over the connection with the id of its dApp. -/
theorem reply {c : Connection} (h : Numbered m log) (hr : r ∈ unanswered m log)
    (hfirst : ∀ q ∈ unansweredOn m log r.connection, r.arrival ≤ q.arrival)
    (hc : m.getTonConnectionWithData r.data = some c) :
    c.object = r.connection ∧ c.clientLastEventId = r.id ∧
      Numbered (m.count c.object)
        (.replied r c.object c.rejectTransferRequest :: log) := by
  have hmem := List.mem_of_find?_eq_some hc
  have hid : c.data.id = r.data.id := by simpa using List.find?_some hc
  have hobject := h.own r hr c hmem hid
  obtain ⟨rest, hopen, hrest⟩ :=
    h.unansweredOn_eq_cons (mem_unansweredOn.mpr ⟨hr, rfl⟩) hfirst
  have hnumbers := h.numbers c hmem
  rw [hobject, hopen] at hnumbers
  have hrecord := h.toReceived.record (e := .replied r c.object c.rejectTransferRequest)
    fun q o p he => (Obs.replied.inj he).1 ▸ (mem_unanswered.mp hr).1
  refine ⟨hobject, hnumbers.1.symm, hrecord.count c.object, fun c' hc' => ?_⟩
  obtain ⟨c₀, hc₀, rfl⟩ := List.mem_map.mp hc'
  by_cases ho : c₀.object = c.object
  · -- The counter and the open requests of the connection go on together.
    obtain rfl := List.inj_on_of_nodup_map h.distinct hc₀ hmem ho
    rw [if_pos rfl]
    show Consecutive (c₀.clientLastEventId + 1) (unansweredOn m _ c₀.object)
    rw [unansweredOn_reply, hobject, hopen, List.filter_cons_of_neg (by simp),
      List.filter_eq_self.mpr fun q hq => decide_eq_true (hrest q hq)]
    exact hnumbers.2
  · rw [if_neg ho]
    show Consecutive c₀.clientLastEventId (unansweredOn m _ c₀.object)
    rw [unansweredOn_reply, List.filter_eq_self.mpr fun q hq => decide_eq_true ?_]
    · exact h.numbers c₀ hc₀
    · rintro rfl
      exact ho ((mem_unansweredOn.mp hq).2.symm.trans hobject.symm)

end Numbered

end TonWallet.Transfer
