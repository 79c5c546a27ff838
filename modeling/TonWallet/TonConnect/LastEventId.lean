import Mathlib.Data.List.Nodup
import TonWallet.Lib.Jobs
import TonWallet.Lib.Machine
import TonWallet.Lib.SharedFlow
import TonWallet.TonConnect.Event

/-!
# The last event id

`onEvent` launches the write of the id of an event before it decodes the event,
and does not look at what `tryEmit` returns. The launched writes run in any
order, each puts its own id into the storage, and a new process asks the bridge
for the events after the id that is stored.

* `last_event_id_iff`: the runs along which the stored id never decreases and
  never passes an event that was not processed.
* `skipped_event`: an event that is not processed, and not delivered again.
-/

namespace TonWallet.TonConnect

open Encoding Crypto

/-! ## The machine -/

/-- An event of the bridge, with a number for an id. -/
structure BridgeEvent where
  id : Text
  number : ℤ
  data : Text
  parsed : toLong id = some number
deriving DecidableEq, Repr

/-- A connection, its events on the bridge, and its id in the storage. -/
structure Feed where
  /-- All events for the connection, in the order of their ids. -/
  sent : List BridgeEvent := []
  /-- The id after which the bridge goes on. -/
  cursor : Option ℤ := none
  /-- The event source is open. -/
  listening : Bool := true
  /-- The event `onEvent` is at. -/
  current : Option BridgeEvent := none
  /-- The ids that are still to be written. -/
  jobs : List ℤ := []
  stored : Option ℤ := none
  /-- All ids that have been written, the last one first. -/
  written : List ℤ := []
  /-- The flow of the requests, `_events`. -/
  flow : SharedFlow TonConnectTransactionRequest := {}
  /-- The events that were decoded, and whose request, if any, the flow has taken. -/
  processed : List BridgeEvent := []
  /-- The events whose request the flow had no room for. -/
  refused : List BridgeEvent := []

inductive FeedAction where
  | send (event : BridgeEvent)
  /-- `onEvent` is called, and launches the write. -/
  | receive
  /-- `onEvent` goes on. -/
  | decode
  | write (i : ℕ)
  | collector (a : SharedFlow.CollectorAction)
  /-- The process stops, and is started again. -/
  | restart
deriving DecidableEq, Repr

namespace Feed

variable (S : Sodium) (J : Json) (d : TonConnectConnectionData)

/-- The bridge gets an event. -/
def send (s : Feed) (event : BridgeEvent) : Option Feed :=
  if ∀ e ∈ s.sent, e.number < event.number then some { s with sent := s.sent ++ [event] } else none

/-- The next event after the cursor is delivered (`TonConnectConnection.kt` lines 105–116). -/
def receive (s : Feed) : Option Feed :=
  if s.listening = true ∧ s.current = none then
    (s.sent.find? fun e => ∀ c ∈ s.cursor, c < e.number).map fun e =>
      { s with
        cursor := some e.number
        current := some e
        jobs := s.jobs ++ ((onEvent S J d (some e.id) e.data).saved.bind Prod.snd).toList }
  else none

/-- `_events.tryEmit` of the request of an event. -/
def tryEmit (s : Feed) (e : BridgeEvent) (request : TonConnectTransactionRequest) : Feed :=
  if s.flow.Accepts flowCapacity then
    { s with flow := s.flow.tryEmit flowCapacity request, processed := e :: s.processed }
  else { s with refused := e :: s.refused }

/-- The rest of `onEvent` (`TonConnectConnection.kt` lines 117–142). An exception ends the event
source. -/
def decode (s : Feed) : Option Feed :=
  s.current.map fun e =>
    let s := { s with current := none }
    match (onEvent S J d (some e.id) e.data).emitted with
    | .ok (some request) => s.tryEmit e request
    | .ok none => { s with processed := e :: s.processed }
    | .error _ => { s with listening := false }

/-- `saveTonConnectLastEventId` (`Storage.kt` lines 363–367). -/
def write (s : Feed) (i : ℕ) : Option Feed :=
  (s.jobs[i]?).map fun k =>
    { s with stored := some k, written := k :: s.written, jobs := s.jobs.eraseIdx i }

/-- The last event id in `eventsUrl` (`TonConnectConnection.kt` lines 63–67). -/
def urlCursor (lastEventId : ℤ) : Option ℤ := if lastEventId = -1 then none else some lastEventId

/-- A new process reads the stored id, and asks for the events after it. -/
def restart (s : Feed) : Feed :=
  { s with
    cursor := urlCursor (s.stored.getD (-1))
    listening := true
    current := none
    jobs := []
    flow := {} }

def step (s : Feed) : FeedAction → Option Feed
  | .send event => s.send event
  | .receive => s.receive S J d
  | .decode => s.decode S J d
  | .write i => s.write i
  | .collector a => (s.flow.act a).map fun flow => { s with flow := flow }
  | .restart => some s.restart

/-! ## What the stored id should say -/

/-- The stored id has never decreased, every event up to it was processed, and a new process is
sent every other one. -/
structure NeverSkips (s : Feed) : Prop where
  monotone : s.written.Pairwise fun k k' => k' ≤ k
  processed : ∀ k ∈ s.stored, ∀ e ∈ s.sent, e.number ≤ k → e ∈ s.processed
  redelivered : ∀ e ∈ s.sent, e ∈ s.processed ∨ ∀ c ∈ s.restart.cursor, c < e.number

/-- An id is written after all smaller ones, after its event has been processed, and while no
event up to it that was refused waits to be sent again. -/
def WritesProcessed (s : Feed) : FeedAction → Prop
  | .write i => ∀ k ∈ s.jobs[i]?, (∀ k' ∈ s.stored, k' ≤ k) ∧ (∃ e ∈ s.processed, e.number = k) ∧
      ∀ e ∈ s.refused, e.number ≤ k → e ∈ s.processed
  | _ => True

/-- The events are delivered in order, and no event is passed over within a process but those
that the flow refuses. -/
structure Inv (s : Feed) : Prop where
  sorted : s.sent.Pairwise fun e e' => e.number < e'.number
  subset : ∀ e ∈ s.processed, e ∈ s.sent
  refused : ∀ e ∈ s.refused, e ∈ s.sent
  current : ∀ e ∈ s.current, e ∈ s.sent ∧ s.cursor = some e.number
  passed : ∀ c ∈ s.cursor, ∀ e ∈ s.sent, e.number < c → e ∈ s.processed ∨ e ∈ s.refused
  reached : ∀ c ∈ s.cursor, ∀ e ∈ s.sent, e.number = c →
    (e ∈ s.processed ∨ e ∈ s.refused) ∨ s.current = some e ∨ s.listening = false
  cursor_sent : ∀ c ∈ s.cursor, ∃ e ∈ s.sent, e.number = c
  jobs_le : ∀ k ∈ s.jobs, ∃ c ∈ s.cursor, k ≤ c
  jobs_sent : ∀ k ∈ s.jobs, ∃ e ∈ s.sent, e.number = k
  stored_sent : ∀ k ∈ s.stored, ∃ e ∈ s.sent, e.number = k
  stored_written : ∀ k ∈ s.stored, k ∈ s.written
  written_le : ∀ k ∈ s.written, ∃ k' ∈ s.stored, k ≤ k'
  monotone : s.written.Pairwise fun k k' => k' ≤ k
  processed : ∀ k ∈ s.stored, ∀ e ∈ s.sent, e.number ≤ k → e ∈ s.processed

variable {S J d} {s t : Feed} {e : BridgeEvent}

/-- The id of the launched write is the one of the event. -/
theorem saved_eq : (onEvent S J d (some e.id) e.data).saved.bind Prod.snd = some e.number :=
  e.parsed

theorem Inv.eq_of_number {e' : BridgeEvent} (h : s.Inv) (he : e ∈ s.sent) (he' : e' ∈ s.sent)
    (hn : e.number = e'.number) : e = e' := by
  have hnodup : (s.sent.map BridgeEvent.number).Nodup :=
    List.pairwise_map.mpr (h.sorted.imp fun hlt => hlt.ne)
  exact List.inj_on_of_nodup_map hnodup he he' hn

theorem neverSkips_of_inv (h : s.Inv) : s.NeverSkips := by
  refine ⟨h.monotone, h.processed, fun e he => ?_⟩
  by_cases hp : e ∈ s.processed
  · exact .inl hp
  · refine .inr fun c hc => ?_
    cases hs : s.stored with
    | none =>
      rw [restart, hs] at hc
      cases hc
    | some k =>
      obtain rfl : c = k := by
        simp only [restart, hs, Option.getD_some, urlCursor] at hc
        split at hc
        · cases hc
        · exact (Option.some.inj hc).symm
      by_contra hle
      exact hp (h.processed c hs e he (not_lt.mp hle))

theorem inv_send (h : s.Inv) (hs : s.send e = some t) : t.Inv := by
  unfold send at hs
  split_ifs at hs with hnew
  obtain rfl := Option.some.inj hs
  have hmem : ∀ {p : BridgeEvent → Prop}, (∃ e ∈ s.sent, p e) → ∃ e' ∈ s.sent ++ [e], p e' :=
    fun ⟨e, he, hp⟩ => ⟨e, List.mem_append_left _ he, hp⟩
  have hlater : ∀ k, (∃ e' ∈ s.sent, e'.number = k) → k < e.number := by
    rintro _ ⟨e', he', rfl⟩
    exact hnew e' he'
  refine ⟨?_, fun e' he' => List.mem_append_left _ (h.subset e' he'),
    fun e' he' => List.mem_append_left _ (h.refused e' he'), fun e' he' => ?_, ?_, ?_,
    fun c hc => hmem (h.cursor_sent c hc), h.jobs_le, fun k hk => hmem (h.jobs_sent k hk),
    fun k hk => hmem (h.stored_sent k hk), h.stored_written, h.written_le, h.monotone, ?_⟩
  · refine List.pairwise_append.mpr ⟨h.sorted, List.pairwise_singleton _ _, ?_⟩
    intro e' he' e'' he''
    rw [List.mem_singleton.mp he'']
    exact hnew e' he'
  · exact ⟨List.mem_append_left _ (h.current e' he').1, (h.current e' he').2⟩
  · intro c hc e' he' hlt
    obtain he' | he' := List.mem_append.mp he'
    · exact h.passed c hc e' he' hlt
    · obtain rfl := List.mem_singleton.mp he'
      exact absurd hlt (hlater c (h.cursor_sent c hc)).not_gt
  · intro c hc e' he' hn
    obtain he' | he' := List.mem_append.mp he'
    · exact h.reached c hc e' he' hn
    · obtain rfl := List.mem_singleton.mp he'
      exact absurd hn (hlater c (h.cursor_sent c hc)).ne'
  · intro k hk e' he' hle
    obtain he' | he' := List.mem_append.mp he'
    · exact h.processed k hk e' he' hle
    · obtain rfl := List.mem_singleton.mp he'
      exact absurd hle (hlater k (h.stored_sent k hk)).not_ge

/-- The next event comes after one that was processed. -/
theorem inv_receive (h : s.Inv) (hs : s.receive S J d = some t) : t.Inv := by
  unfold receive at hs
  split_ifs at hs with hopen
  obtain ⟨hlistening, hcurrent⟩ := hopen
  obtain ⟨e, hfind, rfl⟩ := Option.map_eq_some_iff.mp hs
  obtain ⟨hnext, before, after, hsent, hbefore⟩ := List.find?_eq_some_iff_append.mp hfind
  have hnext : ∀ c ∈ s.cursor, c < e.number := by simpa using hnext
  have he : e ∈ s.sent := hsent ▸ List.mem_append_right _ List.mem_cons_self
  -- What is before it is not after the cursor.
  have hearlier : ∀ e' ∈ s.sent, e'.number < e.number → ∃ c ∈ s.cursor, e'.number ≤ c := by
    intro e' he' hlt
    have hsorted := h.sorted
    rw [hsent] at he' hsorted
    obtain he' | he' := List.mem_append.mp he'
    · simpa using hbefore e' he'
    · obtain ⟨-, hsorted, -⟩ := List.pairwise_append.mp hsorted
      obtain rfl | he' := List.mem_cons.mp he'
      · exact absurd hlt (lt_irrefl _)
      · exact absurd hlt ((List.pairwise_cons.mp hsorted).1 e' he').not_gt
  have hdone : ∀ e' ∈ s.sent, e'.number < e.number → e' ∈ s.processed ∨ e' ∈ s.refused := by
    intro e' he' hlt
    obtain ⟨c, hc, hle⟩ := hearlier e' he' hlt
    obtain hlt | heq := hle.lt_or_eq
    · exact h.passed c hc e' he' hlt
    · obtain hp | hcur | hclosed := h.reached c hc e' he' heq
      · exact hp
      · rw [hcurrent] at hcur
        cases hcur
      · rw [hlistening] at hclosed
        cases hclosed
  have hjobs : ∀ {Q : ℤ → Prop}, (∀ k ∈ s.jobs, Q k) → Q e.number → ∀ k ∈ s.jobs ++
      ((onEvent S J d (some e.id) e.data).saved.bind Prod.snd).toList, Q k := by
    intro Q hQ hk
    rw [saved_eq]
    exact Jobs.launch hQ hk
  refine ⟨h.sorted, h.subset, h.refused, ?_, ?_, ?_, ?_, hjobs (fun k hk => ?_) ⟨_, rfl, le_rfl⟩,
    hjobs h.jobs_sent ⟨e, he, rfl⟩, h.stored_sent, h.stored_written, h.written_le, h.monotone,
    h.processed⟩
  · rintro e' ⟨⟩
    exact ⟨he, rfl⟩
  · rintro c ⟨⟩ e' he' hlt
    exact hdone e' he' hlt
  · rintro c ⟨⟩ e' he' hn
    exact .inr (.inl (congrArg some (h.eq_of_number he he' hn.symm)))
  · rintro c ⟨⟩
    exact ⟨e, he, rfl⟩
  · obtain ⟨c, hc, hle⟩ := h.jobs_le k hk
    exact ⟨_, rfl, hle.trans (hnext c hc).le⟩

/-- The current event is done: it is processed or refused, or the source is closed. -/
theorem inv_done {t : Feed} (h : s.Inv) (hcur : s.current = some e)
    (ht : t = { s with
      current := none, flow := t.flow, processed := t.processed, refused := t.refused
      listening := t.listening })
    (hprocessed : ∀ e' ∈ t.processed, e' = e ∨ e' ∈ s.processed)
    (hrefused : ∀ e' ∈ t.refused, e' = e ∨ e' ∈ s.refused)
    (hkept : ∀ e' ∈ s.processed, e' ∈ t.processed) (hkept' : ∀ e' ∈ s.refused, e' ∈ t.refused)
    (hopen : s.listening = false → t.listening = false)
    (hdone : (e ∈ t.processed ∨ e ∈ t.refused) ∨ t.listening = false) : t.Inv := by
  obtain ⟨he, hcursor⟩ := h.current e hcur
  rw [ht]
  refine ⟨h.sorted, fun e' he' => ?_, fun e' he' => ?_, fun e' he' => (by cases he'), ?_, ?_,
    h.cursor_sent, h.jobs_le, h.jobs_sent, h.stored_sent, h.stored_written, h.written_le,
    h.monotone, ?_⟩
  · obtain rfl | he' := hprocessed e' he'
    · exact he
    · exact h.subset e' he'
  · obtain rfl | he' := hrefused e' he'
    · exact he
    · exact h.refused e' he'
  · exact fun c hc e' he' hlt => (h.passed c hc e' he' hlt).imp (hkept e') (hkept' e')
  · intro c hc e' he' hn
    obtain hp | hcur' | hclosed := h.reached c hc e' he' hn
    · exact .inl (hp.imp (hkept e') (hkept' e'))
    · obtain rfl : e = e' := Option.some.inj (hcur.symm.trans hcur')
      exact hdone.imp_right .inr
    · exact .inr (.inr (hopen hclosed))
  · exact fun k hk e' he' hle => hkept e' (h.processed k hk e' he' hle)

theorem inv_decode (h : s.Inv) (hs : s.decode S J d = some t) : t.Inv := by
  obtain ⟨e, hcur, rfl⟩ := Option.map_eq_some_iff.mp hs
  have hid : ∀ {l : List BridgeEvent}, ∀ e' ∈ l, e' = e ∨ e' ∈ l := fun _ he' => .inr he'
  have hcons : ∀ {l : List BridgeEvent}, ∀ e' ∈ e :: l, e' = e ∨ e' ∈ l :=
    fun _ he' => List.mem_cons.mp he'
  have hkept : ∀ {l : List BridgeEvent}, ∀ e' ∈ l, e' ∈ e :: l :=
    fun _ he' => List.mem_cons_of_mem e he'
  dsimp only
  split
  · unfold tryEmit
    split
    · exact inv_done h hcur rfl hcons hid hkept (fun _ he' => he') id
        (.inl (.inl List.mem_cons_self))
    · exact inv_done h hcur rfl hid hcons (fun _ he' => he') hkept id
        (.inl (.inr List.mem_cons_self))
  · exact inv_done h hcur rfl hcons hid hkept (fun _ he' => he') id (.inl (.inl List.mem_cons_self))
  · exact inv_done h hcur rfl hid hid (fun _ he' => he') (fun _ he' => he') (fun _ => rfl)
      (.inr rfl)

theorem inv_collector {flow : SharedFlow TonConnectTransactionRequest} (h : s.Inv) :
    Inv { s with flow := flow } :=
  ⟨h.sorted, h.subset, h.refused, h.current, h.passed, h.reached, h.cursor_sent, h.jobs_le,
    h.jobs_sent, h.stored_sent, h.stored_written, h.written_le, h.monotone, h.processed⟩

/-- If the event of an id was processed, and the refused ones were sent again, all events before
it were processed. -/
theorem inv_write {i : ℕ} (h : s.Inv) (hc : s.WritesProcessed (.write i))
    (hs : s.write i = some t) : t.Inv := by
  obtain ⟨k, hk, rfl⟩ := Option.map_eq_some_iff.mp hs
  obtain ⟨hlast, ⟨e, he, rfl⟩, hrefused⟩ := hc k hk
  have hmem := List.mem_of_getElem? hk
  have hle : ∀ k' ∈ s.written, k' ≤ e.number := by
    intro k' hk'
    obtain ⟨k'', hk'', hle⟩ := h.written_le k' hk'
    exact hle.trans (hlast k'' hk'')
  refine ⟨h.sorted, h.subset, h.refused, h.current, h.passed, h.reached, h.cursor_sent,
    Jobs.finish h.jobs_le i, Jobs.finish h.jobs_sent i, ?_, ?_, ?_,
    List.pairwise_cons.mpr ⟨hle, h.monotone⟩, ?_⟩
  · rintro k ⟨⟩
    exact h.jobs_sent _ hmem
  · rintro k ⟨⟩
    exact List.mem_cons_self
  · exact List.forall_mem_cons.mpr ⟨⟨_, rfl, le_rfl⟩, fun k' hk' => ⟨_, rfl, hle k' hk'⟩⟩
  · rintro k ⟨⟩ e' he' hle'
    obtain hlt | heq := hle'.lt_or_eq
    · obtain ⟨c, hcur, hkc⟩ := h.jobs_le _ hmem
      obtain hp | hr := h.passed c hcur e' he' (hlt.trans_le hkc)
      · exact hp
      · exact hrefused e' hr hlt.le
    · rw [h.eq_of_number he' (h.subset e he) heq]
      exact he

theorem inv_restart (h : s.Inv) : s.restart.Inv := by
  have hcursor : ∀ c ∈ s.restart.cursor, s.stored = some c := by
    intro c hc
    simp only [restart, urlCursor] at hc
    split at hc
    · cases hc
    · rename_i hne
      cases hs : s.stored with
      | none =>
        rw [hs] at hne
        exact absurd rfl hne
      | some k =>
        rw [hs] at hc
        exact hc
  refine ⟨h.sorted, h.subset, h.refused, ?_, ?_, ?_, ?_, ?_, ?_, h.stored_sent, h.stored_written,
    h.written_le, h.monotone, h.processed⟩
  · rintro e ⟨⟩
  · exact fun c hc e he hlt => .inl (h.processed c (hcursor c hc) e he hlt.le)
  · exact fun c hc e he hn => .inl (.inl (h.processed c (hcursor c hc) e he hn.le))
  · exact fun c hc => h.stored_sent c (hcursor c hc)
  · exact fun k hk => absurd hk List.not_mem_nil
  · exact fun k hk => absurd hk List.not_mem_nil

/-- A write out of order, or before its event or a refused one was processed, shows at once. -/
theorem not_neverSkips_of_write {i : ℕ} (h : s.Inv) (hc : ¬ s.WritesProcessed (.write i))
    (hs : s.write i = some t) : ¬ t.NeverSkips := by
  intro hn
  obtain ⟨k, hk, rfl⟩ := Option.map_eq_some_iff.mp hs
  refine hc fun k₁ hk₁ => ?_
  obtain rfl : k = k₁ := Option.some.inj (hk.symm.trans hk₁)
  obtain ⟨e, he, hek⟩ := h.jobs_sent k (List.mem_of_getElem? hk)
  refine ⟨fun k' hk' => ?_, ⟨e, ?_, hek⟩, fun e' he' hle => ?_⟩
  · exact (List.pairwise_cons.mp hn.monotone).1 k' (h.stored_written k' hk')
  · exact hn.processed k rfl e he hek.le
  · exact hn.processed k rfl e' (h.refused e' he') hle

/-- **The last event id.** Along a run the stored id never decreases, and never passes an event
that was not decoded and handed to the flow, if and only if every id is written after the smaller
ones, after its own event was processed, and after each event up to it that the flow has refused
was processed later. -/
theorem last_event_id_iff (S : Sodium) (J : Json) (d : TonConnectConnectionData)
    (as : List FeedAction) :
    Machine.Always (step S J d) NeverSkips {} as ↔
      Machine.Guarded (step S J d) WritesProcessed {} as := by
  refine Machine.always_iff_guarded (I := Inv) ?_ (fun s h => neverSkips_of_inv h) ?_ ?_
  · intro s a t h hc hs
    cases a with
    | send e => exact inv_send h hs
    | receive => exact inv_receive h hs
    | decode => exact inv_decode h hs
    | write i => exact inv_write h hc hs
    | collector a =>
      obtain ⟨flow, -, rfl⟩ := Option.map_eq_some_iff.mp hs
      exact inv_collector h
    | restart =>
      obtain rfl := Option.some.inj hs
      exact inv_restart h
  · intro s a t h hs hc
    cases a with
    | write i => exact not_neverSkips_of_write h hc hs
    | _ => exact absurd trivial hc
  · refine
      ⟨List.Pairwise.nil, ?_, ?_, ?_, ?_, ?_, ?_, ?_, ?_, ?_, ?_, ?_, List.Pairwise.nil, ?_⟩ <;>
      exact fun _ h => by cases h

/-! ## A skipped event -/

/-- A request of the dApp. -/
def sampleEvent : BridgeEvent where
  id := text "1"
  number := 1
  data := sealedBy [1]
  parsed := by decide

/-- The id of the request is written, and the process is stopped before the request is decoded. The
next process is not sent the request. -/
theorem skipped_event :
    ¬ Machine.Always (step sampleSodium sampleJson sampleConnection) NeverSkips {}
      [.send sampleEvent, .receive, .write 0, .restart] := by
  refine Machine.not_always_of_run rfl fun h => ?_
  obtain hp | hlater := h.redelivered sampleEvent List.mem_cons_self
  · exact absurd hp List.not_mem_nil
  · exact absurd (hlater 1 rfl) (by decide)

end Feed

end TonWallet.TonConnect
