import TonWallet.Lib.Jobs
import TonWallet.Lib.Machine
import TonWallet.Lib.SharedFlow
import TonWallet.TonConnect.Event

/-!
# A bad event

Nothing guards the stages of `onEvent`. An event that fails at one of them throws
in the listener, which ends the event source, and nothing opens it again. An
event whose id is no number throws in the coroutine that writes the id, which
ends the process. And a request that finds the flow of the connection full is
refused by `tryEmit`.

* `stream_heard_iff`: the sequences of events all of whose requests are emitted
  under every schedule of the writes and the collector that leaves room for them.
* `silenced_connection`: a request after an event that cannot be decoded.
-/

namespace TonWallet.TonConnect

open Encoding Crypto

/-! ## The machine -/

/-- What the bridge delivers. -/
structure StreamEvent where
  id : Option Text
  data : Text
deriving DecidableEq, Repr

/-- A connection and the writes it has launched. -/
structure Stream where
  /-- The process runs. -/
  alive : Bool := true
  /-- The event source is open. -/
  listening : Bool := true
  /-- The writes of ids; one that is no number throws. -/
  jobs : List (Text × Option ℤ) := []
  lastEventId : Option ℤ := none
  /-- The flow of the requests, `_events`. -/
  flow : SharedFlow TonConnectTransactionRequest := {}
  emitted : List TonConnectTransactionRequest := []
  /-- The events that have led to no request in the flow. -/
  dropped : List StreamEvent := []

inductive StreamAction where
  | deliver (event : StreamEvent)
  | run (i : ℕ)
  | collector (a : SharedFlow.CollectorAction)
deriving DecidableEq, Repr

/-- The event of an action. -/
def StreamAction.event : StreamAction → Option StreamEvent
  | .deliver event => some event
  | .run _ | .collector _ => none

namespace Stream

section
variable (S : Sodium) (J : Json) (d : TonConnectConnectionData)

/-- `_events.tryEmit` of the request of an event. -/
def tryEmit (s : Stream) (e : StreamEvent) (request : TonConnectTransactionRequest) : Stream :=
  if s.flow.Accepts flowCapacity then
    { s with flow := s.flow.tryEmit flowCapacity request, emitted := request :: s.emitted }
  else { s with dropped := e :: s.dropped }

/-- An event is delivered. If the listener throws, the source is closed for good. -/
def deliver (s : Stream) (e : StreamEvent) : Stream :=
  if s.alive = true ∧ s.listening = true then
    let call := onEvent S J d e.id e.data
    let s := { s with jobs := s.jobs ++ call.saved.toList }
    match call.emitted with
    | .ok (some request) => s.tryEmit e request
    | .ok none => { s with dropped := e :: s.dropped }
    | .error _ => { s with listening := false, dropped := e :: s.dropped }
  else { s with dropped := e :: s.dropped }

/-- A coroutine of `onEvent` (`TonConnectConnection.kt` lines 112–116). The exception of `toLong` is
not caught by anyone. -/
def runJob (s : Stream) (i : ℕ) : Option Stream :=
  (s.jobs[i]?).map fun job =>
    match job.2 with
    | some k => { s with lastEventId := some k, jobs := s.jobs.eraseIdx i }
    | none => { s with alive := false, jobs := [] }

def step (s : Stream) : StreamAction → Option Stream
  | .deliver event => some (s.deliver S J d event)
  | .run i => s.runJob i
  | .collector a => (s.flow.act a).map fun flow => { s with flow := flow }

/-- The id is a number, if there is one. -/
def NumericId (id : Option Text) : Prop := ∀ t ∈ id, (toLong t).isSome

/-- A call of `sendTransaction` with a message, for the connection. -/
structure WellFormed (e : StreamEvent) : Prop where
  call : ∃ params, Carries S J d e.data params ∧ params.messages ≠ []
  id : NumericId e.id

/-- An event that passes all stages, with or without a message. -/
structure Harmless (e : StreamEvent) : Prop where
  call : ∃ params, Carries S J d e.data params
  id : NumericId e.id

/-- Every well-formed event has led to a request in the flow. -/
def Heard (s : Stream) : Prop := ∀ e ∈ s.dropped, ¬ WellFormed S J d e

/-- A well-formed event is delivered while there is room in the flow. -/
def HasRoom (s : Stream) : StreamAction → Prop
  | .deliver e => WellFormed S J d e → s.flow.Accepts flowCapacity
  | _ => True

end

/-- The source is open, and no write is going to throw. -/
structure Open (s : Stream) : Prop where
  alive : s.alive = true
  listening : s.listening = true
  jobs : ∀ j ∈ s.jobs, j.2.isSome

/-- Nothing is heard any more. -/
def Silent (s : Stream) : Prop := ¬ (s.alive = true ∧ s.listening = true)

variable {S : Sodium} {J : Json} {d : TonConnectConnectionData} {id : Option Text} {data : Text}
  {s t : Stream} {e : StreamEvent} {es : List StreamEvent} {as : List StreamAction}

/-! ## One event -/

@[simp] theorem tryEmit_alive {request : TonConnectTransactionRequest} :
    (s.tryEmit e request).alive = s.alive := by
  unfold tryEmit
  split <;> rfl

@[simp] theorem tryEmit_listening {request : TonConnectTransactionRequest} :
    (s.tryEmit e request).listening = s.listening := by
  unfold tryEmit
  split <;> rfl

@[simp] theorem tryEmit_jobs {request : TonConnectTransactionRequest} :
    (s.tryEmit e request).jobs = s.jobs := by
  unfold tryEmit
  split <;> rfl

/-- What becomes of an event: its request is passed to `tryEmit`, or the event is dropped. -/
theorem deliver_cases (hs : s.alive = true ∧ s.listening = true) :
    (∃ params message rest, Carries S J d e.data params ∧ params.messages = message :: rest ∧
      s.deliver S J d e = { s with
        jobs := s.jobs ++ (onEvent S J d e.id e.data).saved.toList }.tryEmit e
          (requestFor d message)) ∨
    (∃ params, Carries S J d e.data params ∧ params.messages = [] ∧
      s.deliver S J d e = { s with
        jobs := s.jobs ++ (onEvent S J d e.id e.data).saved.toList
        dropped := e :: s.dropped }) ∨
    ((∀ params, ¬ Carries S J d e.data params) ∧
      s.deliver S J d e = { s with
        jobs := s.jobs ++ (onEvent S J d e.id e.data).saved.toList
        listening := false
        dropped := e :: s.dropped }) := by
  rw [deliver, if_pos hs]
  dsimp only
  cases he : (onEvent S J d e.id e.data).emitted with
  | error _ =>
    refine .inr (.inr ⟨fun params hc => ?_, rfl⟩)
    rw [emitted_eq_ok.mpr ⟨params, hc, rfl⟩] at he
    cases he
  | ok o =>
    obtain ⟨params, hc, rfl⟩ := emitted_eq_ok.mp he
    cases hm : params.messages with
    | nil => exact .inr (.inl ⟨params, hc, hm, rfl⟩)
    | cons message rest => exact .inl ⟨params, message, rest, hc, hm, rfl⟩

theorem carries_unique {params params' : TonConnectMethodParamsResponse}
    (h : Carries S J d data params) (h' : Carries S J d data params') : params = params' := by
  obtain ⟨_, _, _, _, _, _, _, hr, hb, hs, -, hopen, hd, -, hf, hp⟩ := h
  obtain ⟨_, _, _, _, _, _, _, hr', hb', hs', -, hopen', hd', -, hf', hp'⟩ := h'
  obtain rfl := Option.some.inj (hr.symm.trans hr')
  obtain rfl := Except.ok.inj (hb.symm.trans hb')
  obtain rfl := Except.ok.inj (hs.symm.trans hs')
  obtain rfl := Option.some.inj (hopen.symm.trans hopen')
  obtain rfl := Option.some.inj (hd.symm.trans hd')
  obtain ⟨rfl, -⟩ := List.cons.inj (hf.symm.trans hf')
  exact Option.some.inj (hp.symm.trans hp')

/-- The launched write throws exactly if the id is no number. -/
theorem saved_numeric_iff :
    (∀ j ∈ (onEvent S J d id data).saved.toList, j.2.isSome) ↔ NumericId id := by
  cases id with
  | none => simp [onEvent, NumericId]
  | some t => simp [onEvent, NumericId]

/-- Only the flow, what was emitted and what was dropped change. -/
theorem tryEmit_cases {request : TonConnectTransactionRequest} :
    (s.flow.Accepts flowCapacity ∧ s.tryEmit e request =
      { s with flow := s.flow.tryEmit flowCapacity request, emitted := request :: s.emitted }) ∨
    (¬ s.flow.Accepts flowCapacity ∧
      s.tryEmit e request = { s with dropped := e :: s.dropped }) := by
  unfold tryEmit
  by_cases hroom : s.flow.Accepts flowCapacity
  · rw [if_pos hroom]
    exact .inl ⟨hroom, rfl⟩
  · rw [if_neg hroom]
    exact .inr ⟨hroom, rfl⟩

/-- An open source emits the request of a well-formed event exactly if there is room for it. -/
theorem heard_deliver_iff (h : s.Heard S J d) (ho : WellFormed S J d e → s.Open) :
    (s.deliver S J d e).Heard S J d ↔ HasRoom S J d s (.deliver e) := by
  have hdropped : (∀ e' ∈ e :: s.dropped, ¬ WellFormed S J d e') ↔ ¬ WellFormed S J d e :=
    List.forall_mem_cons.trans (and_iff_left h)
  by_cases hw : WellFormed S J d e
  · -- A well-formed event gets to the flow.
    obtain ⟨params, hc, hne⟩ := hw.call
    obtain ⟨params', _, _, hc', hm, hd⟩ | ⟨params', hc', hnil, -⟩ | ⟨hnone, -⟩ :=
      @deliver_cases S J d s e ⟨(ho hw).alive, (ho hw).listening⟩
    · rw [hd]
      obtain ⟨hroom, ht⟩ | ⟨hroom, ht⟩ := @tryEmit_cases _ e (requestFor d _)
      · rw [ht]
        exact ⟨fun _ _ => hroom, fun _ => h⟩
      · rw [ht]
        exact ⟨fun hall => absurd hw (hdropped.mp hall), fun hr => absurd (hr hw) hroom⟩
    · obtain rfl := carries_unique hc hc'
      exact absurd hnil hne
    · exact absurd hc (hnone params)
  · refine ⟨fun _ hw' => absurd hw' hw, fun _ => ?_⟩
    rw [deliver]
    split
    · dsimp only
      split
      · obtain ⟨-, ht⟩ | ⟨-, ht⟩ := @tryEmit_cases { s with
            jobs := s.jobs ++ (onEvent S J d e.id e.data).saved.toList } e _
        all_goals rw [ht]
        · exact h
        · exact hdropped.mpr hw
      · exact hdropped.mpr hw
      · exact hdropped.mpr hw
    · exact hdropped.mpr hw

/-- It stays open after a harmless one. -/
theorem open_deliver (h : s.Open) (he : Harmless S J d e) : (s.deliver S J d e).Open := by
  have hjobs : ∀ j ∈ s.jobs ++ (onEvent S J d e.id e.data).saved.toList, j.2.isSome :=
    List.forall_mem_append.mpr ⟨h.jobs, saved_numeric_iff.mpr he.id⟩
  obtain ⟨_, _, _, -, -, hd⟩ | ⟨_, -, -, hd⟩ | ⟨hnone, -⟩ :=
    @deliver_cases S J d s e ⟨h.alive, h.listening⟩
  · rw [hd]
    exact ⟨tryEmit_alive.trans h.alive, tryEmit_listening.trans h.listening,
      by rwa [tryEmit_jobs]⟩
  · rw [hd]
    exact ⟨h.alive, h.listening, hjobs⟩
  · obtain ⟨params, hc⟩ := he.call
    exact absurd hc (hnone params)

theorem open_runJob {i : ℕ} (h : s.Open) (hs : s.runJob i = some t) : t.Open := by
  obtain ⟨⟨c, o⟩, hj, rfl⟩ := Option.map_eq_some_iff.mp hs
  obtain ⟨k, rfl⟩ := Option.isSome_iff_exists.mp (h.jobs _ (List.mem_of_getElem? hj))
  exact ⟨h.alive, h.listening, Jobs.finish h.jobs i⟩

theorem dropped_runJob {i : ℕ} (hs : s.runJob i = some t) : t.dropped = s.dropped := by
  obtain ⟨⟨c, o⟩, -, rfl⟩ := Option.map_eq_some_iff.mp hs
  cases o <;> rfl

/-! ## All schedules -/

/-- If the events before a well-formed one are harmless, it finds the source open. -/
theorem always_heard_iff (before : List StreamEvent)
    (hes : ∀ bs e cs, es = bs ++ e :: cs → WellFormed S J d e → ∀ b ∈ bs, Harmless S J d b)
    (has : before ++ as.filterMap StreamAction.event = es) (h : s.Heard S J d)
    (ho : (∀ b ∈ before, Harmless S J d b) → s.Open) :
    Machine.Always (step S J d) (Heard S J d) s as ↔
      Machine.Guarded (step S J d) (HasRoom S J d) s as := by
  induction as generalizing s before with
  | nil => exact ⟨fun _ => trivial, fun _ => h⟩
  | cons a as ih =>
    -- The step that is taken, and the rest of the run.
    have hstep : ∀ t, step S J d s a = some t → (t.Heard S J d ↔ HasRoom S J d s a) ∧
        (t.Heard S J d → (Machine.Always (step S J d) (Heard S J d) t as ↔
          Machine.Guarded (step S J d) (HasRoom S J d) t as)) := by
      intro t ht
      cases a with
      | deliver e =>
        obtain rfl := Option.some.inj ht
        have has' : before ++ e :: as.filterMap StreamAction.event = es := has
        refine ⟨heard_deliver_iff h fun hw => ho (hes before e _ has'.symm hw), fun hheard => ?_⟩
        refine ih (before ++ [e]) ?_ hheard fun hb => ?_
        · rw [← has', List.append_assoc]
          rfl
        · obtain ⟨hb, he⟩ := List.forall_mem_append.mp hb
          exact open_deliver (ho hb) (he e List.mem_cons_self)
      | run i =>
        have hheard : t.Heard S J d := by
          rw [Heard, dropped_runJob ht]
          exact h
        exact ⟨iff_of_true hheard trivial, fun _ => ih before has hheard fun hb =>
          open_runJob (ho hb) ht⟩
      | collector a =>
        obtain ⟨flow, -, rfl⟩ := Option.map_eq_some_iff.mp ht
        exact ⟨iff_of_true h trivial, fun hheard => ih before has hheard fun hb =>
          ⟨(ho hb).alive, (ho hb).listening, (ho hb).jobs⟩⟩
    constructor
    · intro hall t ht
      obtain ⟨hroom, hrest⟩ := hstep t ht
      have hheard := (hall.2 t ht).start
      exact ⟨hroom.mp hheard, (hrest hheard).mp (hall.2 t ht)⟩
    · intro hg
      refine ⟨h, fun t ht => ?_⟩
      obtain ⟨hroom, hrest⟩ := hstep t ht
      exact (hrest (hroom.mpr (hg t ht).1)).mpr (hg t ht).2

/-- Without a collector there is always room. -/
theorem guarded_of_uncollected (h : s.flow.pending = none)
    (has : ∀ c, StreamAction.collector c ∉ as) :
    Machine.Guarded (step S J d) (HasRoom S J d) s as := by
  have hroom : ∀ {s : Stream}, s.flow.pending = none → s.flow.Accepts flowCapacity := by
    intro s hs l hl
    rw [hs] at hl
    cases hl
  induction as generalizing s with
  | nil => trivial
  | cons a as ih =>
    intro t ht
    have hrest : ∀ c, StreamAction.collector c ∉ as :=
      fun c hc => has c (List.mem_cons_of_mem a hc)
    cases a with
    | deliver e =>
      obtain rfl := Option.some.inj ht
      refine ⟨fun _ => hroom h, ih ?_ hrest⟩
      rw [deliver]
      split
      · dsimp only
        split
        · rw [tryEmit, if_pos (hroom h)]
          show (s.flow.tryEmit flowCapacity _).pending = none
          rw [SharedFlow.tryEmit, if_pos (hroom h), h]
          rfl
        · exact h
        · exact h
      · exact h
    | run i =>
      refine ⟨trivial, ih ?_ hrest⟩
      obtain ⟨⟨c, o⟩, -, rfl⟩ := Option.map_eq_some_iff.mp ht
      cases o <;> exact h
    | collector c => exact absurd List.mem_cons_self (has c)

/-- The schedule that delivers all events and lets no write run. -/
def deliverAll (es : List StreamEvent) : List StreamAction := es.map .deliver

theorem filterMap_deliverAll : (deliverAll es).filterMap StreamAction.event = es := by
  rw [deliverAll, List.filterMap_map]
  exact List.filterMap_some

theorem deliver_silent (h : s.Silent) :
    (s.deliver S J d e).Silent ∧ (s.deliver S J d e).dropped = e :: s.dropped := by
  rw [deliver, if_neg h]
  exact ⟨h, rfl⟩

/-- A silent connection drops all that is delivered. -/
theorem run_silent (h : s.Silent) : ∃ t, Machine.run (step S J d) s (deliverAll es) = some t ∧
    ∀ e ∈ es, e ∈ t.dropped := by
  have hrun : ∃ t, Machine.run (step S J d) s (deliverAll es) = some t ∧
      (∀ e ∈ s.dropped, e ∈ t.dropped) ∧ ∀ e ∈ es, e ∈ t.dropped := by
    induction es generalizing s with
    | nil => exact ⟨s, rfl, fun _ he => he, fun e he => absurd he List.not_mem_nil⟩
    | cons e es ih =>
      obtain ⟨hsilent, hdropped⟩ := @deliver_silent S J d s e h
      obtain ⟨t, ht, hold, hall⟩ := ih hsilent
      rw [hdropped] at hold
      refine ⟨t, ht, fun e' he' => hold e' (List.mem_cons_of_mem e he'), ?_⟩
      exact List.forall_mem_cons.mpr ⟨hold e List.mem_cons_self, hall⟩
  obtain ⟨t, ht, -, hall⟩ := hrun
  exact ⟨t, ht, hall⟩

theorem run_deliverAll : ∃ t, Machine.run (step S J d) s (deliverAll es) = some t := by
  induction es generalizing s with
  | nil => exact ⟨s, rfl⟩
  | cons e es ih => exact @ih (s.deliver S J d e)

/-- An event that is not harmless silences the connection, at once or when its write runs. -/
theorem silent_of_harmful (he : ¬ Harmless S J d e) :
    (s.deliver S J d e).Silent ∨ ∃ i t, (s.deliver S J d e).runJob i = some t ∧ t.Silent := by
  by_cases hs : s.alive = true ∧ s.listening = true
  · by_cases hid : NumericId e.id
    · have hnone : ∀ params, ¬ Carries S J d e.data params :=
        fun params hc => he ⟨⟨params, hc⟩, hid⟩
      obtain ⟨params, _, _, hc, -⟩ | ⟨params, hc, -⟩ | ⟨-, hd⟩ := @deliver_cases S J d s e hs
      · exact absurd hc (hnone params)
      · exact absurd hc (hnone params)
      · rw [hd]
        exact .inl fun h => absurd h.2 Bool.false_ne_true
    · rw [← @saved_numeric_iff S J d e.id e.data] at hid
      push Not at hid
      obtain ⟨⟨c, o⟩, hj, ho⟩ := hid
      obtain rfl : o = none := Option.not_isSome_iff_eq_none.mp ho
      have hjobs : (s.deliver S J d e).jobs
          = s.jobs ++ (onEvent S J d e.id e.data).saved.toList := by
        obtain ⟨_, _, _, -, -, hd⟩ | ⟨_, -, -, hd⟩ | ⟨-, hd⟩ := @deliver_cases S J d s e hs
        all_goals simp [hd]
      obtain ⟨i, hi⟩ := List.mem_iff_getElem?.mp (hjobs ▸ List.mem_append_right s.jobs hj)
      refine .inr ⟨i, _, Option.map_eq_some_iff.mpr ⟨_, hi, rfl⟩, ?_⟩
      exact fun h => absurd h.1 Bool.false_ne_true
  · exact .inl (deliver_silent hs).1

/-- **One bad event.** Every well-formed event of a sequence leads to a request in the flow under
every schedule of the launched writes and of the collector in which it finds room there, and under
no other, if and only if every event before a well-formed one passes all stages of `onEvent` and
has a number for an id, if any. -/
theorem stream_heard_iff (S : Sodium) (J : Json) (d : TonConnectConnectionData)
    (es : List StreamEvent) :
    (∀ as, as.filterMap StreamAction.event = es →
        (Machine.Always (step S J d) (Heard S J d) {} as ↔
          Machine.Guarded (step S J d) (HasRoom S J d) {} as)) ↔
      ∀ bs e cs, es = bs ++ e :: cs → WellFormed S J d e → ∀ b ∈ bs, Harmless S J d b := by
  constructor
  · intro h bs e cs hes hw b hb
    by_contra hharm
    obtain ⟨before, after, rfl⟩ := List.append_of_mem hb
    have hsplit : es = before ++ b :: (after ++ e :: cs) := by rw [hes, List.append_assoc]; rfl
    have hmem : e ∈ after ++ e :: cs := List.mem_append_right _ List.mem_cons_self
    -- A schedule without a collector, along which the event would have to be heard.
    have hrefute : ∀ as t, as.filterMap StreamAction.event = es →
        (∀ c, StreamAction.collector c ∉ as) → Machine.run (step S J d) {} as = some t →
        e ∉ t.dropped := fun as t has hno hrun hdropped =>
      Machine.not_always_of_run hrun (fun hheard => hheard e hdropped hw)
        ((h as has).mpr (guarded_of_uncollected rfl hno))
    obtain ⟨s, hrun⟩ := @run_deliverAll S J d {} before
    obtain hsilent | ⟨i, u, hu, hsilent⟩ := @silent_of_harmful S J d s b hharm
    · obtain ⟨t, ht, hall⟩ := @run_silent S J d _ (after ++ e :: cs) hsilent
      refine hrefute (deliverAll es) t filterMap_deliverAll (by simp [deliverAll]) ?_ (hall e hmem)
      rw [hsplit, deliverAll, List.map_append, Machine.run_append]
      exact Option.bind_eq_some_iff.mpr ⟨s, hrun, ht⟩
    · obtain ⟨t, ht, hall⟩ := @run_silent S J d _ (after ++ e :: cs) hsilent
      refine hrefute
        (deliverAll before ++ .deliver b :: .run i :: deliverAll (after ++ e :: cs)) t ?_
        (by simp [deliverAll]) ?_ (hall e hmem)
      · rw [List.filterMap_append, filterMap_deliverAll, hsplit]
        exact congrArg (fun l => before ++ b :: l) filterMap_deliverAll
      · rw [Machine.run_append]
        refine Option.bind_eq_some_iff.mpr ⟨s, hrun, ?_⟩
        show (s.deliver S J d b |>.runJob i).bind _ = _
        rw [hu]
        exact ht
  · intro h as has
    refine always_heard_iff [] h has (fun e he => absurd he List.not_mem_nil) fun _ => ?_
    exact ⟨rfl, rfl, fun j hj => absurd hj List.not_mem_nil⟩

/-! ## A request that is not heard -/

/-- A call with a field that is not known. -/
def strayEvent : StreamEvent where
  id := some (text "1")
  data := text "\x7b\"type\":\"heartbeat\"\x7d"

/-- A request of the dApp. -/
def honestEvent : StreamEvent where
  id := some (text "2")
  data := sealedBy [1]

theorem honestEvent_wellFormed :
    WellFormed sampleSodium sampleJson sampleConnection honestEvent where
  call := by
    obtain ⟨params, hc, hm⟩ := emitted_eq_ok.mp (sealedBy_emitted [1] none)
    refine ⟨params, hc, fun hnil => ?_⟩
    rw [hnil] at hm
    cases hm
  id := by
    rintro _ ⟨⟩
    decide

/-- The request comes after an event that cannot be decoded, and is not emitted. -/
theorem silenced_connection :
    ¬ Machine.Always (step sampleSodium sampleJson sampleConnection)
      (Heard sampleSodium sampleJson sampleConnection) {}
      [.deliver strayEvent, .deliver honestEvent] := by
  have hstray : ∀ params,
      ¬ Carries sampleSodium sampleJson sampleConnection strayEvent.data params := by
    rintro params ⟨response, _, _, _, _, _, _, hr, -⟩
    have hnone : sampleJson.decodeResponse strayEvent.data = none := by decide +kernel
    rw [hnone] at hr
    cases hr
  have hsilent : Silent (deliver sampleSodium sampleJson sampleConnection {} strayEvent) := by
    obtain ⟨params, _, _, hc, -⟩ | ⟨params, hc, -⟩ | ⟨-, hd⟩ :=
      @deliver_cases sampleSodium sampleJson sampleConnection {} strayEvent ⟨rfl, rfl⟩
    · exact absurd hc (hstray params)
    · exact absurd hc (hstray params)
    · rw [hd]
      exact fun h => absurd h.2 Bool.false_ne_true
  obtain ⟨t, ht, hall⟩ :=
    @run_silent sampleSodium sampleJson sampleConnection _ [honestEvent] hsilent
  refine Machine.not_always_of_run (t := t) ht fun h => ?_
  exact h honestEvent (hall honestEvent List.mem_cons_self) honestEvent_wellFormed

end Stream

end TonWallet.TonConnect
