import Mathlib.Data.List.Nodup
import Mathlib.Algebra.Order.BigOperators.Group.Finset
import TonWallet.Lib.Distinct
import TonWallet.Lib.Machine
import TonWallet.Lib.SharedFlow
import TonWallet.TonConnect.Manager

/-!
# The requests on the screen

Every connection has a flow of events. The manager has a flow of the lists of
these flows, which only grow, and the view model always collects the flows of
the last list: every new list makes it start over on all of them, where each
repeats its last event. What it collects goes through the channels of `merge` and
of `flatMapLatest` into `transferRequest`, whatever that still holds.

* `completable_of_inv`: every event that is on its way gets to the screen, if the
  run is continued.
* `presented_once`: the runs along which every event is presented once.
* `presented_again`: an answered request that a new connection brings back.
-/

namespace TonWallet.TonConnect

/-! ## The machine -/

/-- The manager, and the view model that collects its events. -/
structure Inbox where
  connections : List Connection := []
  /-- How many connections have been made; `eventsLocal` has one flow for each. -/
  created : ℕ := 0
  /-- The flows of the connections. -/
  flows : ℕ → SharedFlow Request := fun _ => {}
  /-- The flow of the lists, which are given by their lengths. -/
  lists : SharedFlow ℕ := {}
  /-- The channel of `merge`. -/
  merged : List Request := []
  /-- The channel of `flatMapLatest`. -/
  latest : List Request := []
  transferRequest : Option Request := none
  /-- All requests that have been emitted. -/
  arrived : List Request := []
  /-- All requests that have been placed in `transferRequest`. -/
  presented : List Request := []
  answered : List Request := []
  /-- The requests that were presented although their connection was gone. -/
  stale : List Request := []

inductive InboxAction where
  /-- A decrypted call arrives on a live connection. -/
  | receive (object : ℕ) (model : TonConnectMethodResponse)
  | initTonConnection (data : TonConnectConnectionData)
  | deleteApp (data : TonConnectConnectionData)
  /-- The view model is made. -/
  | subscribe
  | collectList
  /-- A value is collected from a flow of the list. -/
  | collect (object : ℕ)
  | forward
  | present
  | onBottomSheetDismiss
deriving DecidableEq, Repr

namespace Inbox

/-- An event goes into the flow of its connection, if there is room
(`TonConnectConnection.kt` lines 126–139). -/
def receive (J : Json) (s : Inbox) (object : ℕ) (model : TonConnectMethodResponse) :
    Option Inbox :=
  (s.connections.find? fun c => c.object = object).map fun c =>
    match requestOf J s.arrived.length object c.data model with
    | some r =>
      { s with
        arrived := r :: s.arrived
        flows := Function.update s.flows object ((s.flows object).tryEmit flowCapacity r) }
    | none => s

/-- `initTonConnection` with `save` (`TonConnectManager.kt` lines 114–130). The setter of
`eventsLocal` emits the longer list. -/
def initTonConnection (s : Inbox) (data : TonConnectConnectionData) : Inbox :=
  { s with
    connections := s.connections.eraseP (fun c => c.data.manifest = data.manifest) ++
      [{ object := s.created, data := data }]
    created := s.created + 1
    lists := s.lists.tryEmit flowCapacity (s.created + 1) }

/-- `deleteAppWithManifest`. The flow of the connection stays in the list. -/
def deleteApp (s : Inbox) (data : TonConnectConnectionData) : Inbox :=
  { s with connections := s.connections.eraseP fun c => c.data.manifest = data.manifest }

/-- `flatMapLatest` takes a list: it cancels the collectors of the last one, and `merge` starts new
ones (`TonConnectViewModel.kt` lines 30–32). -/
def collectList (s : Inbox) : Option Inbox :=
  s.lists.collect.map fun (k, lists) =>
    { s with
      lists := lists
      flows := fun i => if i < k then (s.flows i).subscribe else (s.flows i).cancel
      merged := [] }

/-- `merge` takes an event from a flow. -/
def collect (s : Inbox) (object : ℕ) : Option Inbox :=
  (s.flows object).collect.map fun (r, flow) =>
    { s with flows := Function.update s.flows object flow, merged := s.merged ++ [r] }

/-- `flatMapLatest` takes an event from `merge`. -/
def forward (s : Inbox) : Option Inbox :=
  match s.merged with
  | r :: merged => some { s with merged := merged, latest := s.latest ++ [r] }
  | [] => none

/-- An event gets into `transferRequest` (`TonConnectViewModel.kt` lines 32–34). -/
def present (s : Inbox) : Option Inbox :=
  match s.latest with
  | r :: latest =>
    some { s with
      latest := latest
      transferRequest := some r
      presented := s.presented ++ [r]
      stale := if ∃ c ∈ s.connections, c.object = r.connection then s.stale else r :: s.stale }
  | [] => none

/-- `onBottomSheetDismiss` (`TonConnectViewModel.kt` lines 94–108). -/
def onBottomSheetDismiss (s : Inbox) : Inbox :=
  { s with transferRequest := none, answered := s.transferRequest.toList ++ s.answered }

def step (J : Json) (s : Inbox) : InboxAction → Option Inbox
  | .receive object model => s.receive J object model
  | .initTonConnection data => some (s.initTonConnection data)
  | .deleteApp data => some (s.deleteApp data)
  | .subscribe =>
    if s.lists.pending = none then some { s with lists := s.lists.subscribe } else none
  | .collectList => s.collectList
  | .collect object => s.collect object
  | .forward => s.forward
  | .present => s.present
  | .onBottomSheetDismiss => some s.onBottomSheetDismiss

/-! ## Presented once -/

/-- The request is on its way to `transferRequest`. -/
def Coming (s : Inbox) (r : Request) : Prop :=
  r ∈ s.latest ∨ r ∈ s.merged ∨ ∃ i, r ∈ (s.flows i).waiting ∧
    ((s.flows i).pending.isSome ∨ ∃ k ∈ s.lists.waiting, i < k)

/-- Every request is presented once, or on its way; it stays until it is answered; and its
connection is live when it is presented. -/
structure PresentedOnce (s : Inbox) : Prop where
  once : s.presented.Nodup
  kept : ∀ r ∈ s.arrived, r ∈ s.presented ∨ s.Coming r
  answered : ∀ r ∈ s.presented, s.transferRequest = some r ∨ r ∈ s.answered
  live : s.stale = []

/-- No request of the connection with this manifest is on its way. -/
def Quiet (s : Inbox) (m : TonConnectManifestModel) : Prop :=
  ∀ c ∈ s.connections.find? fun c => c.data.manifest = m,
    (∀ r ∈ s.latest ++ s.merged, r.connection ≠ c.object) ∧ (s.flows c.object).waiting = []

/-- The last request of every flow that is collected, and only this, waits before `flatMapLatest`:
what a new list makes the flows repeat. -/
def Ready (s : Inbox) : Prop :=
  ∀ i < s.created, (s.flows i).pending.isSome →
    s.merged.filter (fun r => r.connection = i) ++ (s.flows i).waiting = (s.flows i).replay.toList

/-- An event finds room in its flow, and is its first one if the flow is not collected yet or a
list waits; a connection is made while there is room for its list and the flows are ready for it,
and it is replaced or deleted when no request of it is on its way; a request gets on to
`flatMapLatest` when no list waits, and is presented when the one before it has been answered. -/
def Unhurried (J : Json) (s : Inbox) : InboxAction → Prop
  | .receive object model =>
    ∀ c ∈ s.connections.find? fun c => c.object = object,
      (requestOf J s.arrived.length object c.data model).isSome →
        (s.flows object).Accepts flowCapacity ∧
          ((s.flows object).pending = none ∨ s.lists.waiting ≠ [] → (s.flows object).replay = none)
  | .initTonConnection data => s.lists.Accepts flowCapacity ∧ s.Ready ∧ s.Quiet data.manifest
  | .deleteApp data => s.Quiet data.manifest
  | .forward => s.lists.waiting = []
  | .present => s.transferRequest = none
  | _ => True

instance (J : Json) (s : Inbox) (a : InboxAction) : Decidable (s.Unhurried J a) := by
  cases a <;> dsimp only [Unhurried, Quiet, Ready] <;> infer_instance

/-- The steps by which a request gets to the screen, and is answered. -/
def InboxAction.GetsOn : InboxAction → Prop
  | .subscribe | .collectList | .collect _ | .forward | .present | .onBottomSheetDismiss => True
  | .receive _ _ | .initTonConnection _ | .deleteApp _ => False

/-- The run can be continued without haste by steps of the view model only, until every request
that has arrived has been presented, once. -/
def Completable (J : Json) (s : Inbox) : Prop :=
  ∃ as t, (∀ a ∈ as, InboxAction.GetsOn a) ∧ Machine.Guarded (step J) (Unhurried J) s as ∧
    Machine.run (step J) s as = some t ∧ ∀ r ∈ s.arrived, t.presented.count r = 1

/-! ## The invariant -/

/-- Where the requests are, in the order in which they get on. -/
def placed (s : Inbox) : List Request := s.presented ++ s.latest ++ s.merged

/-- The request is on its way, or in a flow that is not collected. -/
def Underway (s : Inbox) (r : Request) : Prop :=
  r ∈ s.latest ∨ r ∈ s.merged ∨ ∃ i, r ∈ (s.flows i).waiting

/-- Every request is in one place. -/
structure Placed (s : Inbox) : Prop where
  placed : s.placed.Nodup
  once : ∀ i, (s.flows i).waiting.Nodup
  own : ∀ i, ∀ r ∈ (s.flows i).waiting, r.connection = i ∧ r ∉ s.placed
  arrivals : ∀ r ∈ s.arrived, r.arrival < s.arrived.length
  known : ∀ r, r ∈ s.arrived ↔ r ∈ s.placed ∨ ∃ i, r ∈ (s.flows i).waiting
  collected : ∀ r ∈ s.merged, (s.flows r.connection).pending.isSome
  live : ∀ r, s.Underway r → ∃ c ∈ s.connections, c.object = r.connection
  answered : ∀ r ∈ s.presented, s.transferRequest = some r ∨ r ∈ s.answered
  stale : s.stale = []

/-- The last list that waits has all flows; if none waits, all flows are collected. -/
structure Listed (s : Inbox) : Prop where
  objects : ∀ c ∈ s.connections, c.object < s.created
  made : ∀ i, s.created ≤ i → s.flows i = {}
  le : ∀ k ∈ s.lists.waiting, k ≤ s.created
  last : ∀ k ∈ s.lists.waiting.getLast?, k = s.created
  replay : s.lists.replay = if s.created = 0 then none else some s.created
  collected : s.lists.waiting = [] → ∀ i < s.created, (s.flows i).pending.isSome

structure Inv (s : Inbox) : Prop where
  placed : s.Placed
  listed : s.Listed
  ready : s.lists.waiting ≠ [] → s.Ready

variable {J : Json} {s t : Inbox} {r : Request} {d : TonConnectConnectionData}

theorem presentedOnce_of_inv (h : s.Inv) : s.PresentedOnce := by
  refine ⟨?_, fun r hr => ?_, h.placed.answered, h.placed.stale⟩
  · exact (List.nodup_append.mp (List.nodup_append.mp h.placed.placed).1).1
  · obtain hplaced | ⟨i, hi⟩ := (h.placed.known r).mp hr
    · obtain hplaced | hmerged := List.mem_append.mp hplaced
      · obtain hpresented | hlatest := List.mem_append.mp hplaced
        · exact .inl hpresented
        · exact .inr (.inl hlatest)
      · exact .inr (.inr (.inl hmerged))
    · have hlt : i < s.created := by
        by_contra hge
        rw [h.listed.made i (not_lt.mp hge)] at hi
        exact absurd hi List.not_mem_nil
      refine .inr (.inr (.inr ⟨i, hi, ?_⟩))
      cases hlast : s.lists.waiting.getLast? with
      | none => exact .inl (h.listed.collected (List.getLast?_eq_none_iff.mp hlast) i hlt)
      | some k =>
        refine .inr ⟨k, List.mem_of_getLast? hlast, ?_⟩
        rwa [h.listed.last k hlast]

/-! ## Arrival -/

/-- The request goes into its flow. -/
def arrive (s : Inbox) (r : Request) : Inbox :=
  { s with
    arrived := r :: s.arrived
    flows := Function.update s.flows r.connection
      ((s.flows r.connection).tryEmit flowCapacity r) }

theorem flows_arrive (s : Inbox) (r : Request) :
    (s.arrive r).flows = Function.update s.flows r.connection
      ((s.flows r.connection).tryEmit flowCapacity r) := rfl

/-- The flow has room for the request, and keeps the others. -/
def HasRoom (s : Inbox) (i : ℕ) : Prop :=
  (s.flows i).Accepts flowCapacity ∧
    ((s.flows i).pending = none ∨ s.lists.waiting ≠ [] → (s.flows i).replay = none)

/-- The request waits behind the others. -/
theorem waiting_arrive_self (hroom : s.HasRoom r.connection) :
    ((s.arrive r).flows r.connection).waiting = (s.flows r.connection).waiting ++ [r] := by
  rw [flows_arrive, Function.update_self]
  exact SharedFlow.waiting_tryEmit hroom.1 fun hp => hroom.2 (.inl hp)

theorem receive_cases {object : ℕ} {model : TonConnectMethodResponse}
    (hc : s.Unhurried J (.receive object model)) (hs : s.receive J object model = some t) :
    t = s ∨ ∃ r, t = s.arrive r ∧ r.arrival = s.arrived.length ∧ s.HasRoom r.connection ∧
      ∃ c ∈ s.connections, c.object = r.connection := by
  obtain ⟨c, hfind, rfl⟩ := Option.map_eq_some_iff.mp hs
  split
  · rename_i r hr
    obtain ⟨harrival, rfl, -⟩ := requestOf_eq_some hr
    refine .inr ⟨r, rfl, harrival, hc c hfind (by rw [hr]; rfl), c, ?_, ?_⟩
    · exact List.mem_of_find?_eq_some hfind
    · simpa using List.find?_some hfind
  · exact .inl rfl

theorem mem_waiting_arrive (hroom : s.HasRoom r.connection) (i : ℕ) (r' : Request) :
    r' ∈ ((s.arrive r).flows i).waiting ↔
      r' ∈ (s.flows i).waiting ∨ i = r.connection ∧ r' = r := by
  refine SharedFlow.mem_waiting_update (fun r' => ?_) i r'
  rw [SharedFlow.waiting_tryEmit hroom.1 fun hp => hroom.2 (.inl hp), List.mem_append,
    List.mem_singleton]

theorem placed_arrive (h : s.Placed) (harrival : r.arrival = s.arrived.length)
    (hroom : s.HasRoom r.connection) (hlive : ∃ c ∈ s.connections, c.object = r.connection) :
    (s.arrive r).Placed := by
  have hmem := mem_waiting_arrive hroom
  have hnew : r ∉ s.arrived := fun hmem => (h.arrivals r hmem).ne harrival
  have hplaced : r ∉ s.placed := fun hm => hnew ((h.known r).mpr (.inl hm))
  refine ⟨h.placed, fun i => ?_, fun i r' hr' => ?_, ?_, fun r' => ?_, fun r' hr' => ?_,
    fun r' hr' => ?_, h.answered, h.stale⟩
  · by_cases hi : i = r.connection
    · subst hi
      rw [waiting_arrive_self hroom]
      refine List.nodup_append.mpr ⟨h.once _, List.nodup_singleton r, ?_⟩
      rintro a ha b hb rfl
      rw [List.mem_singleton.mp hb] at ha
      exact hnew ((h.known r).mpr (.inr ⟨_, ha⟩))
    · rw [flows_arrive, Function.update_of_ne hi]
      exact h.once i
  · obtain hold | ⟨rfl, rfl⟩ := (hmem i r').mp hr'
    · exact h.own i r' hold
    · exact ⟨rfl, hplaced⟩
  · refine List.forall_mem_cons.mpr ⟨?_, fun r' hr' => ?_⟩
    · rw [harrival]
      exact Nat.lt_succ_self _
    · exact (h.arrivals r' hr').trans (Nat.lt_succ_self _)
  · show r' ∈ r :: s.arrived ↔ r' ∈ s.placed ∨ ∃ i, r' ∈ ((s.arrive r).flows i).waiting
    rw [List.mem_cons, h.known r']
    simp only [hmem]
    constructor
    · rintro (rfl | hp | ⟨i, hi⟩)
      · exact .inr ⟨_, .inr ⟨rfl, rfl⟩⟩
      · exact .inl hp
      · exact .inr ⟨i, .inl hi⟩
    · rintro (hp | ⟨i, hi | ⟨-, rfl⟩⟩)
      · exact .inr (.inl hp)
      · exact .inr (.inr ⟨i, hi⟩)
      · exact .inl rfl
  · exact (SharedFlow.subscribed_update SharedFlow.subscribed_tryEmit _).trans (h.collected r' hr')
  · obtain hl | hm | ⟨i, hi⟩ := hr'
    · exact h.live r' (.inl hl)
    · exact h.live r' (.inr (.inl hm))
    · obtain hi | ⟨-, rfl⟩ := (hmem i r').mp hi
      · exact h.live r' (.inr (.inr ⟨i, hi⟩))
      · exact hlive

theorem listed_arrive (h : s.Listed) (hlive : ∃ c ∈ s.connections, c.object = r.connection) :
    (s.arrive r).Listed := by
  obtain ⟨c, hc, hobject⟩ := hlive
  refine ⟨h.objects, fun i hi => ?_, h.le, h.last, h.replay, fun hnil i hi => ?_⟩
  · have hne : i ≠ r.connection := by
      rintro rfl
      exact absurd (h.objects c hc) (hobject.symm ▸ hi).not_gt
    exact (Function.update_of_ne hne ..).trans (h.made i hi)
  · exact (SharedFlow.subscribed_update SharedFlow.subscribed_tryEmit i).trans
      (h.collected hnil i hi)

/-- A request that arrives while a list waits is the first of its flow. -/
theorem ready_arrive (h : s.Ready) (hroom : s.HasRoom r.connection) (hw : s.lists.waiting ≠ []) :
    (s.arrive r).Ready := by
  intro i hi hsub
  by_cases hri : i = r.connection
  · subst hri
    have hreplay := hroom.2 (.inr hw)
    have hold := h r.connection hi ((SharedFlow.subscribed_update
      SharedFlow.subscribed_tryEmit _).symm.trans hsub)
    rw [hreplay] at hold
    rw [waiting_arrive_self hroom, ← List.append_assoc, flows_arrive, Function.update_self,
      SharedFlow.replay_tryEmit hroom.1]
    exact congrArg (· ++ [r]) hold
  · have hflow : (s.arrive r).flows i = s.flows i := Function.update_of_ne hri ..
    rw [hflow] at hsub ⊢
    exact h i hi hsub

theorem inv_receive {object : ℕ} {model : TonConnectMethodResponse} (h : s.Inv)
    (hc : s.Unhurried J (.receive object model)) (hs : s.receive J object model = some t) :
    t.Inv := by
  obtain rfl | ⟨r, rfl, harrival, hroom, hlive⟩ := receive_cases hc hs
  · exact h
  · exact ⟨placed_arrive h.placed harrival hroom hlive, listed_arrive h.listed hlive,
      fun hw => ready_arrive (h.ready hw) hroom hw⟩

/-! ## Connections -/

/-- The connection that goes has no request underway. -/
theorem live_eraseP {m : TonConnectManifestModel} (h : s.Placed) (hq : s.Quiet m)
    (hr : s.Underway r) :
    ∃ c ∈ s.connections.eraseP fun c => c.data.manifest = m, c.object = r.connection := by
  obtain ⟨c, hc, hobject⟩ := h.live r hr
  refine ⟨c, Distinct.mem_eraseP_of_not_found hc ?_, hobject⟩
  rintro _ hfind rfl
  obtain ⟨hchannels, hflow⟩ := hq c hfind
  obtain hl | hm | ⟨i, hi⟩ := hr
  · exact hchannels r (List.mem_append_left _ hl) hobject.symm
  · exact hchannels r (List.mem_append_right _ hm) hobject.symm
  · have hown := (h.own i r hi).1
    rw [hobject, hown] at hflow
    rw [hflow] at hi
    exact absurd hi List.not_mem_nil

theorem inv_deleteApp (h : s.Inv) (hq : s.Quiet d.manifest) : (s.deleteApp d).Inv := by
  obtain ⟨hp, hl, hready⟩ := h
  exact ⟨⟨hp.placed, hp.once, hp.own, hp.arrivals, hp.known, hp.collected,
    fun r hr => live_eraseP hp hq hr, hp.answered, hp.stale⟩,
    ⟨fun c hc => hl.objects c (List.mem_of_mem_eraseP hc), hl.made, hl.le, hl.last, hl.replay,
      hl.collected⟩, hready⟩

/-- The list with the new flow waits behind the others. -/
theorem inv_initTonConnection (h : s.Inv) (hroom : s.lists.Accepts flowCapacity)
    (hready : s.Ready) (hq : s.Quiet d.manifest) : (s.initTonConnection d).Inv := by
  obtain ⟨hp, hl, -⟩ := h
  have hwaiting := @SharedFlow.waiting_tryEmit_eq _ _ _ (s.created + 1) hroom
  have hpending : ∀ k ∈ s.lists.pending.getD [], k ≤ s.created := by
    intro k hk
    cases hlists : s.lists.pending with
    | none =>
      rw [hlists] at hk
      exact absurd hk List.not_mem_nil
    | some l =>
      rw [hlists] at hk
      exact hl.le k ((SharedFlow.waiting_of_pending hlists).symm ▸ hk)
  refine ⟨⟨hp.placed, hp.once, hp.own, hp.arrivals, hp.known, hp.collected, fun r hr => ?_,
    hp.answered, hp.stale⟩, ⟨List.forall_mem_append.mpr ⟨fun c hc => ?_, ?_⟩, fun i hi => ?_,
    fun k hk => ?_, fun k hk => ?_, ?_, fun hnil => ?_⟩, fun _ i hi hsub => ?_⟩
  · obtain ⟨c, hc, ho⟩ := live_eraseP hp hq hr
    exact ⟨c, List.mem_append_left _ hc, ho⟩
  · exact (hl.objects c (List.mem_of_mem_eraseP hc)).trans (Nat.lt_succ_self _)
  · exact List.forall_mem_singleton.mpr (Nat.lt_succ_self _)
  · exact hl.made i ((Nat.le_succ _).trans hi)
  · obtain hk | hk := List.mem_append.mp (hwaiting ▸ hk)
    · exact (hpending k hk).trans (Nat.le_succ _)
    · exact (List.mem_singleton.mp hk).le
  · have hlast : (s.lists.tryEmit flowCapacity (s.created + 1)).waiting.getLast? = some k := hk
    rw [hwaiting, List.getLast?_concat] at hlast
    exact (Option.some.inj hlast).symm
  · exact (SharedFlow.replay_tryEmit hroom).trans (if_neg (Nat.succ_ne_zero _)).symm
  · have hempty : (s.lists.tryEmit flowCapacity (s.created + 1)).waiting = [] := hnil
    rw [hwaiting] at hempty
    exact absurd hempty (List.append_ne_nil_of_right_ne_nil _ (List.cons_ne_nil _ _))
  · refine hready i ((Nat.lt_succ_iff_lt_or_eq.mp hi).resolve_right ?_) hsub
    rintro rfl
    have hnew : (s.flows s.created).pending.isSome := hsub
    rw [hl.made s.created le_rfl] at hnew
    cases hnew

/-! ## Collection -/

theorem inv_subscribe (h : s.Inv) (hnone : s.lists.pending = none) :
    Inv { s with lists := s.lists.subscribe } := by
  obtain ⟨hp, hl, hready⟩ := h
  have hwaiting : s.lists.subscribe.waiting = s.lists.waiting :=
    (SharedFlow.waiting_of_no_collector hnone).symm
  refine ⟨⟨hp.placed, hp.once, hp.own, hp.arrivals, hp.known, hp.collected, hp.live, hp.answered,
    hp.stale⟩, ⟨hl.objects, hl.made, ?_, ?_, hl.replay, ?_⟩, ?_⟩ <;> dsimp only <;> rw [hwaiting]
  · exact hl.le
  · exact hl.last
  · exact hl.collected
  · exact hready

/-- The collectors of the first `k` flows. -/
def collectors (s : Inbox) (k i : ℕ) : SharedFlow Request :=
  if i < k then (s.flows i).subscribe else (s.flows i).cancel

theorem subscribed_collectors {k i : ℕ} : (s.collectors k i).pending.isSome ↔ i < k := by
  unfold collectors
  split <;> simp_all [SharedFlow.subscribe, SharedFlow.cancel]

theorem waiting_collectors (k i : ℕ) : (s.collectors k i).waiting = (s.flows i).replay.toList := by
  unfold collectors
  split
  · exact SharedFlow.waiting_subscribe
  · exact SharedFlow.waiting_cancel

theorem replay_collectors (k i : ℕ) : (s.collectors k i).replay = (s.flows i).replay := by
  unfold collectors
  split <;> rfl

/-- Every flow repeats what was taken from it in vain, or waits in it. -/
theorem waiting_collected (h : s.Inv) (hready : s.Ready) (k i : ℕ) :
    (s.collectors k i).waiting
      = s.merged.filter (fun r => r.connection = i) ++ (s.flows i).waiting := by
  rw [waiting_collectors]
  cases hpending : (s.flows i).pending with
  | none =>
    have hnil : s.merged.filter (fun r => r.connection = i) = [] := by
      refine List.filter_eq_nil_iff.mpr fun r hr hri => ?_
      have hsome := h.placed.collected r hr
      rw [of_decide_eq_true hri, hpending] at hsome
      cases hsome
    rw [hnil, SharedFlow.waiting_of_no_collector hpending]
    rfl
  | some l =>
    have hlt : i < s.created := by
      by_contra hge
      rw [h.listed.made i (not_lt.mp hge)] at hpending
      cases hpending
    exact (hready i hlt (by rw [hpending]; rfl)).symm

/-- The requests of `merge` are back in their flows. -/
theorem placed_collectList {k : ℕ} {lists : SharedFlow ℕ} (h : s.Placed)
    (hwaiting : ∀ i, (s.collectors k i).waiting
      = s.merged.filter (fun r => r.connection = i) ++ (s.flows i).waiting) :
    Placed { s with lists := lists, flows := s.collectors k, merged := [] } := by
  have hmem : ∀ i r, r ∈ (s.collectors k i).waiting ↔
      r ∈ s.merged ∧ r.connection = i ∨ r ∈ (s.flows i).waiting := by
    intro i r
    rw [hwaiting, List.mem_append, List.mem_filter, decide_eq_true_iff]
  have hplaced := List.nodup_append.mp h.placed
  refine ⟨?_, fun i => ?_, fun i r hr => ?_, h.arrivals, fun r => ?_, ?_, fun r hr => ?_,
    h.answered, h.stale⟩
  · rw [placed, List.append_nil]
    exact hplaced.1
  · dsimp only
    rw [hwaiting]
    refine List.nodup_append.mpr ⟨hplaced.2.1.filter _, h.once i, ?_⟩
    rintro r hr _ hr' rfl
    exact (h.own i r hr').2 (List.mem_append_right _ (List.mem_of_mem_filter hr))
  · rw [placed, List.append_nil]
    obtain ⟨hm, hri⟩ | hw := (hmem i r).mp hr
    · exact ⟨hri, fun hpl => hplaced.2.2 r hpl r hm rfl⟩
    · obtain ⟨hri, hnot⟩ := h.own i r hw
      exact ⟨hri, fun hpl => hnot (List.mem_append_left _ hpl)⟩
  · rw [h.known r, placed, placed, List.append_nil, List.mem_append]
    simp only [hmem]
    constructor
    · rintro ((hpl | hm) | ⟨i, hi⟩)
      · exact .inl hpl
      · exact .inr ⟨r.connection, .inl ⟨hm, rfl⟩⟩
      · exact .inr ⟨i, .inr hi⟩
    · rintro (hpl | ⟨i, ⟨hm, -⟩ | hi⟩)
      · exact .inl (.inl hpl)
      · exact .inl (.inr hm)
      · exact .inr ⟨i, hi⟩
  · exact fun r hr => absurd hr List.not_mem_nil
  · obtain hlatest | hm | ⟨i, hi⟩ := hr
    · exact h.live r (.inl hlatest)
    · exact absurd hm List.not_mem_nil
    · obtain ⟨hm, -⟩ | hw := (hmem i r).mp hi
      · exact h.live r (.inr (.inl hm))
      · exact h.live r (.inr (.inr ⟨i, hw⟩))

theorem listed_collectList {k : ℕ} {lists : SharedFlow ℕ} (h : s.Listed)
    (hcollect : s.lists.collect = some (k, lists)) :
    Listed { s with lists := lists, flows := s.collectors k, merged := [] } := by
  obtain ⟨-, -, hlists, hreplay⟩ := SharedFlow.collect_eq_some hcollect
  have hk : k ≤ s.created := h.le k (hlists ▸ List.mem_cons_self)
  refine ⟨h.objects, fun i hi => ?_, fun k' hk' => ?_, fun k' hk' => ?_, ?_, fun hnil i hi => ?_⟩
  · dsimp only
    rw [collectors, if_neg (hk.trans hi).not_gt, h.made i hi]
    rfl
  · exact h.le k' (hlists ▸ List.mem_cons_of_mem k hk')
  · have hlast : lists.waiting.getLast? = some k' := hk'
    refine h.last k' ?_
    rw [hlists, List.getLast?_cons, hlast]
    rfl
  · exact hreplay.trans h.replay
  · refine subscribed_collectors.mpr ?_
    have hlast : k ∈ s.lists.waiting.getLast? := by
      rw [hlists, show lists.waiting = [] from hnil]
      rfl
    rwa [h.last k hlast]

/-- The flows that are collected anew have only their last request. -/
theorem ready_collectList {k : ℕ} {lists : SharedFlow ℕ} :
    Ready { s with lists := lists, flows := s.collectors k, merged := [] } := by
  intro i _ _
  dsimp only
  rw [waiting_collectors, replay_collectors]
  rfl

theorem inv_collectList (h : s.Inv) (hs : s.collectList = some t) : t.Inv := by
  obtain ⟨⟨k, lists⟩, hcollect, rfl⟩ := Option.map_eq_some_iff.mp hs
  obtain ⟨-, -, hlists, -⟩ := SharedFlow.collect_eq_some hcollect
  have hready := h.ready (hlists ▸ List.cons_ne_nil k lists.waiting)
  exact ⟨placed_collectList h.placed (waiting_collected h hready k),
    listed_collectList h.listed hcollect, fun _ => ready_collectList⟩

/-- A request gets on from its flow to `merge`. -/
theorem placed_collect {object : ℕ} {flow : SharedFlow Request} (h : s.Placed)
    (hcollect : (s.flows object).collect = some (r, flow)) :
    Placed { s with
      flows := Function.update s.flows object flow
      merged := s.merged ++ [r] } := by
  obtain ⟨hsome, hsome', hwaiting, -⟩ := SharedFlow.collect_eq_some hcollect
  have hfirst : r ∈ (s.flows object).waiting := hwaiting ▸ List.mem_cons_self
  obtain ⟨rfl, hnew⟩ := h.own object r hfirst
  have hrest := List.nodup_cons.mp (hwaiting ▸ h.once _)
  set flows := Function.update s.flows r.connection flow with hflows
  have hself : flows r.connection = flow := Function.update_self ..
  have hother : ∀ i ≠ r.connection, flows i = s.flows i := fun i hi => Function.update_of_ne hi ..
  have hsub : ∀ i, (flows i).pending.isSome = (s.flows i).pending.isSome :=
    SharedFlow.subscribed_update (hsome'.trans hsome.symm)
  have hmem : ∀ i r', r' ∈ (s.flows i).waiting ↔
      r' ∈ (flows i).waiting ∨ i = r.connection ∧ r' = r := by
    refine SharedFlow.mem_waiting_of_update fun r' => ?_
    rw [hwaiting, List.mem_cons]
    exact or_comm
  have hplaced : placed { s with flows := flows, merged := s.merged ++ [r] } = s.placed ++ [r] :=
    (List.append_assoc (s.presented ++ s.latest) s.merged [r]).symm
  refine ⟨?_, fun i => ?_, fun i r' hr' => ?_, h.arrivals, fun r' => ?_, fun r' hr' => ?_,
    fun r' hr' => ?_, h.answered, h.stale⟩
  · rw [hplaced]
    refine List.nodup_append.mpr ⟨h.placed, List.nodup_singleton r, ?_⟩
    rintro a ha b hb rfl
    exact hnew (List.mem_singleton.mp hb ▸ ha)
  · show (flows i).waiting.Nodup
    by_cases hi : i = r.connection
    · rw [hi, hself]
      exact hrest.2
    · rw [hother i hi]
      exact h.once i
  · have hlater : r' ∈ (flows i).waiting := hr'
    obtain ⟨hi, hnot⟩ := h.own i r' ((hmem i r').mpr (.inl hlater))
    rw [hplaced, List.mem_append, List.mem_singleton, not_or]
    refine ⟨hi, hnot, ?_⟩
    rintro rfl
    rw [← hi, hself] at hlater
    exact hrest.1 hlater
  · rw [hplaced, h.known r', List.mem_append, List.mem_singleton]
    simp only [hmem]
    constructor
    · rintro (hpl | ⟨i, hi | ⟨-, rfl⟩⟩)
      · exact .inl (.inl hpl)
      · exact .inr ⟨i, hi⟩
      · exact .inl (.inr rfl)
    · rintro ((hpl | rfl) | ⟨i, hi⟩)
      · exact .inl hpl
      · exact .inr ⟨_, .inr ⟨rfl, rfl⟩⟩
      · exact .inr ⟨i, .inl hi⟩
  · refine (hsub _).trans ?_
    obtain hm | hr' := List.mem_append.mp hr'
    · exact h.collected r' hm
    · rw [List.mem_singleton.mp hr']
      exact hsome
  · obtain hlatest | hm | ⟨i, hi⟩ := hr'
    · exact h.live r' (.inl hlatest)
    · obtain hm | hm := List.mem_append.mp hm
      · exact h.live r' (.inr (.inl hm))
      · rw [List.mem_singleton.mp hm]
        exact h.live r (.inr (.inr ⟨_, hfirst⟩))
    · exact h.live r' (.inr (.inr ⟨i, (hmem i r').mpr (.inl hi)⟩))

theorem listed_collect {object : ℕ} {flow : SharedFlow Request} (h : s.Listed)
    (hcollect : (s.flows object).collect = some (r, flow)) :
    Listed { s with
      flows := Function.update s.flows object flow
      merged := s.merged ++ [r] } := by
  obtain ⟨hsome, hsome', -, -⟩ := SharedFlow.collect_eq_some hcollect
  refine ⟨h.objects, fun i hi => ?_, h.le, h.last, h.replay, fun hnil i hi => ?_⟩
  · have hne : i ≠ object := by
      rintro rfl
      rw [h.made i hi] at hsome
      cases hsome
    exact (Function.update_of_ne hne ..).trans (h.made i hi)
  · exact (SharedFlow.subscribed_update (hsome'.trans hsome.symm) i).trans (h.collected hnil i hi)

/-- A request is behind those that `merge` has already taken from its flow. -/
theorem ready_collect {object : ℕ} {flow : SharedFlow Request} (h : s.Inv) (hready : s.Ready)
    (hcollect : (s.flows object).collect = some (r, flow)) :
    Ready { s with
      flows := Function.update s.flows object flow
      merged := s.merged ++ [r] } := by
  obtain ⟨hsome, -, hwaiting, hreplay⟩ := SharedFlow.collect_eq_some hcollect
  obtain ⟨hobject, -⟩ := h.placed.own object r (hwaiting ▸ List.mem_cons_self)
  intro i hi hsub
  dsimp only at hsub ⊢
  rw [List.filter_append, List.filter_singleton]
  by_cases hio : i = object
  · subst hio
    rw [Function.update_self, hreplay, ← hready i hi hsome, hwaiting, List.append_assoc,
      decide_eq_true hobject]
    rfl
  · have hne : ¬ r.connection = i := fun hri => hio (hri.symm.trans hobject)
    rw [Function.update_of_ne hio] at hsub ⊢
    rw [decide_eq_false hne, cond_false, List.append_nil]
    exact hready i hi hsub

theorem inv_collect {object : ℕ} (h : s.Inv) (hs : s.collect object = some t) : t.Inv := by
  obtain ⟨⟨r, flow⟩, hcollect, rfl⟩ := Option.map_eq_some_iff.mp hs
  exact ⟨placed_collect h.placed hcollect, listed_collect h.listed hcollect,
    fun hw => ready_collect h (h.ready hw) hcollect⟩

/-! ## Presentation -/

theorem inv_forward (h : s.Inv) (hw : s.lists.waiting = []) (hs : s.forward = some t) :
    t.Inv := by
  obtain ⟨hp, hl, -⟩ := h
  unfold forward at hs
  split at hs
  · rename_i r merged hmerged
    obtain rfl := Option.some.inj hs
    have hplaced : placed { s with merged := merged, latest := s.latest ++ [r] } = s.placed := by
      simp [placed, hmerged]
    refine ⟨⟨?_, hp.once, ?_, hp.arrivals, ?_, fun r' hr' => ?_, fun r' hr' => ?_, hp.answered,
      hp.stale⟩, ⟨hl.objects, hl.made, hl.le, hl.last, hl.replay, hl.collected⟩,
      fun hne => absurd hw hne⟩
    · rw [hplaced]
      exact hp.placed
    · rw [hplaced]
      exact hp.own
    · rw [hplaced]
      exact hp.known
    · exact hp.collected r' (hmerged ▸ List.mem_cons_of_mem r hr')
    · obtain hlatest | hm | hw := hr'
      · obtain hlatest | hr' := List.mem_append.mp hlatest
        · exact hp.live r' (.inl hlatest)
        · rw [List.mem_singleton.mp hr']
          exact hp.live r (.inr (.inl (hmerged ▸ List.mem_cons_self)))
      · exact hp.live r' (.inr (.inl (hmerged ▸ List.mem_cons_of_mem r hm)))
      · exact hp.live r' (.inr (.inr hw))
  · cases hs

/-- The slot is empty, and the connection of the request is live. -/
theorem inv_present (h : s.Inv) (hempty : s.transferRequest = none) (hs : s.present = some t) :
    t.Inv := by
  obtain ⟨hp, hl, hready⟩ := h
  unfold present at hs
  split at hs
  · rename_i r latest hlatest
    have hlive := hp.live r (.inl (hlatest ▸ List.mem_cons_self))
    rw [if_pos hlive] at hs
    obtain rfl := Option.some.inj hs
    have hplaced : s.presented ++ [r] ++ latest ++ s.merged = s.placed := by
      simp [placed, hlatest]
    refine ⟨⟨?_, hp.once, ?_, hp.arrivals, ?_, hp.collected, fun r' hr' => ?_, ?_, hp.stale⟩,
      ⟨hl.objects, hl.made, hl.le, hl.last, hl.replay, hl.collected⟩, hready⟩
    · rw [placed, hplaced]
      exact hp.placed
    · rw [placed, hplaced]
      exact hp.own
    · rw [placed, hplaced]
      exact hp.known
    · obtain hl' | hm | hw := hr'
      · exact hp.live r' (.inl (hlatest ▸ List.mem_cons_of_mem r hl'))
      · exact hp.live r' (.inr (.inl hm))
      · exact hp.live r' (.inr (.inr hw))
    · refine List.forall_mem_append.mpr ⟨fun r' hr' => ?_, List.forall_mem_singleton.mpr (.inl rfl)⟩
      obtain hslot | hanswered := hp.answered r' hr'
      · rw [hempty] at hslot
        cases hslot
      · exact .inr hanswered
  · cases hs

theorem inv_onBottomSheetDismiss (h : s.Inv) : s.onBottomSheetDismiss.Inv := by
  obtain ⟨hp, hl, hready⟩ := h
  refine ⟨⟨hp.placed, hp.once, hp.own, hp.arrivals, hp.known, hp.collected, hp.live, fun r hr => ?_,
    hp.stale⟩, ⟨hl.objects, hl.made, hl.le, hl.last, hl.replay, hl.collected⟩, hready⟩
  refine .inr (List.mem_append.mpr ?_)
  obtain hslot | hanswered := hp.answered r hr
  · exact .inl (Option.mem_toList.mpr hslot)
  · exact .inr hanswered

theorem inv_start : Inv {} := by
  refine ⟨⟨List.nodup_nil, fun _ => List.nodup_nil, ?_, ?_, fun r => ⟨?_, ?_⟩, ?_, ?_, ?_, rfl⟩,
    ⟨?_, fun _ _ => rfl, ?_, ?_, rfl, ?_⟩, fun hne => absurd rfl hne⟩
  · exact fun _ r hr => absurd hr List.not_mem_nil
  · exact fun r hr => absurd hr List.not_mem_nil
  · exact fun hr => absurd hr List.not_mem_nil
  · rintro (hr | ⟨_, hr⟩) <;> exact absurd hr List.not_mem_nil
  · exact fun r hr => absurd hr List.not_mem_nil
  · rintro r (hr | hr | ⟨_, hr⟩) <;> exact absurd hr List.not_mem_nil
  · exact fun r hr => absurd hr List.not_mem_nil
  · exact fun c hc => absurd hc List.not_mem_nil
  · exact fun k hk => absurd hk List.not_mem_nil
  · rintro k ⟨⟩
  · exact fun _ i hi => absurd hi (Nat.not_lt_zero i)

theorem inv_step {a : InboxAction} (h : s.Inv) (hc : s.Unhurried J a) (hs : s.step J a = some t) :
    t.Inv := by
  cases a with
  | receive object model => exact inv_receive h hc hs
  | initTonConnection data =>
    obtain rfl := Option.some.inj hs
    exact inv_initTonConnection h hc.1 hc.2.1 hc.2.2
  | deleteApp data =>
    obtain rfl := Option.some.inj hs
    exact inv_deleteApp h hc
  | subscribe =>
    dsimp only [step] at hs
    split_ifs at hs with hnone
    obtain rfl := Option.some.inj hs
    exact inv_subscribe h hnone
  | collectList => exact inv_collectList h hs
  | collect object => exact inv_collect h hs
  | forward => exact inv_forward h hc hs
  | present => exact inv_present h hc hs
  | onBottomSheetDismiss =>
    obtain rfl := Option.some.inj hs
    exact inv_onBottomSheetDismiss h

/-! ## Completion -/

/-- What is left to do: lists to collect, and steps that the requests have to take. -/
def toDo (s : Inbox) : ℕ × ℕ :=
  (s.lists.waiting.length + (if s.lists.pending.isSome then 0 else 1),
    4 * ∑ i ∈ Finset.range s.created, (s.flows i).waiting.length + 3 * s.merged.length +
      2 * s.latest.length + s.transferRequest.toList.length)

/-- A list that waits is collected, if need be after the view model has started to. -/
theorem getsOn_list (J : Json) (hw : s.lists.waiting ≠ []) :
    ∃ a t, InboxAction.GetsOn a ∧ s.Unhurried J a ∧ s.step J a = some t ∧
      t.arrived = s.arrived ∧ t.toDo.1 < s.toDo.1 := by
  obtain ⟨k, hk⟩ := List.exists_mem_of_ne_nil _ hw
  cases hlists : s.lists.pending with
  | none =>
    refine ⟨.subscribe, { s with lists := s.lists.subscribe }, trivial, trivial, if_pos hlists, rfl,
      ?_⟩
    show s.lists.subscribe.waiting.length + 0
      < s.lists.waiting.length + (if s.lists.pending.isSome then 0 else 1)
    rw [SharedFlow.waiting_subscribe, ← SharedFlow.waiting_of_no_collector hlists, hlists]
    exact Nat.lt_succ_self _
  | some l =>
    have hsome : s.lists.pending.isSome := by rw [hlists]; rfl
    obtain ⟨⟨k, lists⟩, hcollect⟩ :=
      Option.isSome_iff_exists.mp (SharedFlow.collect_isSome hk hsome)
    obtain ⟨-, hsome', hwaiting, -⟩ := SharedFlow.collect_eq_some hcollect
    refine ⟨.collectList, { s with lists := lists, flows := s.collectors k, merged := [] }, trivial,
      trivial, Option.map_eq_some_iff.mpr ⟨_, hcollect, rfl⟩, rfl, ?_⟩
    show lists.waiting.length + (if lists.pending.isSome then 0 else 1)
      < s.lists.waiting.length + (if s.lists.pending.isSome then 0 else 1)
    rw [if_pos hsome, if_pos hsome', hwaiting]
    exact Nat.lt_succ_self _

/-- While no list waits, all flows are collected, and the first request of the last stage that has
any gets on. -/
theorem getsOn_request (J : Json) (h : s.Inv) (hw : s.lists.waiting = []) (hr : r ∈ s.arrived)
    (hnew : r ∉ s.presented) :
    ∃ a t, InboxAction.GetsOn a ∧ s.Unhurried J a ∧ s.step J a = some t ∧
      t.arrived = s.arrived ∧ t.toDo.1 = s.toDo.1 ∧ t.toDo.2 < s.toDo.2 := by
  cases hslot : s.transferRequest with
  | some q =>
    refine ⟨.onBottomSheetDismiss, _, trivial, trivial, rfl, rfl, rfl, ?_⟩
    simp only [toDo, onBottomSheetDismiss, hslot, Option.toList_none, Option.toList_some,
      List.length_nil, List.length_singleton]
    omega
  | none =>
  cases hlatest : s.latest with
  | cons q latest =>
    have hstep : s.step J .present = some { s with
        latest := latest
        transferRequest := some q
        presented := s.presented ++ [q]
        stale := if ∃ c ∈ s.connections, c.object = q.connection then s.stale
          else q :: s.stale } := by
      rw [step, present, hlatest]
    refine ⟨.present, _, trivial, hslot, hstep, rfl, rfl, ?_⟩
    simp only [toDo, hslot, hlatest, Option.toList_none, Option.toList_some, List.length_cons,
      List.length_nil]
    omega
  | nil =>
  cases hmerged : s.merged with
  | cons q merged =>
    have hstep : s.step J .forward =
        some { s with merged := merged, latest := s.latest ++ [q] } := by
      rw [step, forward, hmerged]
    refine ⟨.forward, _, trivial, hw, hstep, rfl, rfl, ?_⟩
    simp only [toDo, hslot, hlatest, hmerged, List.length_cons, List.nil_append, List.length_nil]
    omega
  | nil =>
    -- Nothing is in the channels, so the request is still in its flow.
    obtain hplaced | ⟨i, hi⟩ := (h.placed.known r).mp hr
    · rw [placed, hlatest, hmerged, List.append_nil, List.append_nil] at hplaced
      exact absurd hplaced hnew
    have hlt : i < s.created := by
      by_contra hge
      rw [h.listed.made i (not_lt.mp hge)] at hi
      exact absurd hi List.not_mem_nil
    obtain ⟨⟨q, flow⟩, hcollect⟩ := Option.isSome_iff_exists.mp
      (SharedFlow.collect_isSome hi (h.listed.collected hw i hlt))
    obtain ⟨-, -, hwaiting, -⟩ := SharedFlow.collect_eq_some hcollect
    have hless : ∑ j ∈ Finset.range s.created, (Function.update s.flows i flow j).waiting.length
        < ∑ j ∈ Finset.range s.created, (s.flows j).waiting.length := by
      refine Finset.sum_lt_sum (fun j _ => ?_) ⟨i, Finset.mem_range.mpr hlt, ?_⟩
      · by_cases hji : j = i
        · rw [hji, Function.update_self, hwaiting]
          exact Nat.le_succ _
        · rw [Function.update_of_ne hji]
      · rw [Function.update_self, hwaiting]
        exact Nat.lt_succ_self _
    refine ⟨.collect i, _, trivial, trivial, Option.map_eq_some_iff.mpr ⟨_, hcollect, rfl⟩, rfl,
      rfl, ?_⟩
    simp only [toDo, hmerged, List.nil_append, List.length_singleton, List.length_nil]
    omega

/-- Every request that has arrived gets to `transferRequest`, and no other steps are needed. -/
theorem completable_of_inv (J : Json) {s : Inbox} (h : s.Inv) : s.Completable J := by
  by_cases hdone : ∀ r ∈ s.arrived, r ∈ s.presented
  · refine ⟨[], s, fun a ha => absurd ha List.not_mem_nil, trivial, rfl, fun r hr => ?_⟩
    exact List.count_eq_one_of_mem (presentedOnce_of_inv h).once (hdone r hr)
  · push Not at hdone
    obtain ⟨r, hr, hnew⟩ := hdone
    obtain ⟨a, t, hon, hc, hs, harrived, hless⟩ : ∃ a t, InboxAction.GetsOn a ∧
        s.Unhurried J a ∧ s.step J a = some t ∧ t.arrived = s.arrived ∧
        Prod.Lex (· < ·) (· < ·) t.toDo s.toDo := by
      by_cases hw : s.lists.waiting = []
      · obtain ⟨a, t, hon, hc, hs, harrived, heq, hless⟩ := getsOn_request J h hw hr hnew
        exact ⟨a, t, hon, hc, hs, harrived, Prod.lex_iff.mpr (.inr ⟨heq, hless⟩)⟩
      · obtain ⟨a, t, hon, hc, hs, harrived, hless⟩ := getsOn_list J hw
        exact ⟨a, t, hon, hc, hs, harrived, Prod.lex_iff.mpr (.inl hless)⟩
    obtain ⟨as, u, hons, hg, hrun, hall⟩ := completable_of_inv J (inv_step h hc hs)
    refine ⟨a :: as, u, List.forall_mem_cons.mpr ⟨hon, hons⟩, fun t' ht' => ?_, ?_, fun q hq => ?_⟩
    · obtain rfl := Option.some.inj (hs.symm.trans ht')
      exact ⟨hc, hg⟩
    · rw [Machine.run_cons, hs]
      exact hrun
    · exact hall q (harrived ▸ hq)
termination_by s.toDo
decreasing_by exact hless

/-- **Presented once.** Along a run without haste every request is placed in `transferRequest` once
at most, stays there until it is answered, and comes from a connection that is live; and wherever
the run has got to, it can be continued until every request has been placed there once. -/
theorem presented_once (J : Json) (as : List InboxAction)
    (h : Machine.Guarded (step J) (Unhurried J) {} as) :
    Machine.Always (step J) (fun s => s.PresentedOnce ∧ s.Completable J) {} as :=
  Machine.always_of_guarded (I := Inv) (fun _ _ _ h hc hs => inv_step h hc hs)
    (fun _ h => ⟨presentedOnce_of_inv h, completable_of_inv J h⟩) inv_start h

/-! ## A new connection -/

/-- A call of the dApp. -/
def sampleModel : TonConnectMethodResponse where
  id := 7
  method := Encoding.text "sendTransaction"
  params := [sampleParams]

/-- Another dApp. -/
def otherConnection : TonConnectConnectionData :=
  { sampleConnection with
    manifest := { sampleConnection.manifest with url := Encoding.text "https://other" }
    id := Encoding.hexEncode (sampleSodium.publicKey [4]) }

/-- Another dApp is connected while the first request of the one before is in its flow; each is
presented and answered, and one more. -/
def answeredAll : List InboxAction :=
  [.initTonConnection sampleConnection, .subscribe, .collectList, .receive 0 sampleModel,
    .initTonConnection otherConnection, .collectList, .collect 0, .receive 1 sampleModel, .forward,
    .present, .collect 1, .forward, .onBottomSheetDismiss, .present, .onBottomSheetDismiss,
    .receive 0 sampleModel, .collect 0, .forward, .present, .onBottomSheetDismiss,
    .deleteApp sampleConnection]

theorem presented_once_answered :
    Machine.Always (step sampleJson) (fun s => s.PresentedOnce ∧ s.Completable sampleJson) {}
      answeredAll :=
  presented_once sampleJson answeredAll (by decide +kernel)

/-- A request is answered, and another dApp is connected. -/
def connectedAfter : List InboxAction :=
  [.initTonConnection sampleConnection, .subscribe, .collectList, .receive 0 sampleModel,
    .collect 0, .forward, .present, .onBottomSheetDismiss, .initTonConnection otherConnection,
    .collectList, .collect 0, .forward, .present]

/-- The request is presented again. -/
theorem presented_again :
    ¬ Machine.Always (step sampleJson) (fun s => s.PresentedOnce ∧ s.Completable sampleJson) {}
      connectedAfter := by
  have hrun : (Machine.run (step sampleJson) {} connectedAfter).any
      (fun s => ¬ s.presented.Nodup) = true := by
    decide +kernel
  obtain ⟨s, hs, h⟩ := (Option.any_eq_true ..).mp hrun
  exact Machine.not_always_of_run hs fun hp => of_decide_eq_true h hp.1.once

end Inbox

end TonWallet.TonConnect
