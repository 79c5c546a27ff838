import TonWallet.TonConnect.Presented

/-!
# A prompt collector

The manager of `Manager.lean` has no flows: its events wait in one list, and a
new connection starts the list over at once. It is the inbox whose collectors are
prompt. Every step of the manager is a run of the inbox, from a state in which
only the channel of `merge` holds events to another such state.

* `prompt_step`, `prompt_run`: the manager's steps, and its runs.
* `prompt_present`: the first event of the list gets into `transferRequest`.
-/

namespace TonWallet.TonConnect

open Encoding

/-- What the events of a connection depend on. -/
def Connection.identity (c : Connection) : ℕ × TonConnectConnectionData := (c.object, c.data)

/-- A flow whose collector has everything. -/
def collectedFlow (replay : Option Request) : SharedFlow Request :=
  { replay := replay, pending := some [] }

namespace Inbox

/-- All flows are collected, and all their events are in the channel of `merge`. -/
structure Prompt (s : Inbox) (m : Manager) : Prop where
  connections : s.connections.map Connection.identity = m.connections.map Connection.identity
  created : s.created = m.created
  arrived : s.arrived.length = m.arrived
  objects : ∀ c ∈ m.connections, c.object < m.created
  fresh : ∀ i, m.created ≤ i → m.replay i = none
  flows : ∀ i, s.flows i = if i < m.created then collectedFlow (m.replay i) else {}
  lists : s.lists.pending = some []
  merged : s.merged = m.pending
  latest : s.latest = []

variable {J : Json} {s : Inbox} {m n : Manager} {object : ℕ}

/-! ## Connections -/

theorem find_object_map (l : List Connection) (object : ℕ) :
    (l.find? fun c => c.object = object).map Connection.identity
      = (l.map Connection.identity).find? fun p => p.1 = object := by
  rw [List.find?_map]
  rfl

theorem eraseP_manifest_map (l : List Connection) (manifest : TonConnectManifestModel) :
    (l.eraseP fun c => c.data.manifest = manifest).map Connection.identity
      = (l.map Connection.identity).eraseP fun p => p.2.manifest = manifest := by
  rw [List.eraseP_map]
  rfl

/-- The live connection of a number has the same data on both sides. -/
theorem Prompt.find_object {c : Connection} (h : Prompt s m)
    (hc : m.connections.find? (fun c => c.object = object) = some c) :
    ∃ c', s.connections.find? (fun c => c.object = object) = some c' ∧ c'.data = c.data := by
  have hmap : (s.connections.find? fun c => c.object = object).map Connection.identity
      = some c.identity := by
    rw [find_object_map, h.connections, ← find_object_map, hc, Option.map_some]
  obtain ⟨c', hc', hidentity⟩ := Option.map_eq_some_iff.mp hmap
  exact ⟨c', hc', congrArg Prod.snd hidentity⟩

theorem Prompt.connections_eraseP (h : Prompt s m) (manifest : TonConnectManifestModel) :
    (s.connections.eraseP fun c => c.data.manifest = manifest).map Connection.identity
      = (m.connections.eraseP fun c => c.data.manifest = manifest).map Connection.identity := by
  rw [eraseP_manifest_map, h.connections, eraseP_manifest_map]

theorem Prompt.replay (h : Prompt s m) (i : ℕ) : (s.flows i).replay = m.replay i := by
  rw [h.flows]
  split
  · rfl
  · exact (h.fresh i (not_lt.mp ‹_›)).symm

/-! ## Arrival -/

theorem collect_prompt {replay : Option Request} {r : Request} :
    ((collectedFlow replay).tryEmit flowCapacity r).collect = some (r, collectedFlow (some r)) :=
  rfl

theorem prompt_receive {model : TonConnectMethodResponse} (h : Prompt s m)
    (hm : m.receive J object model = some n) :
    ∃ as t, Machine.run (step J) s as = some t ∧ Prompt t n := by
  obtain ⟨c, hc, rfl⟩ := Option.map_eq_some_iff.mp hm
  obtain ⟨c', hc', hdata⟩ := h.find_object hc
  have hlt : object < m.created := by
    have hobject : c.object = object := by simpa using List.find?_some hc
    exact hobject ▸ h.objects c (List.mem_of_find?_eq_some hc)
  cases hr : requestOf J m.arrived object c.data model with
  | none =>
    have hreceive : s.receive J object model = some s := by
      rw [receive, hc', Option.map_some, h.arrived, hdata, hr]
    refine ⟨[.receive object model], s, ?_, h⟩
    rw [Machine.run_cons, step, hreceive]
    rfl
  | some r =>
    have hreceive : s.receive J object model = some
        { s with
          arrived := r :: s.arrived
          flows := Function.update s.flows object ((s.flows object).tryEmit flowCapacity r) } := by
      rw [receive, hc', Option.map_some, h.arrived, hdata, hr]
    have hflow : s.flows object = collectedFlow (m.replay object) := by rw [h.flows, if_pos hlt]
    refine ⟨[.receive object model, .collect object],
      { s with
        arrived := r :: s.arrived
        flows := Function.update s.flows object (collectedFlow (some r))
        merged := s.merged ++ [r] }, ?_, ?_⟩
    · rw [Machine.run_cons, step, hreceive, Option.bind_some, Machine.run_cons, step, collect]
      simp only [Function.update_self, hflow, collect_prompt, Option.map_some, Option.bind_some,
        Machine.run_nil, Function.update_idem]
    · refine ⟨h.connections, h.created, congrArg Nat.succ h.arrived, h.objects, fun i hi => ?_,
        fun i => ?_, h.lists, congrArg (· ++ [r]) h.merged, h.latest⟩
      · exact (Function.update_of_ne (hlt.trans_le hi).ne' ..).trans (h.fresh i hi)
      · by_cases hi : i = object
        · subst hi
          simp only [Function.update_self, if_pos hlt]
        · simp only [Function.update_of_ne hi]
          exact h.flows i

/-! ## A new connection -/

/-- The last events of the first `k` flows have been collected. -/
def repeated (s : Inbox) (k : ℕ) : Inbox :=
  { s with
    flows := fun i => if i < k then collectedFlow (s.flows i).replay else s.flows i
    merged := s.merged ++ (List.range k).filterMap fun i => (s.flows i).replay }

theorem flows_repeated (s : Inbox) (k i : ℕ) :
    (s.repeated k).flows i = if i < k then collectedFlow (s.flows i).replay else s.flows i := rfl

theorem repeated_zero : s.repeated 0 = s := by
  simp [repeated]

theorem repeated_succ (s : Inbox) (k : ℕ) :
    s.repeated (k + 1) =
      { s with
        flows := Function.update (s.repeated k).flows k (collectedFlow (s.flows k).replay)
        merged := (s.repeated k).merged ++ (s.flows k).replay.toList } := by
  have hflows : (s.repeated (k + 1)).flows
      = Function.update (s.repeated k).flows k (collectedFlow (s.flows k).replay) := by
    funext i
    by_cases hi : i = k
    · subst hi
      rw [Function.update_self, flows_repeated, if_pos (Nat.lt_succ_self i)]
    · have hlt : i < k + 1 ↔ i < k := by omega
      rw [Function.update_of_ne hi]
      simp only [flows_repeated, hlt]
  have hmerged : (s.repeated (k + 1)).merged
      = (s.repeated k).merged ++ (s.flows k).replay.toList := by
    simp only [repeated, List.range_succ, List.filterMap_append, List.append_assoc]
    cases hr : (s.flows k).replay with
    | none => simp [hr]
    | some r => simp [hr]
  rw [← hflows, ← hmerged]
  rfl

/-- New collectors get the last events of their flows, one flow after the other. -/
theorem run_repeated (J : Json) (s : Inbox) (k : ℕ)
    (hsub : ∀ i < k, s.flows i = (s.flows i).subscribe) :
    ∃ as, Machine.run (step J) s as = some (s.repeated k) := by
  induction k with
  | zero => exact ⟨[], congrArg some repeated_zero.symm⟩
  | succ k ih =>
    obtain ⟨as, has⟩ := ih fun i hi => hsub i (hi.trans (Nat.lt_succ_self k))
    have hflow : (s.repeated k).flows k = (s.flows k).subscribe := by
      rw [flows_repeated, if_neg (lt_irrefl k)]
      exact hsub k (Nat.lt_succ_self k)
    rw [repeated_succ]
    cases hr : (s.flows k).replay with
    | none =>
      have hself : collectedFlow none = (s.repeated k).flows k := by
        rw [hflow, SharedFlow.subscribe, hr]
        rfl
      refine ⟨as, ?_⟩
      rw [has, hself, Function.update_eq_self]
      simp [repeated]
    | some r =>
      have hcollect : ((s.repeated k).flows k).collect = some (r, collectedFlow (some r)) := by
        rw [hflow, SharedFlow.subscribe, hr]
        rfl
      refine ⟨as ++ [.collect k], ?_⟩
      rw [Machine.run_append, has, Option.bind_some, Machine.run_cons, step, collect, hcollect]
      rfl

/-- The collector takes the new list at once. -/
theorem run_newList (J : Json) (h : Prompt s m) (d : TonConnectConnectionData) :
    ∃ lists, lists.pending = some [] ∧
      Machine.run (step J) s [.initTonConnection d, .collectList] = some
        { s.initTonConnection d with
          lists := lists
          flows := s.collectors (m.created + 1)
          merged := [] } := by
  have hroom : s.lists.Accepts flowCapacity := by
    intro l hl
    rw [h.lists] at hl
    obtain rfl := Option.some.inj hl
    exact Nat.succ_pos 1
  have hlists : (s.initTonConnection d).lists
      = { replay := some (m.created + 1), pending := some [m.created + 1] } := by
    rw [initTonConnection, SharedFlow.tryEmit, if_pos hroom, h.lists, h.created]
    rfl
  refine ⟨{ replay := some (m.created + 1), pending := some [] }, rfl, ?_⟩
  rw [Machine.run_cons, step, Option.bind_some, Machine.run_cons, step, collectList, hlists]
  rfl

theorem prompt_initTonConnection (J : Json) (h : Prompt s m) (d : TonConnectConnectionData) :
    ∃ as t, Machine.run (step J) s as = some t ∧ Prompt t (m.initTonConnection d) := by
  obtain ⟨lists, hpending, hrun⟩ := run_newList J h d
  set u : Inbox :=
    { s.initTonConnection d with
      lists := lists
      flows := s.collectors (m.created + 1)
      merged := [] }
  have hreplay : ∀ i, (u.flows i).replay = m.replay i :=
    fun i => (replay_collectors (m.created + 1) i).trans (h.replay i)
  obtain ⟨as, has⟩ := run_repeated J u (m.created + 1) fun i hi => by
    show s.collectors (m.created + 1) i = (s.collectors (m.created + 1) i).subscribe
    rw [collectors, if_pos hi]
    rfl
  refine ⟨[.initTonConnection d, .collectList] ++ as, u.repeated (m.created + 1), ?_, ?_⟩
  · rw [Machine.run_append, hrun]
    exact has
  · refine ⟨?_, congrArg Nat.succ h.created, h.arrived, ?_, fun i hi => ?_, fun i => ?_, hpending,
      ?_, h.latest⟩
    · show List.map Connection.identity (_ ++ _) = List.map Connection.identity (_ ++ _)
      rw [List.map_append, List.map_append, h.connections_eraseP, h.created]
    · refine List.forall_mem_append.mpr ⟨fun c hc => ?_, ?_⟩
      · exact (h.objects c (List.mem_of_mem_eraseP hc)).trans (Nat.lt_succ_self _)
      · exact List.forall_mem_singleton.mpr (Nat.lt_succ_self _)
    · exact h.fresh i ((Nat.le_succ _).trans hi)
    · rw [flows_repeated, hreplay]
      by_cases hi : i < m.created + 1
      · exact (if_pos hi).trans (if_pos hi).symm
      · have hnew : s.flows i = {} := by
          rw [h.flows, if_neg fun hlt => hi (hlt.trans (Nat.lt_succ_self _))]
        have hcancel : u.flows i = {} := by
          show s.collectors (m.created + 1) i = {}
          rw [collectors, if_neg hi, hnew]
          rfl
        rw [if_neg hi, hcancel]
        exact (if_neg hi).symm
    · show [] ++ (List.range (m.created + 1)).filterMap (fun i => (u.flows i).replay)
        = (List.range m.created).filterMap m.replay
      have hnew : [m.created].filterMap m.replay = [] :=
        List.filterMap_cons_none (h.fresh m.created le_rfl)
      rw [List.nil_append, funext hreplay, List.range_succ, List.filterMap_append, hnew,
        List.append_nil]

/-! ## Runs -/

theorem prompt_deleteApp (h : Prompt s m) (d : TonConnectConnectionData) :
    Prompt (s.deleteApp d) (m.deleteApp d) :=
  ⟨h.connections_eraseP d.manifest, h.created, h.arrived,
    fun c hc => h.objects c (List.mem_of_mem_eraseP hc), h.fresh, h.flows, h.lists, h.merged,
    h.latest⟩

/-- The inbox does not count the messages of the wallet. -/
theorem prompt_count (h : Prompt s m) (object : ℕ) : Prompt s (m.count object) := by
  have hidentity : (m.count object).connections.map Connection.identity
      = m.connections.map Connection.identity := by
    rw [Manager.count, List.map_map]
    refine List.map_congr_left fun c _ => ?_
    rw [Function.comp_apply]
    split <;> rfl
  refine ⟨h.connections.trans hidentity.symm, h.created, h.arrived, fun c hc => ?_, h.fresh,
    h.flows, h.lists, h.merged, h.latest⟩
  obtain ⟨c', hc', rfl⟩ := List.mem_map.mp hc
  have hobject := h.objects c' hc'
  split
  · exact hobject
  · exact hobject

/-- A step of the manager is a run of the inbox. -/
theorem prompt_step {a : ManagerAction} (h : Prompt s m) (hm : m.step J a = some n) :
    ∃ as t, Machine.run (step J) s as = some t ∧ Prompt t n := by
  cases a with
  | receive object model => exact prompt_receive h hm
  | initTonConnection data =>
    obtain rfl := Option.some.inj hm
    exact prompt_initTonConnection J h data
  | sendApproveRequest object =>
    obtain rfl := Option.some.inj hm
    exact ⟨[], s, rfl, prompt_count h object⟩
  | deleteApp data =>
    obtain rfl := Option.some.inj hm
    exact ⟨[.deleteApp data], s.deleteApp data, rfl, prompt_deleteApp h data⟩

/-- Every run of the manager is a run of the inbox, once the view model is made. -/
theorem prompt_run {as : List ManagerAction} (h : Prompt s m)
    (hm : Machine.run (Manager.step J) m as = some n) :
    ∃ bs t, Machine.run (step J) s bs = some t ∧ Prompt t n := by
  induction as generalizing s m with
  | nil =>
    obtain rfl := Option.some.inj hm
    exact ⟨[], s, rfl, h⟩
  | cons a as ih =>
    obtain ⟨m', hm', hrest⟩ := Option.bind_eq_some_iff.mp hm
    obtain ⟨bs, s', hbs, h'⟩ := prompt_step h hm'
    obtain ⟨cs, t, hcs, ht⟩ := ih h' hrest
    refine ⟨bs ++ cs, t, ?_, ht⟩
    rw [Machine.run_append, hbs]
    exact hcs

theorem prompt_start (J : Json) :
    ∃ s, Machine.run (step J) {} [.subscribe] = some s ∧ Prompt s {} := by
  refine ⟨_, rfl, rfl, rfl, rfl, ?_, fun _ _ => rfl, fun i => ?_, rfl, rfl, rfl⟩
  · exact fun c hc => absurd hc List.not_mem_nil
  · exact (if_neg (Nat.not_lt_zero i)).symm

/-- The first event that waits gets into `transferRequest`, and the manager loses it. -/
theorem prompt_present {r : Request} {rest : List Request} (J : Json) (h : Prompt s m)
    (hr : m.pending = r :: rest) :
    ∃ t, Machine.run (step J) s [.forward, .present] = some t ∧ t.transferRequest = some r ∧
      Prompt t { m with pending := rest } := by
  have hmerged : s.merged = r :: rest := h.merged.trans hr
  have hforward : s.forward = some { s with merged := rest, latest := [r] } := by
    rw [forward, hmerged, h.latest]
    rfl
  obtain ⟨t, ht⟩ : ∃ t, present { s with merged := rest, latest := [r] } = some t := ⟨_, rfl⟩
  refine ⟨t, ?_, ?_⟩
  · rw [Machine.run_cons, step, hforward, Option.bind_some, Machine.run_cons, step, ht]
    rfl
  · obtain rfl := Option.some.inj ht
    exact ⟨rfl, h.connections, h.created, h.arrived, h.objects, h.fresh, h.flows, h.lists, rfl, rfl⟩

end Inbox

end TonWallet.TonConnect
