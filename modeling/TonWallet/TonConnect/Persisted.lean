import TonWallet.Lib.Jobs
import TonWallet.TonConnect.Registry

/-!
# Live and stored connections

The live connections are kept by manifest, the stored ones are written by
manifest and removed by client id, and the coroutines that write them run in any
order. As long as no two of them are about the same dApp, and no two dApps have
the same id, the two lists agree whenever no coroutine is left.

* `agreement_perm`: the order of the coroutines does not matter.
* `agreement_approve` … `agreement_deleted`: one lemma for every step.
* `persisted_of_undisputed`: the runs along which the lists agree.
* `revived_connection`: a deleted dApp that is stored after all.
-/

namespace TonWallet.TonConnect

open Encoding Storage Distinct

/-- What identifies a connection: the manifest, the client id and the keys. -/
def entry (d : TonConnectConnectionData) :
    TonConnectManifestModel × Text × TonConnectConnectionKeyData :=
  (d.manifest, d.id, d.key)

theorem entry_manifest {d e : TonConnectConnectionData} (h : entry d = entry e) :
    d.manifest = e.manifest := (Prod.mk.inj h).1

theorem entry_id {d e : TonConnectConnectionData} (h : entry d = entry e) : d.id = e.id :=
  (Prod.mk.inj (Prod.mk.inj h).2).1

/-! ## Agreement at rest -/

/-- The live connections are the stored ones, one for a dApp, and none is one of a deleted dApp. -/
structure Persisted (r : Registry) : Prop where
  same : ∀ t, t ∈ r.connections.map (fun c => entry c.data) ↔ t ∈ r.manifests.map entry
  once : (r.connections.map fun c => c.data.manifest).Nodup
  onceStored : (r.manifests.map fun d => d.manifest).Nodup
  notDeleted : ∀ d ∈ r.connections.map Connection.data ++ r.manifests, d.manifest ∉ r.deleted

/-- The connections agree once all coroutines have ended. -/
def PersistedAtRest (r : Registry) : Prop := r.jobs = [] → Persisted r

/-- The connection a coroutine writes or removes. -/
def Job.target : Job → Option TonConnectConnectionData
  | .saveManifest data => some data
  | .delete data _ => some data
  | .init _ => none

/-- The dApp a coroutine is about; the one that starts the connections is about all. -/
def Job.manifest (j : Job) : Option TonConnectManifestModel := j.target.map fun d => d.manifest

namespace Registry

/-- No coroutine is about the dApp. -/
def Idle (r : Registry) (m : TonConnectManifestModel) : Prop :=
  ∀ j ∈ r.jobs, j.manifest ≠ none ∧ j.manifest ≠ some m

/-- All connections that are live, stored, or about to be written or removed. -/
def records (r : Registry) : List TonConnectConnectionData :=
  r.connections.map Connection.data ++ r.manifests ++ r.jobs.filterMap Job.target

/-- A dApp is approved or deleted only while no coroutine is about it, with an id that no other
dApp has; it is deleted with the id it was approved with, to which a message can be encrypted;
and the process is not stopped while a dApp is being deleted. -/
def Undisputed (r : Registry) : RegistryAction → Prop
  | .approve d _ => r.Idle d.manifest ∧ ∀ e ∈ r.records, e.id = d.id → e.manifest = d.manifest
  | .delete d => r.Idle d.manifest ∧ (∀ e ∈ r.records, e.id = d.id ↔ e.manifest = d.manifest) ∧
      (hexDecode d.id).isOk
  | .restart => ∀ j ∈ r.jobs, ∀ d ∈ j.target, j = .saveManifest d
  | _ => True

instance (r : Registry) (a : RegistryAction) : Decidable (r.Undisputed a) := by
  cases a <;> dsimp only [Undisputed, Idle] <;> infer_instance

end Registry

/-! ## The invariant -/

/-- The part of the state in which the connections are: the live ones with their numbers, the
stored ones, and the deleted dApps. -/
structure View where
  live : List (ℕ × TonConnectConnectionData)
  stored : List TonConnectConnectionData
  deleted : List TonConnectManifestModel

def Registry.view (r : Registry) : View where
  live := r.connections.map fun c => (c.object, c.data)
  stored := r.manifests
  deleted := r.deleted

/-- The live and the stored connections of a dApp agree. -/
structure View.AgreeOn (v : View) (m : TonConnectManifestModel) : Prop where
  stored : ∀ x ∈ v.live, x.2.manifest = m → ∃ d ∈ v.stored, entry d = entry x.2
  live : ∀ d ∈ v.stored, d.manifest = m → ∃ x ∈ v.live, entry x.2 = entry d

/-- A dApp no coroutine is about. -/
structure View.Settled (v : View) (m : TonConnectManifestModel) : Prop where
  agree : v.AgreeOn m
  gone : m ∈ v.deleted → ∀ x ∈ v.live, x.2.manifest ≠ m

/-- What is stored of the dApp of `d` has the id of `d`. -/
def View.StoredAs (v : View) (d : TonConnectConnectionData) : Prop :=
  ∀ e ∈ v.stored, e.manifest = d.manifest → e.id = d.id

/-- What holds of the connections of a dApp while a coroutine is about it. -/
def View.Underway (v : View) : Job → Prop
  | .saveManifest d => (∃ x ∈ v.live, entry x.2 = entry d) ∧ d.manifest ∉ v.deleted
  | .delete d .launched => v.AgreeOn d.manifest ∧ v.StoredAs d ∧ (hexDecode d.id).isOk
  | .delete d (.declined object) =>
    (∃ x ∈ v.live, x.1 = object ∧ x.2.manifest = d.manifest) ∧ v.StoredAs d
  | .delete d .removed => (∀ x ∈ v.live, x.2.manifest ≠ d.manifest) ∧ v.StoredAs d
  | .init _ => False

/-- All connections of a view and of its coroutines. -/
def View.records (v : View) (jobs : List Job) : List TonConnectConnectionData :=
  v.live.map Prod.snd ++ v.stored ++ jobs.filterMap Job.target

/-- The connections as a whole: one for a dApp, and no id for two dApps. -/
structure View.Shape (v : View) (created : ℕ) (jobs : List Job) : Prop where
  objects : (v.live.map Prod.fst).Nodup
  fresh : ∀ x ∈ v.live, x.1 < created
  liveOnce : (v.live.map fun x => x.2.manifest).Nodup
  storedOnce : (v.stored.map fun d => d.manifest).Nodup
  ids : ∀ d ∈ v.records jobs, ∀ e ∈ v.records jobs, d.id = e.id → d.manifest = e.manifest

/-- No coroutine is about the dApp `m`, and all are fine with the other dApps. -/
structure View.Others (v : View) (jobs : List Job) (m : TonConnectManifestModel) : Prop where
  apart : ∀ j ∈ jobs, j.manifest ≠ some m
  jobsOnce : (jobs.map Job.manifest).Nodup
  underway : ∀ j ∈ jobs, v.Underway j
  settled : ∀ m' ≠ m, (∀ j ∈ jobs, j.manifest ≠ some m') → v.Settled m'

/-- The invariant of a process that has started its connections. -/
structure View.Agreement (v : View) (created : ℕ) (jobs : List Job) : Prop where
  shape : v.Shape created jobs
  jobsOnce : (jobs.map Job.manifest).Nodup
  underway : ∀ j ∈ jobs, v.Underway j
  settled : ∀ m, (∀ j ∈ jobs, j.manifest ≠ some m) → v.Settled m

/-- Two views have the same connections of a dApp. -/
structure View.SameOn (v v' : View) (m : TonConnectManifestModel) : Prop where
  live : ∀ x, x.2.manifest = m → (x ∈ v'.live ↔ x ∈ v.live)
  stored : ∀ d, d.manifest = m → (d ∈ v'.stored ↔ d ∈ v.stored)
  deleted : m ∈ v'.deleted ↔ m ∈ v.deleted

variable {v v' : View} {created : ℕ} {jobs jobs' : List Job} {j : Job}
  {m : TonConnectManifestModel} {d : TonConnectConnectionData} {x : ℕ × TonConnectConnectionData}

theorem mem_records {e : TonConnectConnectionData} : e ∈ v.records jobs ↔
    (∃ x ∈ v.live, x.2 = e) ∨ e ∈ v.stored ∨ ∃ j ∈ jobs, j.target = some e := by
  rw [View.records, List.mem_append, List.mem_append, List.mem_map, List.mem_filterMap, or_assoc]

/-- No connection is new. -/
theorem records_subset (hl : ∀ x ∈ v'.live, x ∈ v.live)
    (hs : ∀ e ∈ v'.stored, e ∈ v.stored ∨ ∃ j ∈ jobs, j.target = some e)
    (hj : ∀ j ∈ jobs', ∃ k ∈ jobs, k.target = j.target) :
    ∀ e ∈ v'.records jobs', e ∈ v.records jobs := by
  intro e he
  obtain ⟨x, hx, he⟩ | he | ⟨j, hmem, ht⟩ := mem_records.mp he
  · exact mem_records.mpr (.inl ⟨x, hl x hx, he⟩)
  · exact mem_records.mpr (.inr (hs e he))
  · obtain ⟨k, hk, hkj⟩ := hj j hmem
    exact mem_records.mpr (.inr (.inr ⟨k, hk, hkj.trans ht⟩))

/-! ## One dApp at a time -/

theorem View.AgreeOn.congr (hs : v.SameOn v' m) (h : v.AgreeOn m) : v'.AgreeOn m where
  stored x hx hm := by
    obtain ⟨d, hd, he⟩ := h.stored x ((hs.live x hm).mp hx) hm
    exact ⟨d, (hs.stored d ((entry_manifest he).trans hm)).mpr hd, he⟩
  live d hd hm := by
    obtain ⟨x, hx, he⟩ := h.live d ((hs.stored d hm).mp hd) hm
    exact ⟨x, (hs.live x ((entry_manifest he).trans hm)).mpr hx, he⟩

theorem View.Settled.congr (hs : v.SameOn v' m) (h : v.Settled m) : v'.Settled m where
  agree := h.agree.congr hs
  gone hm x hx he := h.gone (hs.deleted.mp hm) x ((hs.live x he).mp hx) he

theorem View.StoredAs.congr (hs : v.SameOn v' d.manifest) (h : v.StoredAs d) : v'.StoredAs d :=
  fun e he hm => h e ((hs.stored e hm).mp he) hm

/-- A coroutine looks at the connections of its own dApp only. -/
theorem View.Underway.congr (hj : j.manifest = some m) (hs : v.SameOn v' m) (h : v.Underway j) :
    v'.Underway j := by
  match j with
  | .saveManifest d =>
    obtain rfl := Option.some.inj hj
    obtain ⟨⟨x, hx, he⟩, hd⟩ := h
    exact ⟨⟨x, (hs.live x (entry_manifest he)).mpr hx, he⟩, fun hm => hd (hs.deleted.mp hm)⟩
  | .delete d .launched =>
    obtain rfl := Option.some.inj hj
    obtain ⟨hagree, hstored, hkey⟩ := h
    exact ⟨hagree.congr hs, hstored.congr hs, hkey⟩
  | .delete d (.declined object) =>
    obtain rfl := Option.some.inj hj
    obtain ⟨⟨x, hx, ho, hm⟩, hstored⟩ := h
    exact ⟨⟨x, (hs.live x hm).mpr hx, ho, hm⟩, hstored.congr hs⟩
  | .delete d .removed =>
    obtain rfl := Option.some.inj hj
    obtain ⟨hlive, hstored⟩ := h
    exact ⟨fun x hx hm => hlive x ((hs.live x hm).mp hx) hm, hstored.congr hs⟩
  | .init _ => cases hj

/-- The connections of one dApp may change if no coroutine is about it. -/
theorem View.Others.congr (hs : ∀ m' ≠ m, v.SameOn v' m') (h : v.Others jobs m) :
    v'.Others jobs m where
  apart := h.apart
  jobsOnce := h.jobsOnce
  underway j hj := by
    cases hm : j.manifest with
    | none =>
      have hinit := h.underway j hj
      match j with
      | .init _ => exact absurd hinit id
      | .saveManifest _ => cases hm
      | .delete _ _ => cases hm
    | some m' =>
      have hne : m' ≠ m := fun he => h.apart j hj (hm.trans (congrArg some he))
      exact (h.underway j hj).congr hm (hs m' hne)
  settled m' hne hm := (h.settled m' hne hm).congr (hs m' hne)

/-- The other coroutines, and the other dApps. -/
theorem View.Agreement.others (h : v.Agreement created (j :: jobs)) (hj : j.manifest = some m) :
    v.Others jobs m where
  apart k hk he := (List.nodup_cons.mp h.jobsOnce).1 (hj.trans he.symm ▸ List.mem_map_of_mem hk)
  jobsOnce := (List.nodup_cons.mp h.jobsOnce).2
  underway k hk := h.underway k (List.mem_cons_of_mem j hk)
  settled m' hne hm := by
    refine h.settled m' (List.forall_mem_cons.mpr ⟨fun he => ?_, hm⟩)
    exact hne (Option.some.inj (he.symm.trans hj))

theorem View.Agreement.others_of_idle (h : v.Agreement created jobs)
    (hm : ∀ j ∈ jobs, j.manifest ≠ some m) : v.Others jobs m :=
  ⟨hm, h.jobsOnce, h.underway, fun m' _ => h.settled m'⟩

/-- A coroutine about the dApp is launched, or goes on. -/
theorem View.Others.cons (h : v.Others jobs m) (hshape : v.Shape created (j :: jobs))
    (hj : j.manifest = some m) (hunderway : v.Underway j) : v.Agreement created (j :: jobs) where
  shape := hshape
  jobsOnce := by
    refine List.nodup_cons.mpr ⟨fun hmem => ?_, h.jobsOnce⟩
    obtain ⟨k, hk, he⟩ := List.mem_map.mp hmem
    exact h.apart k hk (he.trans hj)
  underway := List.forall_mem_cons.mpr ⟨hunderway, h.underway⟩
  settled m' hm := by
    obtain ⟨hne, hm⟩ := List.forall_mem_cons.mp hm
    exact h.settled m' (fun he => hne (hj.trans (congrArg some he.symm))) hm

/-- The coroutine about the dApp has ended. -/
theorem View.Others.settle (h : v.Others jobs m) (hshape : v.Shape created jobs)
    (hm : v.Settled m) : v.Agreement created jobs where
  shape := hshape
  jobsOnce := h.jobsOnce
  underway := h.underway
  settled m' hm' := by
    by_cases he : m' = m
    · exact he ▸ hm
    · exact h.settled m' he hm'

theorem View.Shape.subset {created' : ℕ} (h : v.Shape created jobs) (hl : v'.live.Sublist v.live)
    (hs : (v'.stored.map fun d => d.manifest).Nodup) (hc : created ≤ created')
    (hr : ∀ e ∈ v'.records jobs', e ∈ v.records jobs) : v'.Shape created' jobs' where
  objects := h.objects.sublist (hl.map _)
  fresh x hx := (h.fresh x (hl.subset hx)).trans_le hc
  liveOnce := h.liveOnce.sublist (hl.map _)
  storedOnce := hs
  ids d hd e he := h.ids d (hr d hd) e (hr e he)

/-- The order of the coroutines does not matter. -/
theorem agreement_perm (h : v.Agreement created jobs) (hp : jobs.Perm jobs') :
    v.Agreement created jobs' where
  shape := by
    refine h.shape.subset (List.Sublist.refl _) h.shape.storedOnce le_rfl ?_
    exact records_subset (fun _ hx => hx) (fun _ he => .inl he)
      fun j hj => ⟨j, hp.mem_iff.mpr hj, rfl⟩
  jobsOnce := (hp.map _).nodup_iff.mp h.jobsOnce
  underway j hj := h.underway j (hp.mem_iff.mpr hj)
  settled m hm := h.settled m fun j hj => hm j (hp.mem_iff.mp hj)

/-- A connection is added whose id is no other dApp's. -/
theorem View.Shape.ids_insert {l : List TonConnectConnectionData} (h : v.Shape created jobs)
    (hids : ∀ e ∈ v.records jobs, e.id = d.id → e.manifest = d.manifest)
    (hl : ∀ e ∈ l, e ∈ v.records jobs ∨ e = d) :
    ∀ e ∈ l, ∀ e' ∈ l, e.id = e'.id → e.manifest = e'.manifest := by
  intro e he e' he' hid
  obtain hmem | rfl := hl e he <;> obtain hmem' | rfl := hl e' he'
  · exact h.ids e hmem e' hmem' hid
  · exact hids e hmem hid
  · exact (hids e' hmem' hid.symm).symm
  · rfl

/-! ## The steps -/

/-- The connection takes the place of the one of its dApp. -/
def View.replace (v : View) (created : ℕ) (d : TonConnectConnectionData) : View :=
  { v with live := v.live.eraseP (fun x => x.2.manifest = d.manifest) ++ [(created, d)] }

/-- It is approved, too. -/
def View.approve (v : View) (created : ℕ) (d : TonConnectConnectionData) : View :=
  { v.replace created d with deleted := v.deleted.filter (· ≠ d.manifest) }

theorem mem_replace (h : v.Shape created jobs) :
    x ∈ (v.replace created d).live ↔
      x ∈ v.live ∧ x.2.manifest ≠ d.manifest ∨ x = (created, d) := by
  have hlive : x ∈ v.live.eraseP (fun y => y.2.manifest = d.manifest) ↔
      x ∈ v.live ∧ x.2.manifest ≠ d.manifest := mem_eraseP_iff h.liveOnce
  rw [View.replace, List.mem_append, List.mem_singleton, hlive]

/-- The id of a new connection is no other dApp's. -/
theorem shape_replace (h : v.Shape created jobs)
    (hids : ∀ e ∈ v.records jobs, e.id = d.id → e.manifest = d.manifest)
    (hj : ∀ j ∈ jobs', j ∈ jobs ∨ j.target = some d) :
    (v.replace created d).Shape (created + 1) jobs' := by
  have hsub : (v.live.eraseP fun x => x.2.manifest = d.manifest).Sublist v.live :=
    List.eraseP_sublist
  have hrecords : ∀ e ∈ (v.replace created d).records jobs', e ∈ v.records jobs ∨ e = d := by
    intro e he
    obtain ⟨x, hx, rfl⟩ | he | ⟨j, hj', he⟩ := mem_records.mp he
    · obtain ⟨hx, -⟩ | rfl := (mem_replace h).mp hx
      · exact .inl (mem_records.mpr (.inl ⟨x, hx, rfl⟩))
      · exact .inr rfl
    · exact .inl (mem_records.mpr (.inr (.inl he)))
    · obtain hj' | hd := hj j hj'
      · exact .inl (mem_records.mpr (.inr (.inr ⟨j, hj', he⟩)))
      · exact .inr (Option.some.inj (he.symm.trans hd))
  refine ⟨?_, ?_, ?_, h.storedOnce, h.ids_insert hids hrecords⟩
  · exact nodup_map_replace h.objects hsub fun x hx => (h.fresh x (hsub.subset hx)).ne
  · intro x hx
    obtain ⟨hx, -⟩ | rfl := (mem_replace h).mp hx
    · exact (h.fresh x hx).trans (Nat.lt_succ_self created)
    · exact Nat.lt_succ_self created
  · exact nodup_map_replace h.liveOnce hsub fun x hx => ((mem_eraseP_iff h.liveOnce).mp hx).2

theorem agreement_approve (h : v.Agreement created jobs)
    (hidle : ∀ j ∈ jobs, j.manifest ≠ some d.manifest)
    (hids : ∀ e ∈ v.records jobs, e.id = d.id → e.manifest = d.manifest) :
    (v.approve created d).Agreement (created + 1) (.saveManifest d :: jobs) := by
  have hsame : ∀ m ≠ d.manifest, v.SameOn (v.approve created d) m := by
    refine fun m hm => ⟨fun x hx => ?_, fun _ _ => Iff.rfl, ?_⟩
    · refine (mem_replace h.shape).trans ?_
      constructor
      · rintro (⟨hx, -⟩ | rfl)
        · exact hx
        · exact absurd hx.symm hm
      · exact fun hx' => .inl ⟨hx', fun he => hm (hx.symm.trans he)⟩
    · simp [View.approve, hm]
  have hshape : (v.replace created d).Shape (created + 1) (.saveManifest d :: jobs) := by
    refine shape_replace h.shape hids fun j hj => ?_
    obtain rfl | hj := List.mem_cons.mp hj
    · exact .inr rfl
    · exact .inl hj
  refine ((h.others_of_idle hidle).congr hsame).cons
    ⟨hshape.objects, hshape.fresh, hshape.liveOnce, hshape.storedOnce, hshape.ids⟩ rfl
    ⟨⟨(created, d), (mem_replace h.shape).mpr (.inr rfl), rfl⟩, ?_⟩
  simp [View.approve]

theorem agreement_saved (h : v.Agreement created (.saveManifest d :: jobs)) :
    View.Agreement { v with stored := saveManifest v.stored d } created jobs := by
  obtain ⟨⟨x, hx, he⟩, hdeleted⟩ := h.underway _ List.mem_cons_self
  have hone : ∀ y ∈ v.live, y.2.manifest = d.manifest → y = x := fun y hy hm =>
    List.inj_on_of_nodup_map h.shape.liveOnce hy hx (hm.trans (entry_manifest he).symm)
  have hsame : ∀ m ≠ d.manifest,
      v.SameOn { v with stored := saveManifest v.stored d } m := by
    refine fun m hm => ⟨fun _ _ => Iff.rfl, fun e hme => ?_, Iff.rfl⟩
    rw [mem_saveManifest]
    constructor
    · rintro (⟨hmem, -⟩ | rfl)
      · exact hmem
      · exact absurd hme.symm hm
    · exact fun hmem => .inl ⟨hmem, fun hd => hm (hme.symm.trans hd)⟩
  refine ((h.others rfl).congr hsame).settle ?_ ⟨⟨?_, ?_⟩, fun hm => absurd hm hdeleted⟩
  · refine h.shape.subset (List.Sublist.refl _) ?_ le_rfl
      (records_subset (fun _ hx => hx) (fun e he => ?_)
        fun j hj => ⟨j, List.mem_cons_of_mem _ hj, rfl⟩)
    · refine nodup_map_replace h.shape.storedOnce List.filter_sublist fun e he => ?_
      simpa using (List.mem_filter.mp he).2
    · obtain ⟨hstored, -⟩ | rfl := mem_saveManifest.mp he
      · exact .inl hstored
      · exact .inr ⟨_, List.mem_cons_self, rfl⟩
  · intro y hy hm
    obtain rfl := hone y hy hm
    exact ⟨d, mem_saveManifest.mpr (.inr rfl), he.symm⟩
  · intro e hmem hm
    obtain ⟨-, hne⟩ | rfl := mem_saveManifest.mp hmem
    · exact absurd hm hne
    · exact ⟨x, hx, he⟩

theorem agreement_delete (h : v.Agreement created jobs)
    (hidle : ∀ j ∈ jobs, j.manifest ≠ some d.manifest)
    (hids : ∀ e ∈ v.records jobs, e.id = d.id ↔ e.manifest = d.manifest)
    (hkey : (hexDecode d.id).isOk) :
    View.Agreement { v with deleted := d.manifest :: v.deleted } created
      (.delete d .launched :: jobs) := by
  have hsame : ∀ m ≠ d.manifest,
      v.SameOn { v with deleted := d.manifest :: v.deleted } m :=
    fun m hm => ⟨fun _ _ => Iff.rfl, fun _ _ => Iff.rfl, by simp [hm]⟩
  refine ((h.others_of_idle hidle).congr hsame).cons ?_ rfl
    ⟨⟨(h.settled _ hidle).agree.stored, (h.settled _ hidle).agree.live⟩, fun e he hm => ?_, hkey⟩
  · refine ⟨h.shape.objects, h.shape.fresh, h.shape.liveOnce, h.shape.storedOnce,
      h.shape.ids_insert (fun e he => (hids e he).mp) fun e he => ?_⟩
    obtain hlive | hstored | ⟨j, hj, ht⟩ := mem_records.mp he
    · exact .inl (mem_records.mpr (.inl hlive))
    · exact .inl (mem_records.mpr (.inr (.inl hstored)))
    · obtain rfl | hj := List.mem_cons.mp hj
      · exact .inr (Option.some.inj ht).symm
      · exact .inl (mem_records.mpr (.inr (.inr ⟨j, hj, ht⟩)))
  · exact (hids e (mem_records.mpr (.inr (.inl he)))).mpr hm

/-- The coroutine of a removal goes on, and only removes live connections of its dApp. -/
theorem View.Agreement.advance {stage stage' : DeleteStage}
    (h : v.Agreement created (.delete d stage :: jobs)) (hl : v'.live.Sublist v.live)
    (hrest : ∀ x ∈ v.live, x.2.manifest ≠ d.manifest → x ∈ v'.live)
    (hstored : v'.stored = v.stored) (hdeleted : v'.deleted = v.deleted)
    (hunderway : v'.Underway (.delete d stage')) :
    v'.Agreement created (.delete d stage' :: jobs) := by
  have hsame : ∀ m ≠ d.manifest, v.SameOn v' m := by
    refine fun m hm => ⟨fun x hx => ⟨fun hmem => hl.subset hmem, fun hmem => ?_⟩, ?_, ?_⟩
    · exact hrest x hmem fun he => hm (hx.symm.trans he)
    · exact fun _ _ => by rw [hstored]
    · rw [hdeleted]
  have hrecords : ∀ e ∈ v'.records (.delete d stage' :: jobs),
      e ∈ v.records (.delete d stage :: jobs) := by
    refine records_subset (fun x hx => hl.subset hx) (fun e he => .inl (hstored ▸ he)) ?_
    refine List.forall_mem_cons.mpr ⟨⟨_, List.mem_cons_self, rfl⟩, fun j hj => ?_⟩
    exact ⟨j, List.mem_cons_of_mem _ hj, rfl⟩
  have honce : (v'.stored.map fun d => d.manifest).Nodup := hstored ▸ h.shape.storedOnce
  exact ((h.others rfl).congr hsame).cons (h.shape.subset hl honce le_rfl hrecords) rfl hunderway

theorem agreement_declined (h : v.Agreement created (.delete d .launched :: jobs)) (hx : x ∈ v.live)
    (hm : x.2.manifest = d.manifest) :
    v.Agreement created (.delete d (.declined x.1) :: jobs) := by
  obtain ⟨-, hstored, -⟩ := h.underway _ List.mem_cons_self
  exact h.advance (List.Sublist.refl _) (fun _ hy _ => hy) rfl rfl ⟨⟨x, hx, rfl, hm⟩, hstored⟩

theorem agreement_absent (h : v.Agreement created (.delete d .launched :: jobs))
    (hlive : ∀ x ∈ v.live, x.2.manifest ≠ d.manifest) :
    v.Agreement created (.delete d .removed :: jobs) := by
  obtain ⟨-, hstored, -⟩ := h.underway _ List.mem_cons_self
  exact h.advance (List.Sublist.refl _) (fun _ hy _ => hy) rfl rfl ⟨hlive, hstored⟩

theorem agreement_removed {object : ℕ}
    (h : v.Agreement created (.delete d (.declined object) :: jobs)) :
    View.Agreement { v with live := v.live.eraseP fun x => x.1 = object } created
      (.delete d .removed :: jobs) := by
  obtain ⟨⟨x, hx, rfl, hm⟩, hstored⟩ := h.underway _ List.mem_cons_self
  have hmem : ∀ y, y ∈ v.live.eraseP (fun z => z.1 = x.1) ↔ y ∈ v.live ∧ y.1 ≠ x.1 :=
    fun y => mem_eraseP_iff h.shape.objects
  refine h.advance List.eraseP_sublist (fun y hy hne => ?_) rfl rfl ⟨fun y hy hym => ?_, hstored⟩
  · refine (hmem y).mpr ⟨hy, fun ho => hne ?_⟩
    rw [List.inj_on_of_nodup_map h.shape.objects hy hx ho, hm]
  · obtain ⟨hy, ho⟩ := (hmem y).mp hy
    have hyx := List.inj_on_of_nodup_map h.shape.liveOnce hy hx (hym.trans hm.symm)
    exact ho (congrArg Prod.fst hyx)

theorem agreement_deleted (h : v.Agreement created (.delete d .removed :: jobs)) :
    View.Agreement { v with stored := deleteConnection v.stored d } created jobs := by
  obtain ⟨hlive, hstored⟩ := h.underway _ List.mem_cons_self
  have hd : d ∈ v.records (.delete d .removed :: jobs) :=
    mem_records.mpr (.inr (.inr ⟨_, List.mem_cons_self, rfl⟩))
  have hsame : ∀ m ≠ d.manifest, v.SameOn { v with stored := deleteConnection v.stored d } m := by
    refine fun m hm => ⟨fun _ _ => Iff.rfl, fun e he => ?_, Iff.rfl⟩
    rw [mem_deleteConnection]
    refine ⟨fun hmem => hmem.1, fun hmem => ⟨hmem, fun hid => hm ?_⟩⟩
    rw [← he]
    exact h.shape.ids e (mem_records.mpr (.inr (.inl hmem))) d hd hid
  refine ((h.others rfl).congr hsame).settle ?_
    ⟨⟨fun x hx hm => absurd hm (hlive x hx), fun e he hm => ?_⟩, fun _ => hlive⟩
  · refine h.shape.subset (List.Sublist.refl _)
      (h.shape.storedOnce.sublist (List.filter_sublist.map _)) le_rfl ?_
    exact records_subset (fun _ hx => hx) (fun e he => .inl (mem_deleteConnection.mp he).1)
      fun j hj => ⟨j, List.mem_cons_of_mem _ hj, rfl⟩
  · obtain ⟨hmem, hne⟩ := mem_deleteConnection.mp he
    exact absurd (hstored e hmem hm) hne

/-! ## The start of the process -/

/-- What a new process finds in the storage: one connection for a dApp, none of a deleted one. -/
structure View.Startable (v : View) : Prop where
  storedOnce : (v.stored.map fun d => d.manifest).Nodup
  ids : ∀ d ∈ v.stored, ∀ e ∈ v.stored, d.id = e.id → d.manifest = e.manifest
  notDeleted : ∀ d ∈ v.stored, d.manifest ∉ v.deleted

/-- Some of the stored connections are live. -/
structure View.Started (v : View) (created : ℕ) : Prop where
  shape : v.Shape created []
  stored : ∀ x ∈ v.live, ∃ e ∈ v.stored, entry e = entry x.2

/-- A process has no coroutine on its way but the one that starts the connections, or it has
started them. -/
inductive View.Fit (v : View) (created : ℕ) : List Job → Prop where
  | running {jobs : List Job} : v.Agreement created jobs → v.Fit created jobs
  | starting {read : Option (List TonConnectConnectionData)} : v.live = [] → v.Startable →
      (∀ l ∈ read, l.map entry = v.stored.map entry) → v.Fit created [.init read]

/-- A connection of the storage becomes live, and what was live stays so. -/
theorem started_replace (h : v.Started created) (hd : ∃ e ∈ v.stored, entry e = entry d) :
    (v.replace created d).Started (created + 1) ∧
      (∃ x ∈ (v.replace created d).live, entry x.2 = entry d) ∧
      ∀ x ∈ v.live, ∃ y ∈ (v.replace created d).live, entry y.2 = entry x.2 := by
  obtain ⟨e, he, hed⟩ := hd
  have hnew : (created, d) ∈ (v.replace created d).live := (mem_replace h.shape).mpr (.inr rfl)
  refine ⟨⟨shape_replace h.shape (fun e' he' hid => ?_) (fun j hj => .inl hj), fun x hx => ?_⟩,
    ⟨_, hnew, rfl⟩, fun x hx => ?_⟩
  · have hmem : e ∈ v.records [] := mem_records.mpr (.inr (.inl he))
    rw [h.shape.ids e' he' e hmem (hid.trans (entry_id hed).symm), entry_manifest hed]
  · obtain ⟨hx, -⟩ | rfl := (mem_replace h.shape).mp hx
    · exact h.stored x hx
    · exact ⟨e, he, hed⟩
  · by_cases hm : x.2.manifest = d.manifest
    · obtain ⟨e', he', hex⟩ := h.stored x hx
      have hmanifest : e'.manifest = e.manifest :=
        (entry_manifest hex).trans (hm.trans (entry_manifest hed).symm)
      obtain rfl := List.inj_on_of_nodup_map h.shape.storedOnce he' he hmanifest
      exact ⟨_, hnew, hed.symm.trans hex⟩
    · exact ⟨x, (mem_replace h.shape).mpr (.inl ⟨hx, hm⟩), rfl⟩

namespace Registry

variable {r t : Registry} {a : RegistryAction}

theorem view_initTonConnection : (r.initTonConnection d).view = r.view.replace r.created d := by
  have hlive : (r.initTonConnection d).view.live = (r.view.replace r.created d).live := by
    simp only [view, initTonConnection, new, View.replace, List.map_append, List.map_cons,
      List.map_nil, List.eraseP_map]
    rfl
  exact congrArg (fun live => { r.view with live := live }) hlive

/-- `initTonConnectConnections` makes all connections live that it has read. -/
theorem started_foldl {read : List TonConnectConnectionData} (h : r.view.Started r.created)
    (hread : ∀ d ∈ read, ∃ e ∈ r.manifests, entry e = entry d) :
    let t := read.foldl initTonConnection r
    (t.view.Started t.created ∧ t.manifests = r.manifests ∧ t.deleted = r.deleted) ∧
      t.jobs = r.jobs ∧ (∀ d ∈ read, ∃ x ∈ t.view.live, entry x.2 = entry d) ∧
      ∀ x ∈ r.view.live, ∃ y ∈ t.view.live, entry y.2 = entry x.2 := by
  induction read generalizing r with
  | nil => exact ⟨⟨h, rfl, rfl⟩, rfl, fun d hd => absurd hd List.not_mem_nil,
      fun x hx => ⟨x, hx, rfl⟩⟩
  | cons d read ih =>
    obtain ⟨hd, hread⟩ := List.forall_mem_cons.mp hread
    obtain ⟨hstarted, hnew, hkept⟩ := started_replace h hd
    rw [← view_initTonConnection] at hstarted hnew hkept
    obtain ⟨hend, hjobs, hall, hstay⟩ := @ih (r.initTonConnection d) hstarted hread
    refine ⟨hend, hjobs, List.forall_mem_cons.mpr ⟨?_, hall⟩, fun x hx => ?_⟩
    · obtain ⟨x, hx, he⟩ := hnew
      obtain ⟨y, hy, he'⟩ := hstay x hx
      exact ⟨y, hy, he'.trans he⟩
    · obtain ⟨y, hy, he⟩ := hkept x hx
      obtain ⟨z, hz, he'⟩ := hstay y hy
      exact ⟨z, hz, he'.trans he⟩

/-- The invariant of the state. -/
def Fit (r : Registry) : Prop := r.view.Fit r.created r.jobs

theorem fit_of_eq (h : r.Fit) (hv : t.view = r.view) (hc : r.created ≤ t.created)
    (hj : t.jobs = r.jobs) : t.Fit := by
  unfold Fit at h ⊢
  rw [hv, hj]
  generalize r.jobs = jobs at h
  cases h with
  | running h =>
    refine .running ⟨?_, h.jobsOnce, h.underway, h.settled⟩
    exact h.shape.subset (List.Sublist.refl _) h.shape.storedOnce hc fun _ he => he
  | starting hlive hstart hread => exact .starting hlive hstart hread

/-- A message changes no more than the counter of its connection. -/
theorem view_send {c : Connection} : (r.send c).view = r.view := by
  have hlive : (r.send c).view.live = r.view.live := by
    simp only [view, send, List.map_map]
    refine List.map_congr_left fun c' _ => ?_
    dsimp only [Function.comp]
    split <;> rfl
  exact congrArg (fun live => { r.view with live := live }) hlive

theorem view_sendRequest {c : Connection} : (r.sendRequest c).view = r.view ∧
    (r.sendRequest c).created = r.created ∧ (r.sendRequest c).jobs = r.jobs := by
  rw [sendRequest]
  split
  · exact ⟨view_send, rfl, rfl⟩
  · exact ⟨rfl, rfl, rfl⟩

theorem fit_sendRequest {c : Connection} (h : r.Fit) : (r.sendRequest c).Fit := by
  obtain ⟨hv, hc, hj⟩ := @view_sendRequest r c
  exact fit_of_eq h hv hc.ge hj

theorem running_of_idle {m : TonConnectManifestModel} (h : r.Fit) (hidle : r.Idle m) :
    r.view.Agreement r.created r.jobs := by
  unfold Fit at h
  generalize hjobs : r.jobs = jobs at h
  cases h with
  | running h => exact h
  | starting =>
    have hinit := (hidle (.init _) (hjobs ▸ List.mem_cons_self)).1
    exact absurd rfl hinit

theorem records_view : r.view.records r.jobs = r.records := by
  simp only [View.records, view, records, List.map_map]
  rfl

theorem fit_approve {proved : Bool} (h : r.Fit) (hc : r.Undisputed (.approve d proved)) :
    (r.approve d proved).Fit := by
  obtain ⟨hidle, hids⟩ := hc
  have hrun := running_of_idle h hidle
  let r' : Registry :=
    { (r.initTonConnection d).launch (.saveManifest d) with
      deleted := r.deleted.filter (· ≠ d.manifest) }
  have hview : r'.view = r.view.approve r.created d :=
    congrArg (fun v : View => { v with deleted := r.deleted.filter (· ≠ d.manifest) })
      (@view_initTonConnection d r)
  have hfit : r'.Fit := by
    have hnew := agreement_approve hrun (fun j hj => (hidle j hj).2) (records_view.symm ▸ hids)
    rw [← hview] at hnew
    exact .running (agreement_perm hnew (List.perm_append_singleton _ _).symm)
  cases proved with
  | false => exact hfit
  | true => exact fit_sendRequest hfit

theorem fit_delete (h : r.Fit) (hc : r.Undisputed (.delete d)) :
    (r.deleteAppWithManifest d).Fit := by
  obtain ⟨hidle, hids, hkey⟩ := hc
  have hrun := running_of_idle h hidle
  have hnew := agreement_delete hrun (fun j hj => (hidle j hj).2) (records_view.symm ▸ hids) hkey
  exact .running (agreement_perm hnew (List.perm_append_singleton _ _).symm)

/-- A coroutine goes on, in a process that has started its connections. -/
theorem fit_runJob {i : ℕ} {j : Job} (h : r.view.Agreement r.created r.jobs)
    (hj : r.jobs[i]? = some j) : (r.runJob i j).Fit := by
  have hfirst := agreement_perm h (Jobs.finish_perm hj)
  have hset : ∀ {v : View} {k : Job}, v.Agreement r.created (k :: r.jobs.eraseIdx i) →
      v.Agreement r.created (r.jobs.set i k) :=
    fun hk => agreement_perm hk (Jobs.goOn_perm hj _).symm
  match j with
  | .saveManifest d => exact .running (agreement_saved hfirst)
  | .delete d .launched =>
    obtain ⟨hagree, hstored, hkey⟩ := hfirst.underway _ List.mem_cons_self
    dsimp only [runJob, runDelete]
    split
    · rename_i c hc
      have hmem : (c.object, c.data) ∈ r.view.live :=
        List.mem_map_of_mem (List.mem_of_find?_eq_some hc)
      have hm : c.data.manifest = d.manifest := by simpa using List.find?_some hc
      obtain ⟨e, he, hentry⟩ := hagree.stored _ hmem hm
      have hid : c.data.id = d.id :=
        (entry_id hentry).symm.trans (hstored e he ((entry_manifest hentry).trans hm))
      have hcan : c.HasClientKey := by
        rw [Connection.HasClientKey, hid]
        exact hkey
      rw [if_pos hcan]
      have hnext := hset (agreement_declined hfirst hmem hm)
      rw [← @view_send r c] at hnext
      exact .running hnext
    · rename_i hc
      refine .running (hset (agreement_absent hfirst fun x hx hm => ?_))
      obtain ⟨c, hmem, rfl⟩ := List.mem_map.mp hx
      exact absurd hm (by simpa using List.find?_eq_none.mp hc c hmem)
  | .delete d (.declined object) =>
    have hnext := hset (agreement_removed hfirst)
    have hlive : r.view.live.eraseP (fun x => x.1 = object)
        = (r.connections.eraseP fun c => c.object = object).map fun c => (c.object, c.data) := by
      simp only [view, List.eraseP_map]
      rfl
    rw [hlive] at hnext
    exact .running hnext
  | .delete d .removed => exact .running (agreement_deleted hfirst)
  | .init _ => exact absurd (hfirst.underway _ List.mem_cons_self) id

/-- A new process reads what is stored. -/
theorem fit_readConnections (hlive : r.view.live = []) (hstart : r.view.Startable)
    (hjobs : r.jobs = [.init none]) : (r.runJob 0 (.init none)).Fit := by
  have hset : r.jobs.set 0 (.init (some r.readConnections))
      = [.init (some r.readConnections)] := by
    rw [hjobs]
    rfl
  dsimp only [Fit, runJob]
  rw [hset]
  refine .starting hlive hstart fun l hl => ?_
  obtain rfl := Option.some.inj hl
  have hall : (r.manifests.filter fun manifest => r.connections.all fun it =>
      it.data.id ≠ manifest.id) = r.manifests := by
    refine List.filter_eq_self.mpr fun _ _ => ?_
    rw [List.map_eq_nil_iff.mp hlive]
    rfl
  rw [readConnections, hall, List.map_map]
  rfl

/-- Before the first connection nothing is wrong with those there are. -/
theorem started_of_startable (hlive : r.view.live = []) (hstart : r.view.Startable) :
    r.view.Started r.created := by
  have hrecords : r.view.records [] = r.manifests := by
    rw [View.records, hlive]
    simp [view]
  refine ⟨⟨?_, ?_, ?_, hstart.storedOnce, hrecords.symm ▸ hstart.ids⟩, ?_⟩ <;> rw [hlive]
  · exact List.nodup_nil
  · exact fun x hx => absurd hx List.not_mem_nil
  · exact List.nodup_nil
  · exact fun x hx => absurd hx List.not_mem_nil

/-- All that was read is live. -/
theorem fit_startConnections {read : List TonConnectConnectionData} (hlive : r.view.live = [])
    (hstart : r.view.Startable) (hread : read.map entry = r.view.stored.map entry)
    (hjobs : r.jobs = [.init (some read)]) : (r.runJob 0 (.init (some read))).Fit := by
  have hmem : ∀ d ∈ read, ∃ e ∈ r.manifests, entry e = entry d := fun d hd =>
    List.mem_map.mp (hread ▸ List.mem_map_of_mem hd)
  obtain ⟨⟨hend, hmanifests, hdeleted⟩, hjobs', hall, -⟩ :=
    started_foldl (started_of_startable hlive hstart) hmem
  have herase : (read.foldl initTonConnection r).jobs.eraseIdx 0 = [] := by
    rw [hjobs', hjobs]
    rfl
  dsimp only [Fit, runJob]
  rw [herase]
  refine .running ⟨hend.shape, List.nodup_nil, fun j hj => absurd hj List.not_mem_nil,
    fun m _ => ⟨⟨fun x hx _ => hend.stored x hx, fun e he _ => ?_⟩, fun hm x hx he => ?_⟩⟩
  · have he' : e ∈ r.manifests := by
      rw [← hmanifests]
      exact he
    obtain ⟨d, hd, hde⟩ := List.mem_map.mp (hread ▸ List.mem_map_of_mem he')
    obtain ⟨x, hx, hxd⟩ := hall d hd
    exact ⟨x, hx, hxd.trans hde⟩
  · obtain ⟨e, hmem', hex⟩ := hend.stored x hx
    have hstored : e ∈ r.manifests := by
      rw [← hmanifests]
      exact hmem'
    have hdel : m ∈ r.deleted := by
      rw [← hdeleted]
      exact hm
    refine hstart.notDeleted e hstored ?_
    rw [entry_manifest hex, he]
    exact hdel

/-- The coroutine that starts the connections goes on. -/
theorem fit_runInit {i : ℕ} {j : Job} {read : Option (List TonConnectConnectionData)}
    (hlive : r.view.live = []) (hstart : r.view.Startable)
    (hread : ∀ l ∈ read, l.map entry = r.view.stored.map entry) (hjobs : r.jobs = [.init read])
    (hj : r.jobs[i]? = some j) : (r.runJob i j).Fit := by
  obtain ⟨hi, hj⟩ := List.getElem?_eq_some_iff.mp hj
  obtain rfl : i = 0 := by
    rw [hjobs] at hi
    exact Nat.lt_one_iff.mp hi
  obtain rfl : .init read = j := by
    rw [← hj]
    simp only [hjobs, List.getElem_cons_zero]
  cases read with
  | none => exact fit_readConnections hlive hstart hjobs
  | some read => exact fit_startConnections hlive hstart (hread read rfl) hjobs

/-- What a process leaves in the storage can be started again, if it deletes nothing. -/
theorem startable_of_fit (h : r.Fit) (hc : r.Undisputed .restart) : r.view.Startable := by
  unfold Fit at h
  generalize hjobs : r.jobs = jobs at h
  cases h with
  | running h =>
    refine ⟨h.shape.storedOnce, fun d hd e he => ?_, fun d hd hm => ?_⟩
    · exact h.shape.ids d (mem_records.mpr (.inr (.inl hd))) e (mem_records.mpr (.inr (.inl he)))
    · have hnone : ∀ j ∈ jobs, j.manifest ≠ some d.manifest := by
        intro j hj hmanifest
        obtain ⟨d', ht, hd'⟩ := Option.map_eq_some_iff.mp hmanifest
        obtain rfl := hc j (hjobs ▸ hj) d' ht
        refine (h.underway _ hj).2 ?_
        rw [hd']
        exact hm
      obtain ⟨x, hx, he⟩ := (h.settled _ hnone).agree.live d hd rfl
      exact (h.settled _ hnone).gone hm x hx (entry_manifest he)
  | starting _ hstart _ => exact hstart

theorem fit_step (h : r.Fit) (hc : r.Undisputed a) (hs : r.step a = some t) : t.Fit := by
  cases a with
  | approve d proved =>
    obtain rfl := Option.some.inj hs
    exact fit_approve h hc
  | reject d =>
    obtain rfl := Option.some.inj hs
    exact fit_sendRequest (fit_of_eq h rfl (Nat.le_succ _) rfl)
  | rejectTransfer d =>
    obtain rfl := Option.some.inj hs
    rw [rejectTransfer]
    split
    · exact fit_sendRequest h
    · exact h
  | delete d =>
    obtain rfl := Option.some.inj hs
    exact fit_delete h hc
  | run i =>
    obtain ⟨j, hj, rfl⟩ := Option.map_eq_some_iff.mp hs
    unfold Fit at h
    generalize hjobs : r.jobs = jobs at h
    cases h with
    | running h => exact fit_runJob (hjobs ▸ h) hj
    | starting hlive hstart hread => exact fit_runInit hlive hstart hread hjobs hj
  | saveLastEventId clientId lastEventId =>
    obtain rfl := Option.some.inj hs
    exact fit_of_eq h rfl le_rfl rfl
  | restart =>
    obtain rfl := Option.some.inj hs
    have hstart : r.view.Startable := startable_of_fit h hc
    exact .starting rfl ⟨hstart.storedOnce, hstart.ids, hstart.notDeleted⟩ fun l hl => by cases hl

/-- Nothing is connected at the first start. -/
theorem fit_start : Fit {} := by
  refine .running ⟨⟨List.nodup_nil, ?_, List.nodup_nil, List.nodup_nil, ?_⟩, List.nodup_nil, ?_,
    fun m _ => ⟨⟨?_, ?_⟩, fun _ => ?_⟩⟩ <;> exact fun _ h => absurd h List.not_mem_nil

theorem persisted_of_fit (h : r.Fit) : PersistedAtRest r := by
  intro hjobs
  rw [Fit, hjobs] at h
  cases h with
  | running h =>
    have hsettled := fun m => h.settled m fun j hj => absurd hj List.not_mem_nil
    refine ⟨fun t => ⟨fun ht => ?_, fun ht => ?_⟩, ?_, h.shape.storedOnce, fun d hd hm => ?_⟩
    · obtain ⟨c, hc, rfl⟩ := List.mem_map.mp ht
      exact List.mem_map.mpr ((hsettled _).agree.stored _ (List.mem_map_of_mem hc) rfl)
    · obtain ⟨d, hd, rfl⟩ := List.mem_map.mp ht
      obtain ⟨x, hx, he⟩ := (hsettled _).agree.live d hd rfl
      obtain ⟨c, hc, rfl⟩ := List.mem_map.mp hx
      exact List.mem_map.mpr ⟨c, hc, he⟩
    · have honce := h.shape.liveOnce
      rw [view, List.map_map] at honce
      exact honce
    · obtain hd | hd := List.mem_append.mp hd
      · obtain ⟨c, hc, rfl⟩ := List.mem_map.mp hd
        exact (hsettled _).gone hm _ (List.mem_map_of_mem hc) rfl
      · obtain ⟨x, hx, he⟩ := (hsettled _).agree.live d hd rfl
        exact (hsettled _).gone hm x hx (entry_manifest he)

/-- **Live and stored connections.** In a run in which no two coroutines are about one dApp, no id
is that of two dApps, and no removal is cut short, the live connections are the stored ones
whenever all coroutines have ended, one for each dApp, and none of a deleted one. -/
theorem persisted_of_undisputed (as : List RegistryAction)
    (h : Machine.Guarded step Undisputed {} as) : Machine.Always step PersistedAtRest {} as :=
  Machine.always_of_guarded (I := Fit) (fun _ _ _ h hc hs => fit_step h hc hs)
    (fun _ h => persisted_of_fit h) fit_start h

/-- A dApp is connected, stored, deleted, and stays so after a restart. -/
theorem persisted_after_removal :
    Machine.Always step PersistedAtRest {} [.approve sampleConnection true, .run 0,
      .delete sampleConnection, .run 0, .run 0, .run 0, .restart, .run 0, .run 0] :=
  persisted_of_undisputed _ (by decide +kernel)

/-- A dApp is approved and deleted at once, and the connection is removed before it is written. A
restart revives it. -/
theorem revived_connection :
    ¬ Machine.Always step PersistedAtRest {} [.approve sampleConnection true,
      .delete sampleConnection, .run 1, .run 1, .run 1, .run 0, .restart, .run 0, .run 0] := by
  have hrun : (Machine.run step {} [.approve sampleConnection true, .delete sampleConnection,
      .run 1, .run 1, .run 1, .run 0, .restart, .run 0, .run 0]).any (fun r => r.jobs = [] ∧
        ∃ c ∈ r.connections, c.data.manifest ∈ r.deleted) = true := by
    decide +kernel
  obtain ⟨r, hr, h⟩ := (Option.any_eq_true ..).mp hrun
  obtain ⟨hjobs, c, hc, hdeleted⟩ := of_decide_eq_true h
  refine Machine.not_always_of_run hr fun h => ?_
  exact (h hjobs).notDeleted c.data (List.mem_append_left _ (List.mem_map_of_mem hc)) hdeleted

end Registry

end TonWallet.TonConnect
