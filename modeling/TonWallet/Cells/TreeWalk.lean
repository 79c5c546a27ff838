import TonWallet.Lib.Walk
import TonWallet.Cells.Hash

/-!
# The order of cells in a bag

`treeWalk` lists a cell and all that it refers to, each hash once, with a map from
the hash of a cell to its position. A cell that is met again below a later cell goes
to the end, and what it refers to follows it (`moveToTheEnd`).

* `moveToTheEnd_eq`, `treeWalk_eq`: where no two parts of a cell are a collision, this
  is the walk of `Lib.Walk` over the contents, and no look-up fails.
* `treeWalk_spec`: each content that stands in a cell is listed once, every cell in
  front of what it refers to, the cell itself first, and the map has the positions.
-/

namespace TonWallet.Cells

open TonWallet.Encoding
open Trees (Rose Within)
open Walk (Positions)

/-- `TreeWalkResult` (`TreeWalkResult.java` lines 7–16), with `TopologicalOrderArray`. -/
structure TreeWalkResult where
  topologicalOrderArray : List (Bytes × Cell)
  indexHashmap : Text → Option ℕ

section
variable (sha256 : Bytes → Digest)

/-- `moveToTheEnd` (`Cell.java` lines 456–472). It calls itself with hashes that it looks up:
`frames` is how deep it may. -/
def moveToTheEnd : ℕ → TreeWalkResult → Text → Except Fault TreeWalkResult
  | 0, _, _ => .error .stackOverflow
  | frames + 1, ⟨topologicalOrderArray, indexHashmap⟩, target =>
    match indexHashmap target with
    | none => .error (.thrown .nullPointer)
    | some targetIndex =>
      let decremented := fun h => (indexHashmap h).map fun i => if targetIndex < i then i - 1 else i
      let indexHashmap :=
        Function.update decremented target (some (topologicalOrderArray.length - 1))
      match topologicalOrderArray[targetIndex]? with
      | none => .error (.thrown .indexOutOfBounds)
      | some data =>
        data.2.refs.foldlM (fun result subCell => do
            let subHash ← subCell.hash sha256
            moveToTheEnd frames result (bytesToHex subHash))
          ⟨topologicalOrderArray.eraseIdx targetIndex ++ [data], indexHashmap⟩

mutual

/-- `treeWalk` (`Cell.java` lines 488–510). -/
def treeWalk (frames : ℕ) : Cell → TreeWalkResult → Option Text → Except Fault TreeWalkResult
  | .mk bits refs isExotic, ⟨topologicalOrderArray, indexHashmap⟩, parentHash => do
    let hash ← (Cell.mk bits refs isExotic).hash sha256
    let cellHash := bytesToHex hash
    match indexHashmap cellHash with
    | some cellIndex =>
      match parentHash with
      | none => return ⟨topologicalOrderArray, indexHashmap⟩
      | some parentHash =>
        match indexHashmap parentHash with
        | none => .error (.thrown .nullPointer)
        | some parentIndex =>
          if cellIndex < parentIndex then
            moveToTheEnd sha256 frames ⟨topologicalOrderArray, indexHashmap⟩ cellHash
          else return ⟨topologicalOrderArray, indexHashmap⟩
    | none =>
      treeWalks frames refs ⟨topologicalOrderArray ++ [(hash, .mk bits refs isExotic)],
        Function.update indexHashmap cellHash (some topologicalOrderArray.length)⟩ cellHash

/-- The loop of `treeWalk` over the references. -/
def treeWalks (frames : ℕ) : List Cell → TreeWalkResult → Text → Except Fault TreeWalkResult
  | [], result, _ => .ok result
  | subCell :: refs, result, cellHash => do
    let result ← treeWalk frames subCell result (some cellHash)
    treeWalks frames refs result cellHash

end

/-- The key of a content: its digest, as a text. -/
def key (t : Rose CellData) : Text := bytesToHex (cellScheme.digest sha256 t).1

/-- What the walk has listed. -/
structure Represents (result : TreeWalkResult) (l : List (Rose CellData)) : Prop where
  contents : result.topologicalOrderArray.map (fun e => e.2.content) = l
  hashes : ∀ e ∈ result.topologicalOrderArray, e.2.Valid ∧ e.2.hash sha256 = .ok e.1
  index : Positions (l.map (key sha256)) result.indexHashmap

end

variable {sha256 : Bytes → Digest} {result : TreeWalkResult} {l : List (Rose CellData)}

/-- The keys tell the contents apart that stand in `root`. -/
def KeysInjective (sha256 : Bytes → Digest) (root : Rose CellData) : Prop :=
  ∀ t u, Within t root → Within u root → key sha256 t = key sha256 u → t = u

theorem Cell.Valid.key_eq {c : Cell} (h : c.Valid) (sha256 : Bytes → Digest) : ∃ hash,
    c.hash sha256 = .ok hash ∧ bytesToHex hash = key sha256 c.content :=
  ⟨_, h.hash_eq sha256, rfl⟩

theorem Represents.length (h : Represents sha256 result l) :
    result.topologicalOrderArray.length = l.length := by
  rw [← h.contents, List.length_map]

/-- The position of a content that is listed. -/
theorem Represents.exists_index (h : Represents sha256 result l) {t : Rose CellData} (ht : t ∈ l) :
    ∃ i, result.indexHashmap (key sha256 t) = some i ∧
      (l.map (key sha256))[i]? = some (key sha256 t) := by
  obtain ⟨i, hi⟩ := h.index.mem_iff.mp (List.mem_map_of_mem ht)
  exact ⟨i, hi, (h.index _ _).mp hi⟩

open Classical in
/-- The cell that is taken out and put at the end. -/
theorem Represents.moved (h : Represents sha256 result l) {root t : Rose CellData}
    (hinj : KeysInjective sha256 root) (hl : ∀ u ∈ l, Within u root) (ht : t ∈ l) :
    ∃ (i : ℕ) (data : Bytes × Cell), result.indexHashmap (key sha256 t) = some i ∧
      result.topologicalOrderArray[i]? = some data ∧ data.2.Valid ∧ data.2.content = t ∧
      Represents sha256 ⟨result.topologicalOrderArray.eraseIdx i ++ [data], Function.update
        (fun h => (result.indexHashmap h).map fun j => if i < j then j - 1 else j) (key sha256 t)
        (some (result.topologicalOrderArray.length - 1))⟩ (l.erase t ++ [t]) := by
  obtain ⟨i, hi, hkey⟩ := h.exists_index ht
  rw [List.getElem?_map, Option.map_eq_some_iff] at hkey
  obtain ⟨u, hu, hut⟩ := hkey
  obtain rfl := hinj u t (hl u (List.mem_of_getElem? hu)) (hl t ht) hut
  have hdata := hu
  rw [← h.contents, List.getElem?_map, Option.map_eq_some_iff] at hdata
  obtain ⟨data, hdata, hcontent⟩ := hdata
  have hnodup : l.Nodup := List.Nodup.of_map _ h.index.nodup
  have herase : l.erase u = l.eraseIdx i := by
    obtain ⟨hlt, hget⟩ := List.getElem?_eq_some_iff.mp hu
    rw [← hget, hnodup.erase_getElem]
  refine ⟨i, data, hi, hdata, (h.hashes _ (List.mem_of_getElem? hdata)).1, hcontent, ?_, ?_, ?_⟩
  · rw [List.map_append, ← List.eraseIdx_map, h.contents, herase, ← hcontent]
    rfl
  · intro e he
    rcases List.mem_append.mp he with he | he
    · exact h.hashes e (List.mem_of_mem_eraseIdx he)
    · exact List.mem_singleton.mp he ▸ h.hashes _ (List.mem_of_getElem? hdata)
  · rw [h.length, List.map_append, herase, ← List.eraseIdx_map]
    have hmove := h.index.moveToEnd hi
    rwa [List.length_map] at hmove

theorem Represents.nodup (h : Represents sha256 result l) : l.Nodup :=
  List.Nodup.of_map _ h.index.nodup

/-- The depth that a cell of this content has. -/
def depth (sha256 : Bytes → Digest) (t : Rose CellData) : ℕ := (cellScheme.summary sha256 t).1

theorem le_foldl_max {d m : ℕ} {ds : List ℕ} (h : d ≤ m ∨ d ∈ ds) : d ≤ ds.foldl max m := by
  induction ds generalizing m with
  | nil => simpa using h
  | cons x ds ih =>
    rw [List.foldl_cons]
    refine ih ?_
    rcases h with h | h
    · exact .inl (by omega)
    · rcases List.mem_cons.mp h with rfl | h
      · exact .inl (by omega)
      · exact .inr h

theorem depth_lt {t c : Rose CellData} (h : c ∈ t.children) :
    depth sha256 c < depth sha256 t := by
  obtain ⟨a, ts⟩ := t
  have hmem : depth sha256 c ∈ (ts.map (cellScheme.summary sha256)).map Prod.fst :=
    List.mem_map_of_mem (List.mem_map_of_mem h)
  have hle := le_foldl_max (m := 0) (.inr hmem)
  rw [depth, depth, Merkle.Scheme.summary, Merkle.Scheme.summaries_eq]
  show _ < if _ = [] then 0 else _ + 1
  rw [if_neg (List.ne_nil_of_mem hmem)]
  exact Nat.lt_succ_of_le hle

theorem depth_le {t u : Rose CellData} (h : Within t u) : depth sha256 t ≤ depth sha256 u := by
  induction h with
  | refl => exact Nat.le_refl _
  | child _ hc ih => exact ih.trans (Nat.le_of_lt (depth_lt hc))

section
variable {root : Rose CellData} (hinj : KeysInjective sha256 root)

/-- What `moveToTheEnd` does with a listed content. -/
def MoveSpec (sha256 : Bytes → Digest) (root t : Rose CellData) : Prop :=
  ∀ frames, depth sha256 t < frames → ∀ result l, Represents sha256 result l →
    (∀ u ∈ l, Within u root) → (∀ u, Within u t → u ∈ l) → ∃ result',
      moveToTheEnd sha256 frames result (key sha256 t) = .ok result' ∧
        Represents sha256 result' (Walk.moveToEnd t l)

/-- The references of a cell, moved one after the other. -/
theorem moveAll_eq {frames : ℕ} {refs : List Cell} (hvalid : ∀ c ∈ refs, c.Valid)
    (hframes : ∀ c ∈ refs, depth sha256 c.content < frames)
    (ih : ∀ c ∈ refs, MoveSpec sha256 root c.content) (h : Represents sha256 result l)
    (hl : ∀ u ∈ l, Within u root) (hrefs : ∀ c ∈ refs, ∀ u, Within u c.content → u ∈ l) :
    ∃ result', refs.foldlM (fun result subCell => do
        let subHash ← subCell.hash sha256
        moveToTheEnd sha256 frames result (bytesToHex subHash)) result = .ok result' ∧
      Represents sha256 result' (Walk.moveAll (refs.map Cell.content) l) := by
  induction refs generalizing result l with
  | nil => exact ⟨result, rfl, by rwa [List.map_nil, Walk.moveAll]⟩
  | cons c refs ihs =>
    obtain ⟨hv, hvalid⟩ := List.forall_mem_cons.mp hvalid
    obtain ⟨hf, hframes⟩ := List.forall_mem_cons.mp hframes
    obtain ⟨ihc, ih⟩ := List.forall_mem_cons.mp ih
    obtain ⟨hc, hrefs⟩ := List.forall_mem_cons.mp hrefs
    obtain ⟨hash, hhash, hkey⟩ := hv.key_eq sha256
    obtain ⟨result₁, hmove, h₁⟩ := ihc frames hf result l h hl hc
    have hmoved := Walk.moveToEnd_moved c.content h.nodup
    obtain ⟨result', hall, h'⟩ := ihs hvalid hframes ih h₁
      (fun u hu => (hmoved.mem.mp hu).elim (hl u) fun h => hl u (hc u h))
      fun d hd u hu => hmoved.mem.mpr (.inl (hrefs d hd u hu))
    refine ⟨result', ?_, by rwa [List.map_cons, Walk.moveAll]⟩
    rw [List.foldlM_cons, hhash]
    simp only [Fault.ok_bind, hkey, hmove]
    exact hall

open Classical in
include hinj in
theorem moveToTheEnd_eq (t : Rose CellData) : MoveSpec sha256 root t := by
  induction t using Rose.induct with
  | node a ts ih =>
    intro frames hframes result l h hl hwithin
    obtain ⟨frames, rfl⟩ := Nat.exists_eq_succ_of_ne_zero (Nat.ne_zero_of_lt hframes)
    have ht := hwithin _ .refl
    obtain ⟨i, data, hi, hdata, hvalid, hcontent, hmoved⟩ := h.moved hinj hl ht
    have hmem : ∀ u, u ∈ l.erase (.node a ts) ++ [.node a ts] ↔ u ∈ l := by
      intro u
      rw [List.mem_append, List.mem_singleton, h.nodup.mem_erase_iff]
      by_cases hu : u = .node a ts
      · simp [hu, ht]
      · simp [hu]
    have hchildren : data.2.refs.map Cell.content = ts := by
      rw [← Cell.children_content, hcontent]
      rfl
    have hts : ∀ c ∈ data.2.refs, c.content ∈ ts := fun c hc => by
      rw [← hchildren]
      exact List.mem_map_of_mem hc
    obtain ⟨result', hall, h'⟩ := moveAll_eq hvalid.refs
      (fun c hc => (depth_lt (hts c hc)).trans_le (Nat.le_of_lt_succ hframes))
      (fun c hc => ih _ (hts c hc)) hmoved (fun u hu => hl u ((hmem u).mp hu))
      fun c hc u hu => (hmem u).mpr (hwithin u (.child hu (hts c hc)))
    refine ⟨result', ?_, ?_⟩
    · obtain ⟨order, index⟩ := result
      replace hi : index (key sha256 (.node a ts)) = some i := hi
      replace hdata : order[i]? = some data := hdata
      rw [moveToTheEnd, hi]
      simp only [hdata]
      exact hall
    · rw [hchildren] at h'
      rwa [Walk.moveToEnd]

/-- What `treeWalk` does with a cell, from a list of which the ancestors are open. -/
def WalkSpec (sha256 : Bytes → Digest) (root : Rose CellData) (frames : ℕ) (c : Cell) : Prop :=
  ∀ (isOpen : Rose CellData → Prop) (parent : Option (Rose CellData)) result l,
    Represents sha256 result l → (∀ u ∈ l, Within u root) → Walk.Complete isOpen l →
    (∀ u, Within u c.content → ¬ isOpen u) →
    (∀ p ∈ parent, p ∈ l ∧ c.content ∈ p.children) → ∃ result',
      treeWalk sha256 frames c result (parent.map (key sha256)) = .ok result' ∧
        Represents sha256 result' (Walk.walk parent c.content l)

include hinj in
/-- A cell whose content is listed. -/
theorem treeWalk_again {frames : ℕ} (hframes : depth sha256 root < frames) {c : Cell}
    (hvalid : c.Valid) (hroot : Within c.content root) {isOpen : Rose CellData → Prop}
    {parent : Option (Rose CellData)} (h : Represents sha256 result l)
    (hl : ∀ u ∈ l, Within u root) (hcomplete : Walk.Complete isOpen l)
    (hclosed : ∀ u, Within u c.content → ¬ isOpen u)
    (hparent : ∀ p ∈ parent, p ∈ l ∧ c.content ∈ p.children) (hc : c.content ∈ l) : ∃ result',
      treeWalk sha256 frames c result (parent.map (key sha256)) = .ok result' ∧
        Represents sha256 result' (Walk.walk parent c.content l) := by
  obtain ⟨hash, hhash, hkey⟩ := hvalid.key_eq sha256
  obtain ⟨i, hi, hli⟩ := h.exists_index hc
  obtain ⟨order, index⟩ := result
  replace hi : index (key sha256 c.content) = some i := hi
  have hpos : ∀ t ∈ l, ∀ j : ℕ,
      (l.map (key sha256))[j]? = some (key sha256 t) → l[j]? = some t := by
    intro t ht j hj
    rw [List.getElem?_map, Option.map_eq_some_iff] at hj
    obtain ⟨u, hu, hut⟩ := hj
    rwa [hinj u t (hl u (List.mem_of_getElem? hu)) (hl t ht) hut] at hu
  obtain ⟨bits, refs, isExotic⟩ := c
  rw [treeWalk, hhash]
  simp only [Fault.ok_bind, hkey, hi]
  cases parent with
  | none => exact ⟨_, rfl, by rwa [Walk.walk_kept hc (by simp)]⟩
  | some p =>
    obtain ⟨hp, hcp⟩ := hparent p rfl
    obtain ⟨j, hj, hlj⟩ := h.exists_index hp
    replace hj : index (key sha256 p) = some j := hj
    have hiff := Walk.pair_sublist_iff h.nodup (hpos _ hc i hli) (hpos _ hp j hlj)
    simp only [Option.map_some, hj]
    split
    · rename_i hlt
      rw [Walk.walk_moved hc ⟨p, rfl, hiff.mpr hlt⟩]
      exact moveToTheEnd_eq hinj _ frames ((depth_le hroot).trans_lt hframes) _ l h hl
        fun u hu => hcomplete.mem hclosed hc hu
    · rename_i hlt
      refine ⟨_, rfl, ?_⟩
      rwa [Walk.walk_kept hc]
      rintro ⟨q, hq, hpair⟩
      exact hlt (hiff.mp (Option.some.inj hq ▸ hpair))

/-- The references of a cell, walked to one after the other. -/
theorem treeWalks_eq {frames : ℕ} {refs : List Cell} {p : Rose CellData}
    (ih : ∀ c ∈ refs, WalkSpec sha256 root frames c)
    (hroot : ∀ c ∈ refs, Within c.content root)
    (hp : ∀ c ∈ refs, c.content ∈ p.children) {isOpen : Rose CellData → Prop}
    (h : Represents sha256 result l) (hl : ∀ u ∈ l, Within u root)
    (hcomplete : Walk.Complete isOpen l)
    (hclosed : ∀ c ∈ refs, ∀ u, Within u c.content → ¬ isOpen u) (hpl : p ∈ l) : ∃ result',
      treeWalks sha256 frames refs result (key sha256 p) = .ok result' ∧
        Represents sha256 result' (Walk.walkAll p (refs.map Cell.content) l) := by
  induction refs generalizing result l with
  | nil => exact ⟨result, by rw [treeWalks], by rwa [List.map_nil, Walk.walkAll]⟩
  | cons c refs ihs =>
    obtain ⟨ihc, ih⟩ := List.forall_mem_cons.mp ih
    obtain ⟨hrc, hroot⟩ := List.forall_mem_cons.mp hroot
    obtain ⟨hpc, hp⟩ := List.forall_mem_cons.mp hp
    obtain ⟨hcc, hclosed⟩ := List.forall_mem_cons.mp hclosed
    have hparent : ∀ q ∈ some p, q ∈ l ∧ c.content ∈ q.children :=
      fun q hq => Option.some.inj hq ▸ ⟨hpl, hpc⟩
    obtain ⟨result₁, hwalk, h₁⟩ := ihc isOpen (some p) result l h hl hcomplete hcc hparent
    obtain ⟨hwalked, -⟩ := Walk.walk_step c.content isOpen (some p) l h.nodup hcomplete hcc hparent
    obtain ⟨result', hall, h'⟩ := ihs ih hroot hp h₁
      (fun u hu => ((hwalked.mem u).mp hu).elim (hl u) fun h => h.trans hrc)
      hwalked.complete hclosed ((hwalked.mem p).mpr (.inl hpl))
    refine ⟨result', ?_, by rwa [List.map_cons, Walk.walkAll]⟩
    rw [treeWalks, show some (key sha256 p) = (some p).map (key sha256) from rfl, hwalk]
    exact hall

include hinj in
theorem treeWalk_eq {frames : ℕ} (hframes : depth sha256 root < frames) {c : Cell}
    (hvalid : c.Valid) (hroot : Within c.content root) : WalkSpec sha256 root frames c := by
  induction hvalid with
  | @mk bits refs isExotic hbits hlen hrefs ih =>
    have hvalid : (Cell.mk bits refs isExotic).Valid := .mk hbits hlen hrefs
    intro isOpen parent result l h hl hcomplete hclosed hparent
    by_cases hc : (Cell.mk bits refs isExotic).content ∈ l
    · exact treeWalk_again hinj hframes hvalid hroot h hl hcomplete hclosed hparent hc
    · -- the cell is listed, and is open until what it refers to is
      obtain ⟨hash, hhash, hkey⟩ := hvalid.key_eq sha256
      obtain ⟨order, index⟩ := result
      set t := (Cell.mk bits refs isExotic).content with ht
      have hchildren : t.children = refs.map Cell.content := Cell.children_content _
      have hnone : index (key sha256 t) = none := by
        by_contra hsome
        obtain ⟨i, hi⟩ := Option.ne_none_iff_exists'.mp hsome
        obtain ⟨u, hu, hut⟩ := List.mem_map.mp (h.index.mem_iff.mpr ⟨i, hi⟩)
        exact hc (hinj u t (hl u hu) hroot hut ▸ hu)
      have h₁ : Represents sha256 ⟨order ++ [(hash, Cell.mk bits refs isExotic)],
          Function.update index (key sha256 t) (some order.length)⟩ (l ++ [t]) := by
        refine ⟨?_, fun e he => ?_, ?_⟩
        · rw [List.map_append, h.contents]
          rfl
        · rcases List.mem_append.mp he with he | he
          · exact h.hashes e he
          · obtain rfl := List.mem_singleton.mp he
            exact ⟨hvalid, hhash⟩
        · have hadd := h.index.add hnone
          rw [List.length_map] at hadd
          rw [show order.length = l.length from h.length, List.map_append]
          exact hadd
      have hmem : ∀ c ∈ refs, c.content ∈ t.children := fun c hc => by
        rw [hchildren]
        exact List.mem_map_of_mem hc
      obtain ⟨result', hwalks, h'⟩ := treeWalks_eq (p := t)
        (fun c hc => ih c hc ((Within.of_child (hmem c hc)).trans hroot))
        (fun c hc => (Within.of_child (hmem c hc)).trans hroot) hmem h₁
        (fun u hu => (List.mem_append.mp hu).elim (hl u) fun h => List.mem_singleton.mp h ▸ hroot)
        (hcomplete.open_last t) (fun c hc u hu hopen => hopen.elim
          (hclosed u (.child hu (hmem c hc)))
          fun he => Trees.not_within_child (hmem c hc) (he ▸ hu))
        (List.mem_append_right _ (List.mem_singleton_self _))
      refine ⟨result', ?_, ?_⟩
      · rw [treeWalk, hhash]
        simp only [Fault.ok_bind, hkey, hnone]
        exact hwalks
      · rw [Walk.walk_new hc, hchildren]
        exact h'

end

/-! ## The order of a cell -/

theorem keysInjective {c : Cell} (hc : c.Valid) (h : ¬ Collision sha256 c c) :
    KeysInjective sha256 c.content := by
  intro t u ht hu hkey
  obtain ⟨p, hp, rfl⟩ := exists_part ht
  obtain ⟨q, hq, rfl⟩ := exists_part hu
  have hdigest := Subtype.val_injective (bytesToHex_injective hkey)
  refine ((hc.part hp).eq_or_collision (hc.part hq) hdigest).resolve_right ?_
  rintro ⟨p', q', x, y, hp', hq', hrest⟩
  exact h ⟨p', q', x, y, hp'.trans hp, hq'.trans hq, hrest⟩

/-- The cells of a bag: each content once, every cell in front of what it refers to. -/
structure TreeWalkResult.Lists (sha256 : Bytes → Digest) (c : Cell) (result : TreeWalkResult) :
    Prop where
  hashes : ∀ e ∈ result.topologicalOrderArray, e.2.Valid ∧ e.2.hash sha256 = .ok e.1
  distinct : (result.topologicalOrderArray.map fun e => e.2.content).Nodup
  contents : ∀ t, t ∈ result.topologicalOrderArray.map (fun e => e.2.content) ↔
    Within t c.content
  first : (result.topologicalOrderArray.map fun e => e.2.content).head? = some c.content
  index : ∀ k i, result.indexHashmap k = some i ↔
    (result.topologicalOrderArray.map fun e => bytesToHex e.1)[i]? = some k
  forward : ∀ (i : ℕ) e, result.topologicalOrderArray[i]? = some e → ∀ r ∈ e.2.refs, ∃ hash j,
    r.hash sha256 = .ok hash ∧ result.indexHashmap (bytesToHex hash) = some j ∧ i < j

theorem Represents.keys (h : Represents sha256 result l) :
    result.topologicalOrderArray.map (fun e => bytesToHex e.1) = l.map (key sha256) := by
  rw [← h.contents, List.map_map]
  refine List.map_congr_left fun e he => ?_
  obtain ⟨hvalid, hhash⟩ := h.hashes e he
  obtain ⟨hash, hhash', hkey⟩ := hvalid.key_eq sha256
  rw [hhash] at hhash'
  rw [Except.ok.inj hhash']
  exact hkey

/-- The walk from a cell lists contents in the order that `Walk.walk` gives them. -/
theorem treeWalk_represents (sha256 : Bytes → Digest) {c : Cell} (hc : c.Valid)
    (hcollision : ¬ Collision sha256 c c) {frames : ℕ} (hframes : c.getMaxDepth < frames) :
    ∃ result, treeWalk sha256 frames c ⟨[], fun _ => none⟩ none = .ok result ∧
      Represents sha256 result (Walk.walk none c.content []) := by
  have hstart : Represents sha256 ⟨[], fun _ => none⟩ [] :=
    ⟨rfl, List.forall_mem_nil _, fun k i => by simp⟩
  rw [hc.getMaxDepth_eq sha256] at hframes
  exact treeWalk_eq (keysInjective hc hcollision) hframes hc .refl (fun _ => False) none _ []
    hstart (List.forall_mem_nil _) (by simp [Walk.Complete]) (fun _ _ h => h) (by simp)

/-- **The order that the cells of a bag have.** Where no two parts of a cell collide, the walk ends,
with a stack of the depth of the cell; it lists each content that stands in the cell once, the cell
first and every cell in front of what it refers to, and the map has the positions. -/
theorem treeWalk_spec (sha256 : Bytes → Digest) {c : Cell} (hc : c.Valid)
    (hcollision : ¬ Collision sha256 c c) {frames : ℕ} (hframes : c.getMaxDepth < frames) :
    ∃ result, treeWalk sha256 frames c ⟨[], fun _ => none⟩ none = .ok result ∧
      result.Lists sha256 c := by
  have hinj := keysInjective hc hcollision
  obtain ⟨result, hwalk, h⟩ := treeWalk_represents sha256 hc hcollision hframes
  have hlists := Walk.walk_lists c.content
  refine ⟨result, hwalk, h.hashes, ?_, ?_, ?_, fun k i => ?_, fun i e he r hr => ?_⟩
  · rw [h.contents]
    exact hlists.nodup
  · rw [h.contents]
    exact hlists.mem
  · rw [h.contents]
    exact hlists.head
  · rw [h.keys]
    exact h.index k i
  · have hmem := List.mem_of_getElem? he
    have hli : (Walk.walk none c.content [])[i]? = some e.2.content := by
      rw [← h.contents, List.getElem?_map, he]
      rfl
    have hrc : r.content ∈ e.2.content.children := by
      rw [Cell.children_content]
      exact List.mem_map_of_mem hr
    have hpair := hlists.ordered _ (List.mem_of_getElem? hli) _ hrc
    have hrl : r.content ∈ Walk.walk none c.content [] := hpair.subset (by simp)
    obtain ⟨hash, hhash, hkey⟩ := ((h.hashes e hmem).1.refs r hr).key_eq sha256
    obtain ⟨j, hj, hkeyj⟩ := h.exists_index hrl
    refine ⟨hash, j, hhash, hkey ▸ hj, ?_⟩
    rw [List.getElem?_map, Option.map_eq_some_iff] at hkeyj
    obtain ⟨u, hu, hur⟩ := hkeyj
    obtain rfl := hinj u r.content ((hlists.mem u).mp (List.mem_of_getElem? hu))
      ((hlists.mem _).mp hrl) hur
    exact (Walk.pair_sublist_iff hlists.nodup hli hu).mp hpair

/-! A cell that is met again below a later one. -/

def leafCell : Cell := .mk (.ofLength 0) [] false
def innerCell : Cell := .mk (.ofLength 0) [leafCell] false
def sharedCell : Cell := .mk (.ofLength 0) [leafCell, innerCell] false

theorem valid_sharedCell : sharedCell.Valid := by
  have hleaf : leafCell.Valid := .mk (exportable_ofLength 0) (by decide) (List.forall_mem_nil _)
  have hinner : innerCell.Valid := .mk (exportable_ofLength 0) (by decide) (by simpa using hleaf)
  exact .mk (exportable_ofLength 0) (by decide) (by simpa using ⟨hleaf, hinner⟩)

theorem part_sharedCell {p : Cell} (h : p.Part sharedCell) :
    p = sharedCell ∨ p = innerCell ∨ p = leafCell := by
  have hleaf : ∀ p : Cell, p.Part leafCell → p = leafCell := fun p h =>
    (Cell.Part.cases_iff.mp h).resolve_right fun ⟨r, hr, _⟩ => by cases hr
  have hinner : ∀ p : Cell, p.Part innerCell → p = innerCell ∨ p = leafCell := fun p h =>
    (Cell.Part.cases_iff.mp h).imp id fun ⟨r, hr, hp⟩ => by
      obtain rfl := List.mem_singleton.mp hr
      exact hleaf p hp
  refine (Cell.Part.cases_iff.mp h).imp id fun ⟨r, hr, hp⟩ => ?_
  rcases List.mem_cons.mp hr with rfl | hr
  · exact .inr (hleaf p hp)
  · obtain rfl := List.mem_singleton.mp hr
    exact hinner p hp

/-- The representations begin with the number of references. -/
theorem getRepr_sharedCell {p : Cell} (h : p.Part sharedCell) {x : Bytes}
    (hx : p.getRepr firstBytes = .ok x) : x.head? = some (BitVec.ofNat 8 p.refs.length) := by
  rcases part_sharedCell h with rfl | rfl | rfl
  · obtain rfl := Except.ok.inj hx
    rfl
  · obtain rfl := Except.ok.inj hx
    rfl
  · obtain rfl := Except.ok.inj hx
    rfl

theorem not_collision_sharedCell : ¬ Collision firstBytes sharedCell sharedCell := by
  rintro ⟨p, q, x, y, hp, hq, hx, hy, hne, heq⟩
  have hhead : ∀ z : Bytes, z ≠ [] → z.head? = (firstBytes z).1.head? := by
    intro z hz
    obtain _ | ⟨b, z⟩ := z
    · exact absurd rfl hz
    · rfl
  have hpx := getRepr_sharedCell hp hx
  have hqy := getRepr_sharedCell hq hy
  have hrefs : BitVec.ofNat 8 p.refs.length = BitVec.ofNat 8 q.refs.length := by
    rw [hhead x (by rintro rfl; cases hpx), heq, ← hhead y (by rintro rfl; cases hqy), hqy] at hpx
    exact (Option.some.inj hpx).symm
  have hpq : p = q := by
    rcases part_sharedCell hp with rfl | rfl | rfl <;>
      rcases part_sharedCell hq with rfl | rfl | rfl <;>
        first | rfl | exact absurd hrefs (by decide)
  rw [hpq, hy] at hx
  exact hne (Except.ok.inj hx).symm

theorem treeWalk_sharedCell : ∃ result,
    treeWalk firstBytes 3 sharedCell ⟨[], fun _ => none⟩ none = .ok result ∧
      result.Lists firstBytes sharedCell :=
  treeWalk_spec firstBytes valid_sharedCell not_collision_sharedCell (by decide)

end TonWallet.Cells
