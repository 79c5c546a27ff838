import Mathlib.Data.List.Nodup
import Mathlib.Logic.Function.Basic
import TonWallet.Lib.Trees

/-!
# Listing a tree with every parent in front of its children

The nodes of a tree are listed in the order of a walk from the root, each once. A node
that is met again below a later parent goes to the end of the list, and then, one after
the other, its children do (`moveToEnd`).

* `moveToEnd_moved`: what stands in a tree leaves its place and follows behind the rest,
  every parent in front of its children.
* `walk_lists`: the walk lists all that stands in the tree, each node once and every
  parent in front of its children. Such a list begins with the root (`Lists.head`).
* `Positions`: a map from keys to their positions in a list, and how it follows when
  a key is added or goes to the end.
-/

namespace Walk

open Trees Classical

variable {α : Type}

noncomputable section

mutual

/-- A node goes to the end, then its children do. -/
def moveToEnd : Rose α → List (Rose α) → List (Rose α)
  | .node a ts, l => moveAll ts (l.erase (.node a ts) ++ [.node a ts])

def moveAll : List (Rose α) → List (Rose α) → List (Rose α)
  | [], l => l
  | t :: ts, l => moveAll ts (moveToEnd t l)

end

mutual

/-- The walk to a node from its parent. -/
def walk (parent : Option (Rose α)) : Rose α → List (Rose α) → List (Rose α)
  | .node a ts, l =>
    if .node a ts ∈ l then
      if ∃ p ∈ parent, [.node a ts, p].Sublist l then moveToEnd (.node a ts) l else l
    else walkAll (.node a ts) ts (l ++ [.node a ts])

def walkAll (parent : Rose α) : List (Rose α) → List (Rose α) → List (Rose α)
  | [], l => l
  | t :: ts, l => walkAll parent ts (walk (some parent) t l)

end

/-! ## Moved to the end -/

/-- A list of all that has `P`, once each and every parent in front of its children. -/
structure Lists (P : Rose α → Prop) (l : List (Rose α)) : Prop where
  nodup : l.Nodup
  mem : ∀ t, t ∈ l ↔ P t
  ordered : Ordered l

/-- What has `P` has left its place in `l`, and follows behind the rest. -/
def Moved (P : Rose α → Prop) (l l' : List (Rose α)) : Prop :=
  ∃ tail, Lists P tail ∧ l' = l.filter (fun t => ¬ P t) ++ tail

variable {P Q : Rose α → Prop} {l l' l'' : List (Rose α)}

theorem pair_sublist_append {t u : Rose α} {as bs : List (Rose α)} (ht : t ∈ as) (hu : u ∈ bs) :
    [t, u].Sublist (as ++ bs) :=
  (List.singleton_sublist.mpr ht).append (List.singleton_sublist.mpr hu)

theorem Moved.mem (h : Moved P l l') {t : Rose α} : t ∈ l' ↔ t ∈ l ∨ P t := by
  obtain ⟨tail, htail, rfl⟩ := h
  rw [List.mem_append, htail.mem]
  by_cases hp : P t
  · simp [hp]
  · simp [hp]

theorem Moved.nodup (h : Moved P l l') (hl : l.Nodup) : l'.Nodup := by
  obtain ⟨tail, htail, rfl⟩ := h
  refine List.nodup_append.mpr ⟨hl.filter _, htail.nodup, fun t ht u hu he => ?_⟩
  subst he
  simp only [List.mem_filter, decide_eq_true_eq] at ht
  exact ht.2 ((htail.mem t).mp hu)

/-- A parent in front of its child stays there. -/
theorem Moved.keeps (h : Moved P l l') {t c : Rose α} (hc : c ∈ t.children)
    (hpair : [t, c].Sublist l) : [t, c].Sublist l' := by
  obtain ⟨tail, htail, rfl⟩ := h
  have ht : t ∈ l := hpair.subset (by simp)
  by_cases hPt : P t
  · exact (htail.ordered t ((htail.mem t).mpr hPt) c hc).trans (List.sublist_append_right _ _)
  · by_cases hPc : P c
    · exact pair_sublist_append (List.mem_filter.mpr ⟨ht, by simpa using hPt⟩)
        ((htail.mem c).mpr hPc)
    · have hfilter := hpair.filter fun t => decide ¬ P t
      rw [List.filter_cons_of_pos (by simpa using hPt),
        List.filter_cons_of_pos (by simpa using hPc),
        List.filter_nil] at hfilter
      exact hfilter.trans (List.sublist_append_left _ _)

/-- Moved parents are in front of their children. -/
theorem Moved.ordered (h : Moved P l l') {t c : Rose α} (ht : P t) (hc : c ∈ t.children) :
    [t, c].Sublist l' := by
  obtain ⟨tail, htail, rfl⟩ := h
  exact (htail.ordered t ((htail.mem t).mpr ht) c hc).trans (List.sublist_append_right _ _)

theorem Moved.trans (h : Moved P l l') (h' : Moved Q l' l'') :
    Moved (fun t => P t ∨ Q t) l l'' := by
  obtain ⟨tail, htail, rfl⟩ := h
  obtain ⟨tail', htail', rfl⟩ := h'
  have hmoved : Moved Q tail (tail.filter (fun t => ¬ Q t) ++ tail') := ⟨tail', htail', rfl⟩
  refine ⟨_, ⟨hmoved.nodup htail.nodup, fun t => ?_, fun t ht c hc => ?_⟩, ?_⟩
  · rw [hmoved.mem, htail.mem]
  · by_cases hQt : Q t
    · exact hmoved.ordered hQt hc
    · have hPt := (htail.mem t).mp ((hmoved.mem.mp ht).resolve_right hQt)
      exact hmoved.keeps hc (htail.ordered t ((htail.mem t).mpr hPt) c hc)
  · rw [List.filter_append, List.filter_filter, List.append_assoc]
    congr 1
    refine List.filter_congr fun t _ => ?_
    by_cases hPt : P t
    · simp [hPt]
    · simp [hPt]

theorem moveAll_moved {ts : List (Rose α)}
    (ih : ∀ t ∈ ts, ∀ l : List (Rose α), l.Nodup → Moved (Within · t) l (moveToEnd t l))
    (hl : l.Nodup) : Moved (fun u => ∃ t ∈ ts, Within u t) l (moveAll ts l) := by
  induction ts generalizing l with
  | nil =>
    refine ⟨[], ⟨List.nodup_nil, by simp, fun _ h => absurd h (List.not_mem_nil)⟩, ?_⟩
    rw [moveAll]
    simp
  | cons t ts ihs =>
    obtain ⟨ht, hts⟩ := List.forall_mem_cons.mp ih
    have hmoved := ht l hl
    have hall := hmoved.trans (ihs hts (hmoved.nodup hl))
    rw [moveAll]
    simpa only [List.exists_mem_cons_iff] using hall

theorem moveToEnd_moved (t : Rose α) (hl : l.Nodup) :
    Moved (Within · t) l (moveToEnd t l) := by
  induction t using Rose.induct generalizing l with
  | node a ts ih =>
    have hself : ¬ ∃ c ∈ ts, Within (Rose.node a ts) c := fun ⟨c, hc, h⟩ => not_within_child hc h
    have hfirst : (l.erase (Rose.node a ts) ++ [Rose.node a ts]).Nodup := by
      rw [List.nodup_append]
      refine ⟨hl.erase _, List.nodup_singleton _, fun t ht u hu he => ?_⟩
      rw [List.mem_singleton.mp hu] at he
      exact hl.not_mem_erase (he ▸ ht)
    obtain ⟨tail, htail, heq⟩ := moveAll_moved (fun t ht l hl => ih t ht hl) hfirst
    refine ⟨.node a ts :: tail, ⟨List.nodup_cons.mpr ⟨fun h => hself ((htail.mem _).mp h),
      htail.nodup⟩, fun t => ?_, fun t ht c hc => ?_⟩, ?_⟩
    · rw [List.mem_cons, htail.mem, Within.cases_iff]
      rfl
    · rcases List.mem_cons.mp ht with rfl | ht
      · exact ((List.singleton_sublist.mpr ((htail.mem c).mpr ⟨c, hc, .refl⟩)).cons_cons _)
      · exact (htail.ordered t ht c hc).cons _
    · rw [moveToEnd, heq, List.filter_append, hl.erase_eq_filter, List.filter_filter,
        List.filter_cons_of_pos (by simpa using hself), List.filter_nil, List.append_assoc]
      congr 1
      refine List.filter_congr fun t _ => ?_
      have hw : Within t (.node a ts) ↔ t = .node a ts ∨ ∃ c ∈ ts, Within t c := Within.cases_iff
      simp only [hw]
      by_cases h : t = .node a ts
      · simp [h]
      · simp [h]

/-! ## The walk -/

/-- Of two nodes of a list one is in front of the other. -/
theorem pair_sublist_or {t u : Rose α} (hne : t ≠ u) (ht : t ∈ l) (hu : u ∈ l) :
    [t, u].Sublist l ∨ [u, t].Sublist l := by
  induction l with
  | nil => cases ht
  | cons x l ih =>
    rcases List.mem_cons.mp ht with rfl | htl
    · have hul := (List.mem_cons.mp hu).resolve_left fun h => hne h.symm
      exact .inl ((List.singleton_sublist.mpr hul).cons_cons _)
    · rcases List.mem_cons.mp hu with rfl | hul
      · exact .inr ((List.singleton_sublist.mpr htl).cons_cons _)
      · exact (ih htl hul).imp (.cons _) (.cons _)

/-- A node is in front of another one if its position is. -/
theorem pair_sublist_iff (hl : l.Nodup) {t u : Rose α} {i j : ℕ} (hi : l[i]? = some t)
    (hj : l[j]? = some u) : [t, u].Sublist l ↔ i < j := by
  induction l generalizing i j with
  | nil => cases hi
  | cons x l ih =>
    obtain ⟨hx, hl⟩ := List.nodup_cons.mp hl
    cases i with
    | zero =>
      obtain rfl := Option.some.inj hi
      rw [List.cons_sublist_cons, List.singleton_sublist]
      cases j with
      | zero =>
        obtain rfl := Option.some.inj hj
        exact iff_of_false hx (Nat.lt_irrefl 0)
      | succ j => exact iff_of_true (List.mem_of_getElem? hj) (Nat.succ_pos j)
    | succ i =>
      have ht : t ∈ l := List.mem_of_getElem? hi
      have hskip : [t, u].Sublist (x :: l) ↔ [t, u].Sublist l := by
        refine ⟨fun h => ?_, .cons _⟩
        rcases List.sublist_cons_iff.mp h with h | ⟨r, hr, -⟩
        · exact h
        · exact absurd ((List.cons.inj hr).1 ▸ ht) hx
      rw [hskip]
      cases j with
      | zero =>
        obtain rfl := Option.some.inj hj
        exact iff_of_false (fun h => hx (h.subset (by simp))) (Nat.not_lt_zero _)
      | succ j => exact (ih hl hi hj).trans Nat.succ_lt_succ_iff.symm

/-- Of every node of the list that is not open, the children follow. -/
def Complete (isOpen : Rose α → Prop) (l : List (Rose α)) : Prop :=
  ∀ t ∈ l, ¬ isOpen t → ∀ c ∈ t.children, [t, c].Sublist l

/-- What a walk leaves behind that was to list all that has `P`. -/
structure Walked (isOpen P : Rose α → Prop) (l l' : List (Rose α)) : Prop where
  nodup : l'.Nodup
  mem : ∀ t, t ∈ l' ↔ t ∈ l ∨ P t
  keeps : ∀ t, ∀ c ∈ t.children, [t, c].Sublist l → [t, c].Sublist l'
  complete : Complete isOpen l'

theorem Complete.mem {isOpen : Rose α → Prop} (h : Complete isOpen l) {t u : Rose α}
    (hclosed : ∀ u, Within u t → ¬ isOpen u) (ht : t ∈ l) (hu : Within u t) : u ∈ l := by
  induction hu with
  | refl => exact ht
  | child _ hc ih =>
    refine ih (fun v hv => hclosed v (.child hv hc)) ?_
    exact (h _ ht (hclosed _ .refl) _ hc).subset (by simp)

theorem walk_moved {parent : Option (Rose α)} {t : Rose α} (ht : t ∈ l)
    (h : ∃ p ∈ parent, [t, p].Sublist l) : walk parent t l = moveToEnd t l := by
  obtain ⟨a, ts⟩ := t
  rw [walk, if_pos ht, if_pos h]

theorem walk_kept {parent : Option (Rose α)} {t : Rose α} (ht : t ∈ l)
    (h : ¬ ∃ p ∈ parent, [t, p].Sublist l) : walk parent t l = l := by
  obtain ⟨a, ts⟩ := t
  rw [walk, if_pos ht, if_neg h]

theorem walk_new {parent : Option (Rose α)} {t : Rose α} (ht : t ∉ l) :
    walk parent t l = walkAll t t.children (l ++ [t]) := by
  obtain ⟨a, ts⟩ := t
  rw [walk, if_neg ht]
  rfl

/-- A node that is added is open until its children have been walked to. -/
theorem Complete.open_last {isOpen : Rose α → Prop} (h : Complete isOpen l) (t : Rose α) :
    Complete (fun u => isOpen u ∨ u = t) (l ++ [t]) := by
  intro u hu hopen c hc
  rw [not_or] at hopen
  have hu : u ∈ l := (List.mem_append.mp hu).resolve_right fun h =>
    hopen.2 (List.mem_singleton.mp h)
  exact (h u hu hopen.1 c hc).trans (List.sublist_append_left _ _)

/-- A node that was listed before, from a parent or at the root. -/
theorem walked_again {isOpen : Rose α → Prop} {parent : Option (Rose α)} {t : Rose α}
    (hl : l.Nodup) (hcomplete : Complete isOpen l) (hclosed : ∀ u, Within u t → ¬ isOpen u)
    (ht : t ∈ l) (hparent : ∀ p ∈ parent, p ∈ l ∧ t ∈ p.children) :
    Walked isOpen (Within · t) l (walk parent t l) ∧
      ∀ p ∈ parent, [p, t].Sublist (walk parent t l) := by
  by_cases hbefore : ∃ p ∈ parent, [t, p].Sublist l
  · rw [walk_moved ht hbefore]
    have hmoved := moveToEnd_moved t hl
    refine ⟨⟨hmoved.nodup hl, fun u => hmoved.mem, fun u c hc => hmoved.keeps hc,
      fun u hu hopen c hc => ?_⟩, fun p hp => ?_⟩
    · by_cases hut : Within u t
      · exact hmoved.ordered hut hc
      · exact hmoved.keeps hc (hcomplete u ((hmoved.mem.mp hu).resolve_right hut) hopen c hc)
    · obtain ⟨hpl, htp⟩ := hparent p hp
      obtain ⟨tail, htail, heq⟩ := hmoved
      rw [heq]
      exact pair_sublist_append (List.mem_filter.mpr ⟨hpl, by simpa using not_within_child htp⟩)
        ((htail.mem t).mpr .refl)
  · rw [walk_kept ht hbefore]
    refine ⟨⟨hl, fun u => (or_iff_left_of_imp fun hu => hcomplete.mem hclosed ht hu).symm,
      fun _ _ _ h => h, hcomplete⟩, fun p hp => ?_⟩
    obtain ⟨hpl, htp⟩ := hparent p hp
    have hne : p ≠ t := fun h => not_within_child htp (h ▸ .refl)
    exact (pair_sublist_or hne hpl ht).resolve_right fun h => hbefore ⟨p, hp, h⟩

/-- What a walk to a node does, from a list of which its ancestors are open. -/
def WalkSpec (t : Rose α) : Prop := ∀ (isOpen : Rose α → Prop) (parent : Option (Rose α))
    (l : List (Rose α)), l.Nodup → Complete isOpen l → (∀ u, Within u t → ¬ isOpen u) →
    (∀ p ∈ parent, p ∈ l ∧ t ∈ p.children) →
    Walked isOpen (Within · t) l (walk parent t l) ∧ ∀ p ∈ parent, [p, t].Sublist (walk parent t l)

/-- The children of a node that has been listed, walked to one after the other. -/
theorem walkAll_spec {isOpen : Rose α → Prop} {p : Rose α} {ts : List (Rose α)}
    (ih : ∀ t ∈ ts, WalkSpec t) (hts : ∀ t ∈ ts, t ∈ p.children)
    (hl : l.Nodup) (hcomplete : Complete isOpen l)
    (hclosed : ∀ t ∈ ts, ∀ u, Within u t → ¬ isOpen u) (hp : p ∈ l) :
    Walked isOpen (fun u => ∃ t ∈ ts, Within u t) l (walkAll p ts l) ∧
      ∀ t ∈ ts, [p, t].Sublist (walkAll p ts l) := by
  induction ts generalizing l with
  | nil =>
    rw [walkAll]
    exact ⟨⟨hl, by simp, fun _ _ _ h => h, hcomplete⟩, List.forall_mem_nil _⟩
  | cons t ts ihs =>
    obtain ⟨iht, ih⟩ := List.forall_mem_cons.mp ih
    obtain ⟨htp, hts⟩ := List.forall_mem_cons.mp hts
    obtain ⟨hclosedt, hclosed⟩ := List.forall_mem_cons.mp hclosed
    obtain ⟨h₁, hpair⟩ := iht isOpen (some p) l hl hcomplete hclosedt
      fun q hq => Option.some.inj hq ▸ ⟨hp, htp⟩
    obtain ⟨h₂, hpairs⟩ := ihs ih hts h₁.nodup h₁.complete hclosed ((h₁.mem p).mpr (.inl hp))
    rw [walkAll]
    refine ⟨⟨h₂.nodup, fun u => ?_, fun u c hc h => h₂.keeps u c hc (h₁.keeps u c hc h),
      h₂.complete⟩, List.forall_mem_cons.mpr ⟨h₂.keeps p t htp (hpair p rfl), hpairs⟩⟩
    rw [h₂.mem, h₁.mem, or_assoc, List.exists_mem_cons_iff]

theorem walk_step (t : Rose α) : WalkSpec t := by
  induction t using Rose.induct with
  | node a ts ih =>
    intro isOpen parent l hl hcomplete hclosed hparent
    by_cases ht : Rose.node a ts ∈ l
    · exact walked_again hl hcomplete hclosed ht hparent
    · have hl₁ : (l ++ [Rose.node a ts]).Nodup := by
        refine List.nodup_append.mpr ⟨hl, List.nodup_singleton _, fun u hu v hv he => ?_⟩
        rw [he, List.mem_singleton.mp hv] at hu
        exact ht hu
      obtain ⟨h, hpairs⟩ := walkAll_spec (p := .node a ts) ih (fun _ h => h) hl₁
        (hcomplete.open_last (.node a ts)) (fun t ht u hu hopen =>
          hopen.elim (hclosed u (.child hu ht)) fun he => not_within_child ht (he ▸ hu))
        (List.mem_append_right _ (List.mem_singleton_self _))
      rw [walk_new ht, Rose.children_node]
      refine ⟨⟨h.nodup, fun u => ?_, fun u c hc hpair => ?_, fun u hu hopen c hc => ?_⟩,
        fun p hp => ?_⟩
      · rw [h.mem, List.mem_append, List.mem_singleton, or_assoc, Within.cases_iff (t := u)]
        rfl
      · exact h.keeps u c hc (hpair.trans (List.sublist_append_left _ _))
      · by_cases he : u = .node a ts
        · subst he
          exact hpairs c hc
        · exact h.complete u hu (not_or.mpr ⟨hopen, he⟩) c hc
      · obtain ⟨hpl, htp⟩ := hparent p hp
        exact h.keeps p _ htp (pair_sublist_append hpl (List.mem_singleton_self _))

/-- **The walk lists all that stands in the tree**, each node once and every parent in front of its
children. -/
theorem walk_lists (t : Rose α) : Lists (Within · t) (walk none t []) := by
  obtain ⟨h, -⟩ := walk_step t (fun _ => False) none [] List.nodup_nil (by simp [Complete])
    (fun _ _ h => h) (by simp)
  exact ⟨h.nodup, fun u => by simpa using h.mem u, fun u hu c hc => h.complete u hu id c hc⟩

/-- A list of all that stands in a tree, every parent in front of its children, begins with the
root. -/
theorem Lists.head {t : Rose α} (h : Lists (Within · t) l) : l.head? = some t := by
  obtain _ | ⟨x, l⟩ := l
  · exact absurd ((h.mem t).mpr .refl) List.not_mem_nil
  · have hx : Within x t := (h.mem x).mp List.mem_cons_self
    rcases hx.exists_parent with rfl | ⟨p, hp, hxp⟩
    · rfl
    · -- a parent of the first node would stand behind it
      have hpair := h.ordered p ((h.mem p).mpr hp) x hxp
      have hnot := (List.nodup_cons.mp h.nodup).1
      rcases List.sublist_cons_iff.mp hpair with hpair | ⟨r, hr, hpair⟩
      · exact absurd (hpair.subset (by simp)) hnot
      · obtain ⟨rfl, rfl⟩ := List.cons.inj hr
        exact absurd (List.singleton_sublist.mp hpair) hnot

end

/-! ## Positions -/

section
variable {κ : Type} {keys : List κ} {index : κ → Option ℕ}

/-- The positions of the keys of a list. -/
def Positions (keys : List κ) (index : κ → Option ℕ) : Prop :=
  ∀ k i, index k = some i ↔ keys[i]? = some k

theorem Positions.mem_iff (h : Positions keys index) {k : κ} :
    k ∈ keys ↔ ∃ i, index k = some i := by
  rw [List.mem_iff_getElem?]
  exact exists_congr fun i => (h k i).symm

theorem Positions.nodup (h : Positions keys index) : keys.Nodup := by
  refine List.nodup_iff_getElem?_ne_getElem?.mpr fun i j hij hj he => ?_
  have hi := (h keys[j] i).mpr (he.trans (List.getElem?_eq_getElem hj))
  have hj' := (h keys[j] j).mpr (List.getElem?_eq_getElem hj)
  exact absurd (Option.some.inj (hi.symm.trans hj')) (Nat.ne_of_lt hij)

variable [DecidableEq κ]

/-- A key that is added. -/
theorem Positions.add (h : Positions keys index) {k : κ} (hk : index k = none) :
    Positions (keys ++ [k]) (Function.update index k (some keys.length)) := by
  have hmem : k ∉ keys := fun hmem => by
    obtain ⟨i, hi⟩ := h.mem_iff.mp hmem
    rw [hk] at hi
    cases hi
  intro x i
  rw [List.getElem?_append]
  by_cases hx : x = k
  · subst hx
    rw [Function.update_self, Option.some.injEq]
    split
    · rename_i hi
      refine iff_of_false (by omega) fun he => hmem (List.mem_of_getElem? he)
    · rename_i hi
      rw [List.getElem?_singleton]
      by_cases he : i - keys.length = 0
      · simp only [he, if_true]
        exact iff_of_true (by omega) trivial
      · simp only [he, if_false]
        exact iff_of_false (by omega) (by simp)
  · rw [Function.update_of_ne hx, h]
    split
    · rfl
    · rename_i hi
      rw [List.getElem?_eq_none (Nat.not_lt.mp hi), List.getElem?_singleton]
      split
      · simpa using fun h => hx h.symm
      · rfl

/-- A key that goes to the end: those behind it move up. -/
theorem Positions.moveToEnd (h : Positions keys index) {k : κ} {t : ℕ} (hk : index k = some t) :
    Positions (keys.eraseIdx t ++ [k])
      (Function.update (fun x => (index x).map fun i => if t < i then i - 1 else i) k
        (some (keys.length - 1))) := by
  have htk := (h k t).mp hk
  obtain ⟨ht, -⟩ := List.getElem?_eq_some_iff.mp htk
  have hlen : (keys.eraseIdx t).length = keys.length - 1 := List.length_eraseIdx_of_lt ht
  intro x i
  rw [List.getElem?_append, hlen, List.getElem?_eraseIdx]
  by_cases hx : x = k
  · subst hx
    have honly : ∀ j, keys[j]? = some x → j = t := fun j hj =>
      Option.some.inj (((h x j).mpr hj).symm.trans hk)
    rw [Function.update_self, Option.some.injEq]
    split
    · refine iff_of_false (by omega) fun he => ?_
      split at he
      · exact absurd (honly _ he) (by omega)
      · exact absurd (honly _ he) (by omega)
    · rw [List.getElem?_singleton]
      by_cases he : i - (keys.length - 1) = 0
      · simp only [he, if_true]
        exact iff_of_true (by omega) trivial
      · simp only [he, if_false]
        exact iff_of_false (by omega) (by simp)
  · have hne : ∀ j, index x = some j → j ≠ t := fun j hj he => by
      rw [he, h] at hj
      exact hx (Option.some.inj (hj.symm.trans htk))
    have hbound : ∀ j, index x = some j → j < keys.length := fun j hj =>
      (List.getElem?_eq_some_iff.mp ((h x j).mp hj)).1
    rw [Function.update_of_ne hx, Option.map_eq_some_iff]
    split
    · rename_i hi
      constructor
      · rintro ⟨j, hj, rfl⟩
        have hjt := hne j hj
        have hjx := (h x j).mp hj
        by_cases hlt : t < j
        · rw [if_pos hlt, if_neg (by omega), show j - 1 + 1 = j by omega]
          exact hjx
        · rw [if_neg hlt, if_pos (by omega)]
          exact hjx
      · intro he
        split at he
        · exact ⟨i, (h x i).mpr he, if_neg (by omega)⟩
        · refine ⟨i + 1, (h x _).mpr he, ?_⟩
          rw [if_pos (by omega), Nat.add_sub_cancel]
    · rename_i hi
      rw [List.getElem?_singleton]
      refine iff_of_false ?_ ?_
      · rintro ⟨j, hj, he⟩
        have := hbound j hj
        have := hne j hj
        split at he
        · omega
        · omega
      · split
        · simpa using fun h => hx h.symm
        · simp

end

end Walk
