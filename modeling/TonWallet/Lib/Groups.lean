import Mathlib.Data.List.Basic
import Mathlib.Tactic.Common

/-!
# Grouping by a key

`groupBy key` puts the elements of a list into groups, one for each key, in the
order in which the keys come up. A group keeps the order of its elements.

* `groupBy_cons`: the first group, and the others.
* `same_group_iff`: two elements are in one group if they have one key.
* `flatten_groupBy_iff`: the groups make up the list if and only if no key comes
  back after another one.
-/

namespace Groups

variable {α κ : Type*} [DecidableEq κ] {key : α → κ} {l : List α} {a b c : α} {k : κ}

/-- An element is put into the group of its key, or into a new one. -/
def insert (k : κ) (a : α) : List (κ × List α) → List (κ × List α)
  | [] => [(k, [a])]
  | g :: groups => if g.1 = k then (g.1, g.2 ++ [a]) :: groups else g :: insert k a groups

/-- The groups of a list. -/
def groupBy (key : α → κ) (l : List α) : List (κ × List α) :=
  l.foldl (fun groups a => insert (key a) a groups) []

/-- No key comes back after another one. -/
def Contiguous (key : α → κ) (l : List α) : Prop :=
  ∀ a c b, [a, c, b].Sublist l → key a = key b → key c = key a

/-! ## The groups -/

theorem foldl_insert (g : κ × List α) (groups : List (κ × List α)) (l : List α) :
    l.foldl (fun groups a => insert (key a) a groups) (g :: groups)
      = (g.1, g.2 ++ l.filter fun b => key b = g.1)
        :: (l.filter fun b => key b ≠ g.1).foldl (fun groups a => insert (key a) a groups)
          groups := by
  induction l generalizing g groups with
  | nil => simp
  | cons a l ih =>
    rw [List.foldl_cons, insert]
    by_cases h : key a = g.1
    · rw [if_pos h.symm, ih, List.filter_cons_of_pos (by simpa using h),
        List.filter_cons_of_neg (by simpa using h)]
      simp
    · rw [if_neg (Ne.symm h), ih, List.filter_cons_of_neg (by simpa using h),
        List.filter_cons_of_pos (by simpa using h), List.foldl_cons]

theorem groupBy_cons (a : α) (l : List α) :
    groupBy key (a :: l)
      = (key a, a :: l.filter fun b => key b = key a)
        :: groupBy key (l.filter fun b => key b ≠ key a) := by
  rw [groupBy, List.foldl_cons, insert, foldl_insert]
  rfl

/-- Induction by groups: what is left of a list without the first group. -/
theorem induction_groups {P : List α → Prop} (key : α → κ) (nil : P [])
    (cons : ∀ a l, P (l.filter fun b => key b ≠ key a) → P (a :: l)) : ∀ l, P l
  | [] => nil
  | a :: l => cons a l (induction_groups key nil cons _)
termination_by l => l.length
decreasing_by exact Nat.lt_succ_of_le (List.length_filter_le _ _)

/-- A group has all elements of its key. -/
theorem mem_groupBy {g : κ × List α} :
    g ∈ groupBy key l ↔ g.1 ∈ l.map key ∧ g.2 = l.filter fun b => key b = g.1 := by
  induction l using induction_groups key with
  | nil => simp [groupBy]
  | cons a l ih =>
    obtain ⟨k, group⟩ := g
    rw [groupBy_cons, List.mem_cons, ih, Prod.mk.injEq, List.filter_filter]
    by_cases hk : k = key a
    · subst hk
      have hnone : key a ∉ (l.filter fun b => key b ≠ key a).map key := by simp
      rw [List.filter_cons_of_pos (by simp)]
      simp only [hnone, false_and, or_false, true_and, List.map_cons, List.mem_cons, true_or]
    · have hfilter : (l.filter fun b => decide (key b = k) && decide (key b ≠ key a))
          = l.filter fun b => key b = k := by
        refine List.filter_congr fun b _ => ?_
        by_cases hb : key b = k
        · simp [hb, hk]
        · simp [hb]
      rw [hfilter, List.filter_cons_of_neg (by simpa using Ne.symm hk)]
      simp only [hk, false_and, false_or, List.map_cons, List.mem_cons, List.mem_map,
        List.mem_filter, decide_eq_true_eq]
      refine and_congr_left fun _ => ⟨?_, ?_⟩
      · rintro ⟨b, ⟨hb, -⟩, rfl⟩
        exact ⟨b, hb, rfl⟩
      · rintro ⟨b, hb, rfl⟩
        exact ⟨b, ⟨hb, hk⟩, rfl⟩

/-- Two elements are in one group if they have one key. -/
theorem same_group_iff (ha : a ∈ l) (hb : b ∈ l) :
    (∃ g ∈ groupBy key l, a ∈ g.2 ∧ b ∈ g.2) ↔ key a = key b := by
  constructor
  · rintro ⟨g, hg, hag, hbg⟩
    rw [(mem_groupBy.mp hg).2, List.mem_filter, decide_eq_true_eq] at hag hbg
    exact hag.2.trans hbg.2.symm
  · intro h
    refine ⟨(key a, l.filter fun b => key b = key a),
      mem_groupBy.mpr ⟨List.mem_map_of_mem ha, rfl⟩, ?_, ?_⟩
    · exact List.mem_filter.mpr ⟨ha, by simp⟩
    · exact List.mem_filter.mpr ⟨hb, by simp [h]⟩

/-- The groups have no other elements than the list. -/
theorem mem_flatten_groupBy : a ∈ (groupBy key l).flatMap Prod.snd ↔ a ∈ l := by
  rw [List.mem_flatMap]
  constructor
  · rintro ⟨g, hg, ha⟩
    rw [(mem_groupBy.mp hg).2] at ha
    exact (List.mem_filter.mp ha).1
  · intro ha
    obtain ⟨g, hg, hag, -⟩ := (same_group_iff ha ha).mpr (rfl : key a = key a)
    exact ⟨g, hg, hag⟩

/-! ## The order of the elements -/

omit [DecidableEq κ] in
theorem Contiguous.sublist {m : List α} (h : Contiguous key l) (hm : m.Sublist l) :
    Contiguous key m :=
  fun a c b hsub => h a c b (hsub.trans hm)

/-- The elements of a key come first if none of them comes after another one. -/
theorem filter_append_filter {l : List α}
    (h : l.Pairwise fun c b => key b = k → key c = k) :
    (l.filter fun b => key b = k) ++ (l.filter fun b => key b ≠ k) = l := by
  induction l with
  | nil => rfl
  | cons c l ih =>
    obtain ⟨hc, hl⟩ := List.pairwise_cons.mp h
    by_cases hk : key c = k
    · rw [List.filter_cons_of_pos (by simpa using hk), List.filter_cons_of_neg (by simpa using hk),
        List.cons_append, ih hl]
    · have hnil : (l.filter fun b => key b = k) = [] :=
        List.filter_eq_nil_iff.mpr fun b hb hkb => hk (hc b hb (of_decide_eq_true hkb))
      have hall : (l.filter fun b => key b ≠ k) = l :=
        List.filter_eq_self.mpr fun b hb => decide_eq_true fun hkb => hk (hc b hb hkb)
      rw [List.filter_cons_of_neg (by simpa using hk), List.filter_cons_of_pos (by simpa using hk),
        hnil, hall, List.nil_append]

/-- A list whose first group stands together, and is followed by a list in which no key comes
back, is one too. -/
theorem contiguous_cons (hl : (l.filter fun b => key b = key a)
      ++ (l.filter fun b => key b ≠ key a) = l)
    (h : Contiguous key (l.filter fun b => key b ≠ key a)) : Contiguous key (a :: l) := by
  intro x c y hsub he
  rw [← hl, ← List.cons_append] at hsub
  obtain ⟨m₁, m₂, hm, h₁, h₂⟩ := List.sublist_append_iff.mp hsub
  have hfirst : ∀ z ∈ m₁, key z = key a := by
    intro z hz
    obtain rfl | hz := List.mem_cons.mp (h₁.subset hz)
    · rfl
    · exact of_decide_eq_true (List.mem_filter.mp hz).2
  have hothers : ∀ z ∈ m₂, key z ≠ key a := fun z hz =>
    of_decide_eq_true (List.mem_filter.mp (h₂.subset hz)).2
  cases m₁ with
  | nil =>
    rw [List.nil_append] at hm
    exact h x c y (hm ▸ h₂) he
  | cons x' m₁ =>
    obtain rfl : x = x' := (List.cons.inj hm).1
    have htail : [c, y] = m₁ ++ m₂ := (List.cons.inj hm).2
    have hx := hfirst x (List.mem_cons_self ..)
    -- The last of the three has the first key, so that all of them stand in the first part.
    obtain rfl : m₂ = [] := by
      obtain rfl | ⟨init, z, rfl⟩ := List.eq_nil_or_concat' m₂
      · rfl
      · have hlast : [c, y].getLast? = some z := by
          rw [htail, ← List.append_assoc, List.getLast?_concat]
        obtain rfl : y = z := Option.some.inj hlast
        exact absurd (he.symm.trans hx) (hothers y (List.mem_append_right _ List.mem_cons_self))
    rw [List.append_nil] at htail
    have hc : c ∈ m₁ := htail ▸ List.mem_cons_self ..
    exact (hfirst c (List.mem_cons_of_mem _ hc)).trans hx.symm

/-- The groups make up the list if and only if no key comes back after another one. -/
theorem flatten_groupBy_iff : (groupBy key l).flatMap Prod.snd = l ↔ Contiguous key l := by
  induction l using induction_groups key with
  | nil => simp [groupBy, Contiguous]
  | cons a l ih =>
    rw [groupBy_cons, List.flatMap_cons, List.cons_append, List.cons.injEq, and_iff_right rfl]
    constructor
    · intro h
      have hrest : (groupBy key (l.filter fun b => key b ≠ key a)).flatMap Prod.snd
          = l.filter fun b => key b ≠ key a := by
        conv_rhs => rw [← h]
        rw [List.filter_append, List.filter_filter,
          List.filter_eq_self (l := List.flatMap _ _) |>.mpr]
        · simp
        · intro b hb
          exact (List.mem_filter.mp (mem_flatten_groupBy.mp hb)).2
      rw [hrest] at h
      exact contiguous_cons h (ih.mp hrest)
    · intro h
      have hpairs : l.Pairwise fun c b => key b = key a → key c = key a :=
        List.pairwise_iff_forall_sublist.mpr fun hsub hb =>
          h a _ _ (hsub.cons_cons a) hb.symm
      have hrest := h.sublist ((List.filter_sublist (p := fun b => key b ≠ key a)).trans
        (List.sublist_cons_self a l))
      rw [ih.mpr hrest, filter_append_filter hpairs]

end Groups
