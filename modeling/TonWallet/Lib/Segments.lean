import Mathlib.Algebra.BigOperators.Group.List.Basic
import Mathlib.Algebra.GroupWithZero.Nat
import Mathlib.Data.List.Perm.Subperm
import Mathlib.Tactic.Common

/-!
# Segments

A list that is split at a separator.

* `segments_length`: segments that differ from each other, with their
  separators, are at most as long as the list; they are as long only if there
  are no others.
* `separated_inj`, `head_splitOn`: what stands before the first separator is
  determined, and is the first segment.
* `gaps_flatten`: where the empty segments are depends on the separators only.
-/

namespace Segments

variable {α : Type*} [DecidableEq α] {sep : α}

variable (sep) in
/-- The lengths of the segments, and how many there are. -/
theorem splitOn_spec (l : List α) :
    ((l.splitOn sep).map fun s => s.length + 1).sum = l.length + 1 ∧
      (l.splitOn sep).length = l.count sep + 1 := by
  induction l with
  | nil => simp [List.splitOn_nil]
  | cons c l ih =>
    obtain ⟨s, rest, hs⟩ := List.exists_cons_of_ne_nil (List.splitOn_ne_nil sep l)
    rw [List.splitOn_cons_eq_if_modifyHead]
    rw [hs, List.map_cons, List.sum_cons, List.length_cons] at ih
    by_cases hc : c = sep
    · simp only [hc, beq_self_eq_true, if_true, hs, List.map_cons, List.sum_cons, List.length_cons,
        List.length_nil, List.count_cons_self]
      omega
    · rw [List.count_cons_of_ne hc, if_neg (by simpa using hc), hs, List.modifyHead_cons]
      simp only [List.map_cons, List.sum_cons, List.length_cons]
      omega

/-- Segments that differ are a part of all segments. -/
theorem segments_length {segs : List (List α)} {l : List α} (hnd : segs.Nodup)
    (h : ∀ s ∈ segs, s ∈ l.splitOn sep) :
    (segs.map fun s => s.length + 1).sum ≤ l.length + 1 ∧
      ((segs.map fun s => s.length + 1).sum = l.length + 1 → l.count sep + 1 = segs.length) := by
  obtain ⟨hsum, hlen⟩ := splitOn_spec sep l
  obtain ⟨t, hperm, hsub⟩ := List.subperm_of_subset hnd h
  have hseg := (hperm.map fun s : List α => s.length + 1).sum_eq
  rw [← hseg, ← hperm.length_eq, ← hsum, ← hlen]
  generalize l.splitOn sep = segments at hsub
  clear hsum hlen hseg hperm
  induction hsub with
  | slnil => simp
  | cons s _ ih =>
    simp only [List.map_cons, List.sum_cons]
    omega
  | cons_cons s _ ih =>
    simp only [List.map_cons, List.sum_cons, List.length_cons]
    omega

variable (sep) in
/-- The first segment is what stands before the first separator. -/
theorem head_splitOn (l : List α) : (l.splitOn sep).head? = some (l.takeWhile (· ≠ sep)) := by
  induction l with
  | nil => simp [List.splitOn_nil]
  | cons c l ih =>
    rw [List.splitOn_cons_eq_if_modifyHead]
    by_cases hc : c = sep
    · simp [hc]
    · obtain ⟨s, rest, hs⟩ := List.exists_cons_of_ne_nil (List.splitOn_ne_nil sep l)
      rw [hs, List.head?_cons] at ih
      rw [if_neg (by simpa using hc), hs, List.modifyHead_cons, List.head?_cons,
        List.takeWhile_cons_of_pos (by simpa using hc), Option.some.inj ih]

omit [DecidableEq α] in
/-- What stands before the first separator is determined. -/
theorem separated_inj {a b x y : List α} (ha : sep ∉ a) (hb : sep ∉ b)
    (h : a ++ sep :: x = b ++ sep :: y) : a = b ∧ x = y := by
  induction a generalizing b with
  | nil =>
    cases b with
    | nil => exact ⟨rfl, List.cons.inj h |>.2⟩
    | cons d b => exact absurd (List.cons.inj h).1 fun e => hb (e ▸ List.mem_cons_self ..)
  | cons c a ih =>
    cases b with
    | nil => exact absurd (List.cons.inj h).1.symm fun e => ha (e ▸ List.mem_cons_self ..)
    | cons d b =>
      obtain ⟨rfl, h'⟩ := List.cons.inj h
      obtain ⟨rfl, rfl⟩ := ih (List.not_mem_of_not_mem_cons ha) (List.not_mem_of_not_mem_cons hb) h'
      exact ⟨rfl, rfl⟩

/-- Segments have no elements of their own. -/
theorem mem_of_mem_splitOn {l s : List α} (hs : s ∈ l.splitOn sep) {c : α} (hc : c ∈ s) :
    c ∈ l := by
  induction l generalizing s with
  | nil =>
    rw [List.splitOn_nil, List.mem_singleton] at hs
    exact hs ▸ hc
  | cons d l ih =>
    obtain ⟨t, rest, ht⟩ := List.exists_cons_of_ne_nil (List.splitOn_ne_nil sep l)
    rw [List.splitOn_cons_eq_if_modifyHead, ht] at hs
    rw [ht] at ih
    split at hs
    · obtain rfl | hs := List.mem_cons.mp hs
      · cases hc
      · exact List.mem_cons_of_mem _ (ih hs hc)
    · obtain rfl | hs := List.mem_cons.mp hs
      · obtain rfl | hc := List.mem_cons.mp hc
        · exact List.mem_cons_self
        · exact List.mem_cons_of_mem _ (ih List.mem_cons_self hc)
      · exact List.mem_cons_of_mem _ (ih (List.mem_cons_of_mem _ hs) hc)

/-- Segments are free of the separator. -/
theorem not_mem_of_mem_splitOn {l s : List α} (hs : s ∈ l.splitOn sep) : sep ∉ s := by
  induction l generalizing s with
  | nil =>
    rw [List.splitOn_nil, List.mem_singleton] at hs
    exact hs ▸ List.not_mem_nil
  | cons c l ih =>
    obtain ⟨t, rest, ht⟩ := List.exists_cons_of_ne_nil (List.splitOn_ne_nil sep l)
    rw [List.splitOn_cons_eq_if_modifyHead, ht] at hs
    rw [ht] at ih
    split at hs
    · obtain rfl | hs := List.mem_cons.mp hs
      · exact List.not_mem_nil
      · exact ih hs
    · rename_i hc
      obtain rfl | hs := List.mem_cons.mp hs
      · rw [List.mem_cons, not_or]
        exact ⟨fun h => hc (by simp [h]), ih List.mem_cons_self⟩
      · exact ih (List.mem_cons_of_mem _ hs)

/-- Two segments, and separators behind them. -/
theorem splitOn_pair {a b : List α} (ha : sep ∉ a) (hb : sep ∉ b) (k : ℕ) :
    (a ++ sep :: (b ++ List.replicate k sep)).splitOn sep = [a, b] ++ List.replicate k [] := by
  have hempty : ∀ k, (List.replicate k sep).splitOn sep = List.replicate (k + 1) [] := by
    intro k
    induction k with
    | zero => exact List.splitOn_nil sep
    | succ k ih =>
      rw [List.replicate_succ, List.splitOn_cons_eq_if_modifyHead,
        if_pos (beq_self_eq_true sep), ih]
      rfl
  rw [List.splitOn_append_cons_self_of_not_mem ha]
  cases k with
  | zero => rw [List.replicate_zero, List.append_nil, List.splitOn_eq_singleton hb]; rfl
  | succ k =>
    rw [List.replicate_succ, List.splitOn_append_cons_self_of_not_mem hb, hempty]
    rfl

/-! ## Empty segments -/

variable (sep) in
/-- Which of the segments are empty. -/
def gaps (l : List α) : List Bool := (l.splitOn sep).map List.isEmpty

theorem nil_mem_splitOn {l : List α} : [] ∈ l.splitOn sep ↔ true ∈ gaps sep l := by
  rw [gaps, List.mem_map]
  simp only [List.isEmpty_iff, exists_eq_right]

theorem gaps_cons_self (l : List α) : gaps sep (sep :: l) = true :: gaps sep l := by
  rw [gaps, List.splitOn_cons_eq_if_modifyHead, if_pos (beq_self_eq_true sep)]
  rfl

theorem gaps_cons_of_ne {c : α} (hc : c ≠ sep) (l : List α) :
    gaps sep (c :: l) = false :: (gaps sep l).tail := by
  obtain ⟨s, rest, hs⟩ := List.exists_cons_of_ne_nil (List.splitOn_ne_nil sep l)
  rw [gaps, gaps, List.splitOn_cons_eq_if_modifyHead, if_neg (by simpa using hc), hs]
  rfl

/-- A block without separators is one more element of the segment it stands in. -/
theorem gaps_append {block : List α} (hne : block ≠ []) (hsep : sep ∉ block) (l : List α) :
    gaps sep (block ++ l) = false :: (gaps sep l).tail := by
  induction block with
  | nil => exact absurd rfl hne
  | cons c block ih =>
    rw [List.cons_append, gaps_cons_of_ne fun h : c = sep => hsep (h ▸ List.mem_cons_self)]
    cases block with
    | nil => rfl
    | cons d block =>
      rw [ih (List.cons_ne_nil _ _) (List.not_mem_of_not_mem_cons hsep), List.tail_cons]

/-- Blocks that stand for the elements of a list, the separator for the separator, leave the empty
segments where they are. -/
theorem gaps_flatten {β : Type*} [DecidableEq β] {sep' : β} {l : List α} {blocks : List (List β)}
    (h : List.Forall₂ (fun c block => (c = sep → block = [sep']) ∧
      (c ≠ sep → block ≠ [] ∧ sep' ∉ block)) l blocks) :
    gaps sep' blocks.flatten = gaps sep l := by
  induction h with
  | nil => rfl
  | @cons c block l blocks hc _ ih =>
    rw [List.flatten_cons]
    by_cases hsep : c = sep
    · rw [hc.1 hsep, hsep, List.singleton_append, gaps_cons_self, gaps_cons_self, ih]
    · rw [gaps_append (hc.2 hsep).1 (hc.2 hsep).2, gaps_cons_of_ne hsep, ih]

end Segments
