import Mathlib.Data.List.Nodup
import Mathlib.Tactic.Common

/-!
# Keeping the first of each key

`distinctBy key` runs through a list with the set of the keys it has seen, and
keeps the elements that bring a new one.

* `mem_map_distinctBy`: the keys that are left are those of the list.
* `nodup_map_distinctBy`: each of them is left once.
* `distinctBy_append`, `mem_distinctBy_append`, `mem_distinctBy_of_new`: of the
  second of two lists, what is left are the elements whose key the first one lacks.
* `map_distinctBy`: the same with other elements and other keys.

Where no key is repeated, an element takes the place of the one with its key.

* `mem_eraseP_iff`: the elements with the other keys.
* `mem_eraseP_of_not_found`: in any list, what stays when one is taken out.
* `nodup_map_replace`: the keys are still not repeated.
-/

namespace Distinct

variable {α κ : Type*} [DecidableEq κ] {key : α → κ} {l m : List α} {a : α} {k : κ}

/-- The elements of a list that bring a key which is not in `seen` yet. -/
def distinctFrom (key : α → κ) : List κ → List α → List α
  | _, [] => []
  | seen, a :: l =>
    if key a ∈ seen then distinctFrom key seen l else a :: distinctFrom key (key a :: seen) l

/-- The first element of each key. -/
def distinctBy (key : α → κ) (l : List α) : List α := distinctFrom key [] l

theorem distinctFrom_sublist (seen : List κ) : (distinctFrom key seen l).Sublist l := by
  induction l generalizing seen with
  | nil => exact List.Sublist.refl []
  | cons a l ih =>
    rw [distinctFrom]
    split_ifs with h
    · exact (ih seen).cons a
    · exact (ih (key a :: seen)).cons_cons a

theorem mem_map_distinctFrom (seen : List κ) :
    k ∈ (distinctFrom key seen l).map key ↔ k ∈ l.map key ∧ k ∉ seen := by
  induction l generalizing seen with
  | nil => simp [distinctFrom]
  | cons a l ih =>
    rw [distinctFrom]
    split_ifs with h
    · rw [ih, List.map_cons, List.mem_cons]
      constructor
      · rintro ⟨hk, hs⟩
        exact ⟨.inr hk, hs⟩
      · rintro ⟨rfl | hk, hs⟩
        · exact absurd h hs
        · exact ⟨hk, hs⟩
    · rw [List.map_cons, List.map_cons, List.mem_cons, List.mem_cons, ih, List.mem_cons, not_or]
      constructor
      · rintro (rfl | ⟨hk, -, hs⟩)
        · exact ⟨.inl rfl, h⟩
        · exact ⟨.inr hk, hs⟩
      · rintro ⟨rfl | hk, hs⟩
        · exact .inl rfl
        · by_cases he : k = key a
          · exact .inl he
          · exact .inr ⟨hk, he, hs⟩

theorem nodup_map_distinctFrom (seen : List κ) : ((distinctFrom key seen l).map key).Nodup := by
  induction l generalizing seen with
  | nil => exact List.nodup_nil
  | cons a l ih =>
    rw [distinctFrom]
    split_ifs with h
    · exact ih seen
    · rw [List.map_cons, List.nodup_cons]
      refine ⟨fun hk => ?_, ih _⟩
      exact ((mem_map_distinctFrom _).mp hk).2 List.mem_cons_self

theorem mem_distinctFrom_append (seen : List κ) (h : a ∈ distinctFrom key seen (l ++ m)) :
    a ∈ l ∨ a ∈ m ∧ key a ∉ l.map key ∧ key a ∉ seen := by
  induction l generalizing seen with
  | nil =>
    have hk := (mem_map_distinctFrom seen).mp (List.mem_map_of_mem h)
    exact .inr ⟨(distinctFrom_sublist seen).subset h, List.not_mem_nil, hk.2⟩
  | cons b l ih =>
    rw [List.cons_append, distinctFrom] at h
    split_ifs at h with hb
    · obtain ha | ⟨ha, hl, hs⟩ := ih seen h
      · exact .inl (List.mem_cons_of_mem b ha)
      · refine .inr ⟨ha, ?_, hs⟩
        rw [List.map_cons, List.mem_cons, not_or]
        exact ⟨fun he => hs (he ▸ hb), hl⟩
    · obtain rfl | h := List.mem_cons.mp h
      · exact .inl List.mem_cons_self
      obtain ha | ⟨ha, hl, hs⟩ := ih _ h
      · exact .inl (List.mem_cons_of_mem b ha)
      · rw [List.mem_cons, not_or] at hs
        refine .inr ⟨ha, ?_, hs.2⟩
        rw [List.map_cons, List.mem_cons, not_or]
        exact ⟨hs.1, hl⟩

theorem mem_map_distinctBy : k ∈ (distinctBy key l).map key ↔ k ∈ l.map key := by
  rw [distinctBy, mem_map_distinctFrom]
  exact and_iff_left List.not_mem_nil

theorem nodup_map_distinctBy : ((distinctBy key l).map key).Nodup := nodup_map_distinctFrom []

/-- Of a list without a repeated key, the elements whose key has been seen are left out. -/
theorem distinctFrom_of_nodup (h : (l.map key).Nodup) (seen : List κ) :
    distinctFrom key seen l = l.filter fun a => key a ∉ seen := by
  induction l generalizing seen with
  | nil => rfl
  | cons a l ih =>
    obtain ⟨ha, hl⟩ := List.nodup_cons.mp h
    rw [distinctFrom]
    split_ifs with hs
    · rw [ih hl, List.filter_cons_of_neg (by simpa using hs)]
    · rw [ih hl, List.filter_cons_of_pos (by simpa using hs)]
      refine congrArg (a :: ·) (List.filter_congr fun b hb => decide_eq_decide.mpr ?_)
      have hne : key b ≠ key a := fun he => ha (he ▸ List.mem_map_of_mem hb)
      simp [hne]

/-- A list without a repeated key is left as it is. -/
theorem distinctBy_of_nodup (h : (l.map key).Nodup) : distinctBy key l = l := by
  rw [distinctBy, distinctFrom_of_nodup h]
  exact List.filter_eq_self.mpr fun a _ => decide_eq_true List.not_mem_nil

theorem distinctFrom_append (hm : (m.map key).Nodup) (seen : List κ) :
    distinctFrom key seen (l ++ m)
      = distinctFrom key seen l ++ m.filter fun b => key b ∉ seen ∧ key b ∉ l.map key := by
  induction l generalizing seen with
  | nil => simp [distinctFrom, distinctFrom_of_nodup hm]
  | cons a l ih =>
    rw [List.cons_append, distinctFrom, distinctFrom]
    split_ifs with hs
    · rw [ih]
      refine congrArg (_ ++ ·) (List.filter_congr fun b _ => decide_eq_decide.mpr ?_)
      rw [List.map_cons, List.mem_cons, not_or]
      exact and_congr_right fun hb => (and_iff_right (ne_of_mem_of_not_mem hs hb).symm).symm
    · rw [ih, List.cons_append]
      refine congrArg (a :: _ ++ ·) (List.filter_congr fun b _ => decide_eq_decide.mpr ?_)
      simp only [List.map_cons, List.mem_cons, not_or]
      tauto

/-- The elements of the second of two lists that bring a new key follow the first one. -/
theorem distinctBy_append (hl : (l.map key).Nodup) (hm : (m.map key).Nodup) :
    distinctBy key (l ++ m) = l ++ m.filter fun b => key b ∉ l.map key := by
  rw [distinctBy, distinctFrom_append hm, ← distinctBy, distinctBy_of_nodup hl]
  simp

/-- Elements and keys can be renamed, as long as no two keys are made one. -/
theorem map_distinctFrom {β κ' : Type*} [DecidableEq κ'] {key' : β → κ'} {f : α → β} {g : κ → κ'}
    (hg : Function.Injective g) (hkey : ∀ a, key' (f a) = g (key a)) (seen : List κ) :
    (distinctFrom key seen l).map f = distinctFrom key' (seen.map g) (l.map f) := by
  induction l generalizing seen with
  | nil => rfl
  | cons a l ih =>
    have hseen : key' (f a) ∈ seen.map g ↔ key a ∈ seen := by
      rw [hkey, List.mem_map_of_injective hg]
    rw [distinctFrom, List.map_cons, distinctFrom]
    by_cases h : key a ∈ seen
    · rw [if_pos h, if_pos (hseen.mpr h), ih]
    · rw [if_neg h, if_neg (mt hseen.mp h), List.map_cons, ih, hkey, List.map_cons]

theorem map_distinctBy {β κ' : Type*} [DecidableEq κ'] {key' : β → κ'} {f : α → β} {g : κ → κ'}
    (hg : Function.Injective g) (hkey : ∀ a, key' (f a) = g (key a)) :
    (distinctBy key l).map f = distinctBy key' (l.map f) := map_distinctFrom hg hkey []

/-- Of the second of two lists only elements are left whose key the first one lacks. -/
theorem mem_distinctBy_append (h : a ∈ distinctBy key (l ++ m)) :
    a ∈ l ∨ a ∈ m ∧ key a ∉ l.map key := by
  obtain ha | ⟨ha, hk, -⟩ := mem_distinctFrom_append [] h
  · exact .inl ha
  · exact .inr ⟨ha, hk⟩

/-- And all of these are left, if no key is repeated in it. -/
theorem mem_distinctBy_of_new (hm : (m.map key).Nodup) (ha : a ∈ m) (hk : key a ∉ l.map key) :
    a ∈ distinctBy key (l ++ m) := by
  have hmem : key a ∈ (distinctBy key (l ++ m)).map key := by
    rw [mem_map_distinctBy, List.map_append]
    exact List.mem_append_right _ (List.mem_map_of_mem ha)
  obtain ⟨b, hb, he⟩ := List.mem_map.mp hmem
  obtain hbl | ⟨hbm, -⟩ := mem_distinctBy_append hb
  · exact absurd (he ▸ List.mem_map_of_mem hbl) hk
  · rwa [← List.inj_on_of_nodup_map hm hbm ha he]

/-! ## Lists without a repeated key -/

theorem mem_eraseP_iff (h : (l.map key).Nodup) :
    a ∈ l.eraseP (fun b => key b = k) ↔ a ∈ l ∧ key a ≠ k := by
  induction l with
  | nil => simp
  | cons b l ih =>
    obtain ⟨hb, hl⟩ := List.nodup_cons.mp h
    by_cases hk : key b = k
    · rw [List.eraseP_cons_of_pos (by simpa using hk)]
      constructor
      · intro ha
        exact ⟨List.mem_cons_of_mem b ha, fun he => hb (hk.trans he.symm ▸ List.mem_map_of_mem ha)⟩
      · rintro ⟨ha, hne⟩
        obtain rfl | ha := List.mem_cons.mp ha
        · exact absurd hk hne
        · exact ha
    · rw [List.eraseP_cons_of_neg (by simpa using hk), List.mem_cons, ih hl, List.mem_cons]
      constructor
      · rintro (rfl | ⟨ha, hne⟩)
        · exact ⟨.inl rfl, hk⟩
        · exact ⟨.inr ha, hne⟩
      · rintro ⟨rfl | ha, hne⟩
        · exact .inl rfl
        · exact .inr ⟨ha, hne⟩

/-- What is taken out is the element that is found. -/
theorem mem_eraseP_of_not_found {p : α → Bool} (ha : a ∈ l) (h : ∀ b ∈ l.find? p, a ≠ b) :
    a ∈ l.eraseP p := by
  induction l with
  | nil => exact absurd ha List.not_mem_nil
  | cons b l ih =>
    by_cases hb : p b
    · rw [List.eraseP_cons_of_pos hb]
      obtain rfl | ha := List.mem_cons.mp ha
      · exact absurd rfl (h a (List.find?_cons_of_pos hb))
      · exact ha
    · rw [List.eraseP_cons_of_neg hb]
      rw [List.find?_cons_of_neg hb] at h
      obtain rfl | ha := List.mem_cons.mp ha
      · exact List.mem_cons_self
      · exact List.mem_cons_of_mem b (ih ha h)

omit [DecidableEq κ] in
/-- An element is put after those with the other keys. -/
theorem nodup_map_replace (h : (l.map key).Nodup) (hm : m.Sublist l) (ha : ∀ b ∈ m, key b ≠ key a) :
    ((m ++ [a]).map key).Nodup := by
  rw [List.map_append]
  refine List.nodup_append.mpr ⟨h.sublist (hm.map key), List.nodup_singleton _, ?_⟩
  intro k hk k' hk' he
  obtain ⟨b, hb, rfl⟩ := List.mem_map.mp hk
  exact ha b hb (he.trans (List.mem_singleton.mp hk'))

end Distinct
