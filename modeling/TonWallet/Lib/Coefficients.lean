import Mathlib.Algebra.Polynomial.BigOperators
import Mathlib.Algebra.Polynomial.FieldDivision
import Mathlib.Data.List.GetD

/-!
# Polynomials as lists of coefficients

A list holds the coefficients of a polynomial from the highest power down to the constant
(`poly`), which is also the order in which Horner's rule reads them (`eval_poly`).

* `degree_poly_lt`, `natDegree_poly_cons`: the degree is one less than the length, if the
  first coefficient is not zero.
* `poly_injective`: lists of one length are determined by their polynomials.
-/

namespace Coefficients

open Polynomial

variable {F : Type} [Field F]

/-- The polynomial with the coefficients `l`, highest power first. -/
noncomputable def poly (l : List F) : F[X] :=
  l.foldl (fun p c => p * X + C c) 0

@[simp] theorem poly_nil : poly ([] : List F) = 0 := rfl

@[simp] theorem poly_concat (l : List F) (c : F) : poly (l ++ [c]) = poly l * X + C c := by
  simp [poly]

@[simp] theorem poly_singleton (c : F) : poly [c] = C c := by
  simpa using poly_concat [] c

theorem poly_append (l m : List F) : poly (l ++ m) = poly l * X ^ m.length + poly m := by
  induction m using List.reverseRecOn with
  | nil => simp
  | append_singleton m c ih =>
    rw [← List.append_assoc, poly_concat, ih, poly_concat, List.length_append,
      List.length_singleton, pow_succ]
    ring

theorem poly_cons (c : F) (l : List F) : poly (c :: l) = C c * X ^ l.length + poly l := by
  simpa using poly_append [c] l

@[simp] theorem poly_zero_cons (l : List F) : poly (0 :: l) = poly l := by
  simp [poly_cons]

@[simp] theorem poly_replicate_zero (n : ℕ) : poly (List.replicate n (0 : F)) = 0 := by
  induction n with
  | zero => simp
  | succ n ih => rw [List.replicate_succ, poly_zero_cons, ih]

theorem degree_poly_lt (l : List F) : (poly l).degree < l.length := by
  induction l with
  | nil => simp
  | cons c l ih =>
    rw [poly_cons]
    refine (degree_add_le _ _).trans_lt (max_lt ?_ ?_)
    · refine (degree_C_mul_X_pow_le l.length c).trans_lt (Nat.cast_lt.mpr ?_)
      simp
    · refine ih.trans (Nat.cast_lt.mpr ?_)
      simp

theorem degree_poly_cons {c : F} (hc : c ≠ 0) (l : List F) :
    (poly (c :: l)).degree = l.length := by
  rw [poly_cons, degree_add_eq_left_of_degree_lt] <;> rw [degree_C_mul_X_pow _ hc]
  exact degree_poly_lt l

theorem natDegree_poly_cons {c : F} (hc : c ≠ 0) (l : List F) :
    (poly (c :: l)).natDegree = l.length :=
  natDegree_eq_of_degree_eq_some (degree_poly_cons hc l)

theorem poly_ne_zero {c : F} (hc : c ≠ 0) (l : List F) : poly (c :: l) ≠ 0 := by
  intro h
  simpa [h] using degree_poly_cons hc l

theorem eval_poly (l : List F) (a : F) :
    (poly l).eval a = l.foldl (fun v c => v * a + c) 0 := by
  induction l using List.reverseRecOn with
  | nil => simp
  | append_singleton l c ih => simp [ih]

theorem coeff_poly (l : List F) (k : ℕ) : (poly l).coeff k = l.reverse.getD k 0 := by
  induction l using List.reverseRecOn generalizing k with
  | nil => simp
  | append_singleton l c ih =>
    cases k with
    | zero => simp
    | succ k => simp [ih, coeff_C_succ]

theorem poly_add {l m : List F} (h : l.length = m.length) :
    poly (List.zipWith (· + ·) l m) = poly l + poly m := by
  induction l generalizing m with
  | nil => simp [List.length_eq_zero_iff.mp h.symm]
  | cons c l ih =>
    obtain ⟨d, m, rfl⟩ := List.exists_cons_of_length_eq_add_one h.symm
    have hl : l.length = m.length := by simpa using h
    rw [List.zipWith_cons_cons, poly_cons, poly_cons, poly_cons, ih hl, List.length_zipWith, hl,
      min_self, C_add]
    ring

theorem poly_map_mul (l : List F) (a : F) : poly (l.map (· * a)) = poly l * C a := by
  induction l with
  | nil => simp
  | cons c l ih =>
    rw [List.map_cons, poly_cons, poly_cons, ih, List.length_map, C_mul]
    ring

/-- A list that holds each coefficient with its power. -/
theorem poly_eq_sum (l : List F) :
    poly l = ∑ i ∈ Finset.range l.length, C (l.getD i 0) * X ^ (l.length - 1 - i) := by
  induction l using List.reverseRecOn with
  | nil => simp
  | append_singleton l c ih =>
    rw [poly_concat, ih, List.length_append, List.length_singleton, Finset.sum_range_succ,
      Finset.sum_mul]
    congr 1
    · refine Finset.sum_congr rfl fun i hi => ?_
      have hi := Finset.mem_range.mp hi
      rw [mul_assoc, ← pow_succ, List.getD_append _ _ _ _ hi]
      congr 2
      omega
    · simp

/-- The list read from its end holds the constant first. -/
theorem poly_reverse (l : List F) :
    poly l.reverse = ∑ k ∈ Finset.range l.length, C (l.getD k 0) * X ^ k := by
  induction l using List.reverseRecOn with
  | nil => simp
  | append_singleton l c ih =>
    rw [List.reverse_append, List.reverse_singleton, List.singleton_append, poly_cons, ih,
      List.length_append, List.length_singleton, Finset.sum_range_succ, List.length_reverse,
      add_comm]
    congr 1
    · refine Finset.sum_congr rfl fun k hk => ?_
      rw [List.getD_append _ _ _ _ (Finset.mem_range.mp hk)]
    · simp

/-- What is added to one coefficient. -/
theorem poly_set_add {l : List F} {k : ℕ} (hk : k < l.length) (v : F) :
    poly (l.set k (l.getD k 0 + v)) = poly l + C v * X ^ (l.length - 1 - k) := by
  induction l generalizing k with
  | nil => simp at hk
  | cons c l ih =>
    cases k with
    | zero =>
      simp only [List.set_cons_zero, List.getD_cons_zero, poly_cons, C_add, List.length_cons,
        Nat.add_sub_cancel, Nat.sub_zero]
      ring
    | succ k =>
      have hk' : k < l.length := by simpa using hk
      have hexp : (c :: l).length - 1 - (k + 1) = l.length - 1 - k := by
        rw [List.length_cons]
        omega
      rw [List.set_cons_succ, List.getD_cons_succ, poly_cons, poly_cons, ih hk', hexp,
        List.length_set]
      ring

/-- A loop that adds to one coefficient after the other. -/
theorem poly_foldl_set_add {n : ℕ} (k : ℕ → ℕ) (v : ℕ → F) (l : List F)
    (hk : ∀ i < n, k i < l.length) :
    poly ((List.range n).foldl (fun l i => l.set (k i) (l.getD (k i) 0 + v i)) l) =
        poly l + ∑ i ∈ Finset.range n, C (v i) * X ^ (l.length - 1 - k i) ∧
      ((List.range n).foldl (fun l i => l.set (k i) (l.getD (k i) 0 + v i)) l).length =
        l.length := by
  induction n with
  | zero => simp
  | succ n ih =>
    obtain ⟨hpoly, hlength⟩ := ih fun i hi => hk i (by omega)
    rw [List.range_succ, List.foldl_append, List.foldl_cons, List.foldl_nil,
      poly_set_add (by rw [hlength]; exact hk n n.lt_succ_self), hpoly, hlength,
      Finset.sum_range_succ, List.length_set, add_assoc]
    exact ⟨rfl, hlength⟩

end Coefficients
