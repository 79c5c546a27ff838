import Mathlib.Algebra.Polynomial.FieldDivision
import Mathlib.Algebra.Ring.GeomSum
import Mathlib.RingTheory.Coprime.Lemmas

/-!
# The key equation of a Reed–Solomon decoder

Errors of the sizes `e x` at the locators `x ∈ L` give the syndromes `∑ e x * x ^ k`. The
locators are the inverses of the roots of `locator L`, and the sizes follow from the values
of `evaluator L e` there. The two solve the key equation for the syndromes (`key_equation`).

* `Euclid`: what the extended Euclidean algorithm on `X ^ R` and the syndromes keeps from
  step to step (`Euclid.start`, `Euclid.step`).
* `Euclid.solution`: where the remainder falls below half of `R`, the algorithm has found
  the solution of the key equation, but for a factor. That half bounds the number of errors.
* `eval_evaluator`: Forney's formula.
-/

namespace KeyEquation

open Polynomial Finset

variable {F : Type} [Field F]

/-! ## The extended Euclidean algorithm -/

/-- The last two remainders `rLast` and `r`, and the factors `tLast` and `t` of `S` that they have
modulo `X ^ R`. -/
structure Euclid (R : ℕ) (S rLast r tLast t : F[X]) : Prop where
  last : X ^ R ∣ tLast * S - rLast
  current : X ^ R ∣ t * S - r
  cross : ∃ c : F, c ≠ 0 ∧ t * rLast - tLast * r = C c * X ^ R
  t_ne_zero : t ≠ 0
  natDegree_add : t.natDegree + rLast.natDegree = R
  degree_r : r.degree < rLast.degree
  degree_tLast : tLast.degree < t.degree

variable {R : ℕ} {S rLast r tLast t : F[X]}

theorem Euclid.start (hS : S.degree < R) : Euclid R S (X ^ R) S 0 1 where
  last := by simp
  current := by simp
  cross := ⟨1, one_ne_zero, by simp⟩
  t_ne_zero := one_ne_zero
  natDegree_add := by simp
  degree_r := by simpa using hS
  degree_tLast := by simp

/-- The algorithm divides the last remainder but one by the last. -/
theorem Euclid.step (h : Euclid R S rLast r tLast t) {q r' : F[X]} (hr : r ≠ 0)
    (hdiv : rLast = q * r + r') (hr' : r'.degree < r.degree) :
    Euclid R S r r' t (tLast - q * t) := by
  have hq : q ≠ 0 := by
    rintro rfl
    rw [zero_mul, zero_add] at hdiv
    exact absurd (h.degree_r.trans (hdiv ▸ hr')) (lt_irrefl _)
  have hqr : rLast.natDegree = q.natDegree + r.natDegree := by
    rw [hdiv, natDegree_add_eq_left_of_degree_lt, natDegree_mul hq hr]
    exact hr'.trans_le (degree_le_mul_left r hq |>.trans (by rw [mul_comm]))
  have hqt : tLast.degree < (q * t).degree :=
    h.degree_tLast.trans_le (by rw [mul_comm]; exact degree_le_mul_left t hq)
  have hdegree : (tLast - q * t).degree = (q * t).degree := degree_sub_eq_right_of_degree_lt hqt
  obtain ⟨c, hc, hcross⟩ := h.cross
  refine ⟨h.current, ?_, ⟨-c, neg_ne_zero.mpr hc, ?_⟩, ?_, ?_, hr', ?_⟩
  · have heq : (tLast - q * t) * S - r' = (tLast * S - rLast) - q * (t * S - r) := by
      rw [hdiv]
      ring
    rw [heq]
    exact dvd_sub h.last (h.current.mul_left q)
  · rw [C_neg, neg_mul, ← hcross, hdiv]
    ring
  · intro h0
    rw [h0, degree_zero] at hdegree
    exact mul_ne_zero hq h.t_ne_zero (degree_eq_bot.mp hdegree.symm)
  · have hsum := h.natDegree_add
    rw [natDegree_eq_of_degree_eq hdegree, natDegree_mul hq h.t_ne_zero]
    omega
  · have hlt := natDegree_lt_natDegree hr h.degree_r
    rw [hdegree]
    exact degree_lt_degree (by rw [natDegree_mul hq h.t_ne_zero]; omega)

/-- Where the remainder has a degree below `R / 2` and the last one had none, remainder and factor
are the solution of the key equation, but for a constant. -/
theorem Euclid.solution (h : Euclid R S rLast r tLast t) (hrLast : R / 2 ≤ rLast.natDegree)
    (hr : r.natDegree < R / 2) {σ ω : F[X]} (hkey : X ^ R ∣ σ * S - ω) (hcoprime : IsCoprime σ ω)
    (hω : ω.natDegree < σ.natDegree) (hσ : 2 * σ.natDegree ≤ R) :
    ∃ c : F, c ≠ 0 ∧ t = C c * σ ∧ r = C c * ω := by
  have hσ0 : σ ≠ 0 := by
    rintro rfl
    simp at hω
  have hsum := h.natDegree_add
  obtain ⟨d, hd, hcross⟩ := h.cross
  -- Modulo `X ^ R` both sides are `σ * t * S`, and their degrees are smaller.
  have hswap : t * ω = σ * r := by
    have hdvd : X ^ R ∣ t * ω - σ * r := by
      have heq : t * ω - σ * r = σ * (t * S - r) - t * (σ * S - ω) := by ring
      rw [heq]
      exact dvd_sub (h.current.mul_left σ) (hkey.mul_left t)
    have hlt : (t * ω - σ * r).natDegree < (X ^ R : F[X]).natDegree := by
      rw [natDegree_X_pow]
      have h1 : (t * ω).natDegree ≤ t.natDegree + ω.natDegree := natDegree_mul_le
      have h2 : (σ * r).natDegree ≤ σ.natDegree + r.natDegree := natDegree_mul_le
      have h3 := natDegree_sub_le (t * ω) (σ * r)
      omega
    exact sub_eq_zero.mp (eq_zero_of_dvd_of_natDegree_lt hdvd hlt)
  obtain ⟨u, rfl⟩ : σ ∣ t := hcoprime.dvd_of_dvd_mul_right (hswap ▸ dvd_mul_right σ r)
  obtain ⟨w, hw⟩ : X ^ R ∣ σ * rLast - tLast * ω := by
    have heq : σ * rLast - tLast * ω = tLast * (σ * S - ω) - σ * (tLast * S - rLast) := by ring
    rw [heq]
    exact dvd_sub (hkey.mul_left tLast) (h.last.mul_left σ)
  have hunit : u * w = C d := by
    have hX : (X ^ R : F[X]) ≠ 0 := pow_ne_zero R X_ne_zero
    apply mul_left_cancel₀ hσ0
    apply mul_left_cancel₀ hX
    calc X ^ R * (σ * (u * w)) = σ * u * (σ * rLast - tLast * ω) := by rw [hw]; ring
      _ = σ * (σ * u * rLast) - tLast * (σ * u * ω) := by ring
      _ = σ * (σ * u * rLast - tLast * r) := by rw [hswap]; ring
      _ = X ^ R * (σ * C d) := by rw [hcross]; ring
  have hu : IsUnit u := isUnit_of_mul_isUnit_left (hunit ▸ isUnit_C.mpr hd.isUnit)
  obtain ⟨c, hc, rfl⟩ := isUnit_iff.mp hu
  refine ⟨c, hc.ne_zero, mul_comm _ _, mul_left_cancel₀ hσ0 ?_⟩
  rw [← hswap]
  ring

/-! ## Error locators -/

/-- The polynomial whose roots are the inverses of the locators. -/
noncomputable def locator (L : Finset F) : F[X] :=
  ∏ x ∈ L, (1 - C x * X)

noncomputable def evaluator [DecidableEq F] (L : Finset F) (e : F → F) : F[X] :=
  ∑ x ∈ L, C (e x) * locator (L.erase x)

/-- The polynomial of the syndromes that errors of the sizes `e` at the locators `L` give. -/
noncomputable def syndromes (L : Finset F) (e : F → F) (R : ℕ) : F[X] :=
  ∑ k ∈ range R, C (∑ x ∈ L, e x * x ^ k) * X ^ k

variable {L : Finset F} {e : F → F}

theorem degree_syndromes_lt : (syndromes L e R).degree < R := by
  unfold syndromes
  refine (degree_sum_le _ _).trans_lt ((Finset.sup_lt_iff (WithBot.bot_lt_coe R)).mpr ?_)
  intro k hk
  refine (degree_C_mul_X_pow_le k _).trans_lt ?_
  exact Nat.cast_lt.mpr (mem_range.mp hk)

theorem syndromes_eq : syndromes L e R = ∑ x ∈ L, C (e x) * ∑ k ∈ range R, (C x * X) ^ k := by
  simp only [syndromes, map_sum, C_mul, C_pow, sum_mul, mul_sum, mul_pow]
  rw [sum_comm]
  simp only [mul_assoc]

theorem locator_eq_mul_erase [DecidableEq F] {x : F} (hx : x ∈ L) :
    locator L = (1 - C x * X) * locator (L.erase x) :=
  (mul_prod_erase L _ hx).symm

/-- Locator and evaluator polynomial solve the key equation. -/
theorem key_equation [DecidableEq F] (L : Finset F) (e : F → F) (R : ℕ) :
    X ^ R ∣ locator L * syndromes L e R - evaluator L e := by
  rw [syndromes_eq, evaluator, mul_sum, ← sum_sub_distrib]
  refine dvd_sum fun x hx => ⟨-(C (e x) * locator (L.erase x) * C x ^ R), ?_⟩
  have hgeom := mul_neg_geom_sum (C x * X) R
  rw [locator_eq_mul_erase hx]
  calc (1 - C x * X) * locator (L.erase x) * (C (e x) * ∑ k ∈ range R, (C x * X) ^ k) -
        C (e x) * locator (L.erase x)
      = C (e x) * locator (L.erase x) * ((1 - C x * X) * ∑ k ∈ range R, (C x * X) ^ k) -
        C (e x) * locator (L.erase x) := by ring
    _ = X ^ R * -(C (e x) * locator (L.erase x) * C x ^ R) := by rw [hgeom, mul_pow]; ring

theorem eval_locator (L : Finset F) (a : F) : (locator L).eval a = ∏ x ∈ L, (1 - x * a) := by
  simp [locator, eval_prod]

@[simp] theorem eval_zero_locator : (locator L).eval 0 = 1 := by
  simp [eval_locator]

theorem eval_locator_eq_zero_iff {a : F} (ha : a ≠ 0) : (locator L).eval a = 0 ↔ a⁻¹ ∈ L := by
  rw [eval_locator, prod_eq_zero_iff]
  constructor
  · rintro ⟨x, hx, h⟩
    rwa [← eq_inv_of_mul_eq_one_left (sub_eq_zero.mp h).symm]
  · intro h
    exact ⟨a⁻¹, h, by rw [inv_mul_cancel₀ ha, sub_self]⟩

theorem natDegree_locator (h0 : 0 ∉ L) : (locator L).natDegree = L.card := by
  have hfactor : ∀ x ∈ L, (1 - C x * X).natDegree = 1 := by
    intro x hx
    have hx0 : x ≠ 0 := fun h => h0 (h ▸ hx)
    rw [natDegree_sub_eq_right_of_natDegree_lt (by simp [natDegree_C_mul_X x hx0]),
      natDegree_C_mul_X x hx0]
  rw [locator, natDegree_prod _ _ fun x hx h => by simpa [h] using hfactor x hx,
    sum_congr rfl hfactor]
  simp

variable [DecidableEq F]

theorem natDegree_evaluator_lt (h0 : 0 ∉ L) (hL : L.Nonempty) :
    (evaluator L e).natDegree < (locator L).natDegree := by
  have hcard := hL.card_pos
  have hle : (evaluator L e).natDegree ≤ L.card - 1 := by
    refine natDegree_sum_le_of_forall_le _ _ fun x hx => ?_
    refine natDegree_C_mul_le _ _ |>.trans ?_
    rw [natDegree_locator (fun h => h0 (mem_of_mem_erase h)), card_erase_of_mem hx]
  rw [natDegree_locator h0]
  omega

/-- Forney's formula: the value of the evaluator polynomial at a root of the locator
polynomial. -/
theorem eval_evaluator (h0 : 0 ∉ L) {x : F} (hx : x ∈ L) :
    (evaluator L e).eval x⁻¹ = e x * ∏ y ∈ L.erase x, (1 - y * x⁻¹) := by
  have hx0 : x ≠ 0 := fun h => h0 (h ▸ hx)
  rw [evaluator, eval_finsetSum, sum_eq_single x]
  · simp [eval_locator]
  · intro y hy hyx
    have hroot : (locator (L.erase y)).eval x⁻¹ = 0 := by
      rw [eval_locator_eq_zero_iff (inv_ne_zero hx0), inv_inv]
      exact mem_erase.mpr ⟨hyx.symm, hx⟩
    simp [hroot]
  · intro h
    exact absurd hx h

theorem prod_erase_ne_zero (h0 : 0 ∉ L) {x : F} (hx : x ∈ L) :
    ∏ y ∈ L.erase x, (1 - y * x⁻¹) ≠ 0 := by
  rw [prod_ne_zero_iff]
  intro y hy h
  have hx0 : x ≠ 0 := fun h => h0 (h ▸ hx)
  have hyx : y = x :=
    (mul_inv_eq_one₀ hx0).mp (sub_eq_zero.mp h).symm
  exact (mem_erase.mp hy).1 hyx

theorem isCoprime_locator_evaluator (h0 : 0 ∉ L) (he : ∀ x ∈ L, e x ≠ 0) :
    IsCoprime (locator L) (evaluator L e) := by
  refine IsCoprime.prod_left fun x hx => ?_
  have hx0 : x ≠ 0 := fun h => h0 (h ▸ hx)
  have hvalue : (evaluator L e).eval x⁻¹ ≠ 0 := by
    rw [eval_evaluator h0 hx]
    exact mul_ne_zero (he x hx) (prod_erase_ne_zero h0 hx)
  have hlinear : 1 - C x * X = C (-x) * (X - C x⁻¹) := by
    rw [mul_sub, ← C_mul, neg_mul, mul_inv_cancel₀ hx0]
    simp only [C_neg, C_1]
    ring
  rw [hlinear, isCoprime_mul_unit_left_left (isUnit_C.mpr (neg_ne_zero.mpr hx0).isUnit),
    (irreducible_X_sub_C x⁻¹).coprime_iff_not_dvd, dvd_iff_isRoot]
  exact hvalue

end KeyEquation
