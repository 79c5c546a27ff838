import Mathlib.Tactic.LinearCombination
import TonWallet.Encoding.Currency
import TonWallet.Lib.Coefficients
import TonWallet.Qr.GenericGF

/-!
# Polynomials over a Galois field

`GenericGFPoly.java` of the ZXing library: a polynomial is the array of its coefficients,
highest power first, without leading zeros. The zero polynomial is the array `{0}`, and its
degree is taken to be zero.

* `toPoly_addOrSubtract`, `toPoly_multiply`, `toPoly_multiplyByMonomial`, `eval_toPoly`: the
  operations are those of the polynomials.
* `divideLoop_spec`: the loop of the division ends with quotient and remainder.
-/

namespace TonWallet.Qr

open Polynomial Coefficients GenericGF TonWallet.Encoding

/-- `GenericGFPoly` (`GenericGFPoly.java` lines 28–67). -/
@[ext] structure GenericGFPoly (field : GenericGF) where
  coefficients : List (Elem field)
  ne_nil : coefficients ≠ []
  normal : 1 < coefficients.length → coefficients.head ne_nil ≠ 0

namespace GenericGFPoly

variable {field : GenericGF}

/-- The coefficients without the leading zeros (`GenericGFPoly.java` lines 48–66). -/
def dropLeadingZeros (l : List (Elem field)) : List (Elem field) :=
  let rest := l.dropWhile (· = 0)
  if rest = [] then [0] else rest

theorem dropLeadingZeros_ne_nil (l : List (Elem field)) : dropLeadingZeros l ≠ [] := by
  intro h
  simp only [dropLeadingZeros] at h
  split_ifs at h with hrest
  exact hrest h

theorem dropLeadingZeros_normal (l : List (Elem field)) (h : 1 < (dropLeadingZeros l).length) :
    (dropLeadingZeros l).head (dropLeadingZeros_ne_nil l) ≠ 0 := by
  simp only [dropLeadingZeros] at h ⊢
  split_ifs at h ⊢ with hrest
  · simp at h
  · simpa using List.head_dropWhile_not (fun c : Elem field => decide (c = 0)) hrest

/-- The constructor for an array that is not empty (`GenericGFPoly.java` lines 42–67). -/
def ofCoefficients (l : List (Elem field)) : GenericGFPoly field :=
  ⟨dropLeadingZeros l, dropLeadingZeros_ne_nil l, dropLeadingZeros_normal l⟩

/-- The constructor (`GenericGFPoly.java` lines 42–67). -/
def new (l : List (Elem field)) : Except Fault (GenericGFPoly field) :=
  if l = [] then .error (.illegalArgument []) else .ok (ofCoefficients l)

/-- `getDegree` (`GenericGFPoly.java` lines 76–78). -/
def getDegree (p : GenericGFPoly field) : ℕ := p.coefficients.length - 1

/-- `isZero` (`GenericGFPoly.java` lines 83–85). -/
def isZero (p : GenericGFPoly field) : Bool := p.coefficients.head p.ne_nil = 0

/-- `getCoefficient` (`GenericGFPoly.java` lines 90–92). -/
def getCoefficient (p : GenericGFPoly field) (degree : ℕ) : Elem field :=
  p.coefficients.getD (p.coefficients.length - 1 - degree) 0

/-- `evaluateAt` (`GenericGFPoly.java` lines 97–116). -/
def evaluateAt (p : GenericGFPoly field) (a : Elem field) : Elem field :=
  if a = 0 then p.getCoefficient 0
  else if a = 1 then p.coefficients.foldl (fun result c => addOrSubtract result c) 0
  else p.coefficients.tail.foldl (fun result c => addOrSubtract (multiply a result) c)
    (p.coefficients.head p.ne_nil)

/-- `getZero` (`GenericGF.java` lines 84–86). -/
def getZero : GenericGFPoly field := ofCoefficients [0]

/-- `getOne` (`GenericGF.java` lines 88–90). -/
def getOne : GenericGFPoly field := ofCoefficients [1]

/-- `buildMonomial` (`GenericGF.java` lines 95–105). -/
def buildMonomial (degree : ℕ) (coefficient : Elem field) : GenericGFPoly field :=
  if coefficient = 0 then getZero
  else ofCoefficients (coefficient :: List.replicate degree 0)

/-- The sum of two arrays, the longer one second (`GenericGFPoly.java` lines 136–143). -/
def sumDiff (smaller larger : List (Elem field)) : List (Elem field) :=
  let lengthDiff := larger.length - smaller.length
  larger.take lengthDiff ++ List.zipWith addOrSubtract smaller (larger.drop lengthDiff)

/-- `addOrSubtract` (`GenericGFPoly.java` lines 118–146). -/
def addOrSubtract (p other : GenericGFPoly field) : GenericGFPoly field :=
  if p.isZero then other
  else if other.isZero then p
  else if p.coefficients.length > other.coefficients.length then
    ofCoefficients (sumDiff other.coefficients p.coefficients)
  else ofCoefficients (sumDiff p.coefficients other.coefficients)

/-- The inner loop of the multiplication (`GenericGFPoly.java` lines 162–165). -/
def productRow (b : List (Elem field)) (i : ℕ) (aCoeff : Elem field)
    (product : List (Elem field)) : List (Elem field) :=
  (List.range b.length).foldl (fun product j => product.set (i + j)
    (GenericGF.addOrSubtract (product.getD (i + j) 0)
      (GenericGF.multiply aCoeff (b.getD j 0)))) product

/-- The first `n` rounds of the outer loop (`GenericGFPoly.java` lines 155–166). -/
def productRows (a b : List (Elem field)) (n : ℕ) : List (Elem field) :=
  (List.range n).foldl (fun product i => productRow b i (a.getD i 0) product)
    (List.replicate (a.length + b.length - 1) 0)

/-- The array of the products (`GenericGFPoly.java` lines 155–166). -/
def product (a b : List (Elem field)) : List (Elem field) := productRows a b a.length

/-- `multiply` (`GenericGFPoly.java` lines 148–168). -/
def multiply (p other : GenericGFPoly field) : GenericGFPoly field :=
  if p.isZero ∨ other.isZero then getZero
  else ofCoefficients (product p.coefficients other.coefficients)

/-- `multiply` by a scalar (`GenericGFPoly.java` lines 170–183). -/
def multiplyScalar (p : GenericGFPoly field) (scalar : Elem field) : GenericGFPoly field :=
  if scalar = 0 then getZero
  else if scalar = 1 then p
  else ofCoefficients (p.coefficients.map fun c => GenericGF.multiply c scalar)

/-- `multiplyByMonomial` (`GenericGFPoly.java` lines 185–198). -/
def multiplyByMonomial (p : GenericGFPoly field) (degree : ℕ) (coefficient : Elem field) :
    GenericGFPoly field :=
  if coefficient = 0 then getZero
  else ofCoefficients
    ((p.coefficients.map fun c => GenericGF.multiply c coefficient) ++ List.replicate degree 0)

/-- A polynomial is zero, or its array begins with the leading coefficient. -/
theorem zero_or_cons (p : GenericGFPoly field) :
    p.coefficients = [0] ∨ ∃ c l, c ≠ 0 ∧ p.coefficients = c :: l := by
  obtain ⟨c, l, hcl⟩ := List.exists_cons_of_ne_nil p.ne_nil
  by_cases hc : c = 0
  · left
    have hnormal := p.normal
    simp only [hcl, List.head_cons, List.length_cons, hc] at hnormal ⊢
    have : l.length = 0 := by
      by_contra h
      exact hnormal (by omega) rfl
    rw [List.length_eq_zero_iff.mp this]
  · exact .inr ⟨c, l, hc, hcl⟩

/-! ## The operations of the polynomials -/

variable [Primitive field] {p q : GenericGFPoly field}

noncomputable def toPoly (p : GenericGFPoly field) : (Elem field)[X] := poly p.coefficients

theorem poly_dropLeadingZeros (l : List (Elem field)) : poly (dropLeadingZeros l) = poly l := by
  have hdrop : poly (l.dropWhile fun c => decide (c = 0)) = poly l := by
    induction l with
    | nil => simp
    | cons c l ih =>
      by_cases hc : c = 0
      · rw [List.dropWhile_cons_of_pos (by simpa using hc), ih, hc, poly_zero_cons]
      · rw [List.dropWhile_cons_of_neg (by simpa using hc)]
  simp only [dropLeadingZeros]
  split_ifs with h
  · rw [← hdrop, h]
    simp
  · exact hdrop

@[simp] theorem toPoly_ofCoefficients (l : List (Elem field)) :
    (ofCoefficients l).toPoly = poly l :=
  poly_dropLeadingZeros l

theorem isZero_iff : p.isZero = true ↔ p.toPoly = 0 := by
  obtain h | ⟨c, l, hc, h⟩ := p.zero_or_cons
  · simp [isZero, toPoly, h]
  · simp [isZero, toPoly, h, hc, poly_ne_zero]

theorem length_coefficients (p : GenericGFPoly field) :
    p.coefficients.length = p.toPoly.natDegree + 1 := by
  obtain h | ⟨c, l, hc, h⟩ := p.zero_or_cons
  · simp [toPoly, h]
  · simp [toPoly, h, natDegree_poly_cons hc]

@[simp] theorem getDegree_eq (p : GenericGFPoly field) : p.getDegree = p.toPoly.natDegree := by
  rw [getDegree, length_coefficients, Nat.add_sub_cancel]

theorem getCoefficient_eq {k : ℕ} (hk : k ≤ p.toPoly.natDegree) :
    p.getCoefficient k = p.toPoly.coeff k := by
  have hlength := p.length_coefficients
  rw [toPoly, coeff_poly, getCoefficient, List.getD_eq_getElem _ _ (by omega),
    List.getD_eq_getElem _ _ (by rw [List.length_reverse]; omega), List.getElem_reverse]

/-- Both shortcuts give what Horner's rule gives. -/
theorem evaluateAt_eq (p : GenericGFPoly field) (a : Elem field) :
    p.evaluateAt a = p.toPoly.eval a := by
  have hhorner : p.toPoly.eval a =
      p.coefficients.tail.foldl (fun result c => GenericGF.addOrSubtract
        (GenericGF.multiply a result) c) (p.coefficients.head p.ne_nil) := by
    obtain ⟨c, l, hcl⟩ := List.exists_cons_of_ne_nil p.ne_nil
    simp only [toPoly, eval_poly, hcl, List.tail_cons, List.head_cons, List.foldl_cons,
      addOrSubtract_eq, multiply_eq, zero_mul, zero_add, mul_comm a]
  unfold evaluateAt
  split_ifs with h0 h1
  · rw [getCoefficient_eq (Nat.zero_le _), h0, coeff_zero_eq_eval_zero]
  · simp [toPoly, eval_poly, h1]
  · exact hhorner.symm

@[simp] theorem toPoly_getZero : (getZero : GenericGFPoly field).toPoly = 0 := by
  simp [getZero]

@[simp] theorem toPoly_getOne : (getOne : GenericGFPoly field).toPoly = 1 := by
  simp [getOne]

@[simp] theorem toPoly_buildMonomial (n : ℕ) (a : Elem field) :
    (buildMonomial n a).toPoly = C a * X ^ n := by
  unfold buildMonomial
  split_ifs with h
  · simp [h]
  · simp [poly_cons]

theorem poly_sumDiff {l m : List (Elem field)} (h : l.length ≤ m.length) :
    poly (sumDiff l m) = poly l + poly m := by
  have hdrop : l.length = (m.drop (m.length - l.length)).length := by
    rw [List.length_drop]
    omega
  have hm := poly_append (m.take (m.length - l.length)) (m.drop (m.length - l.length))
  rw [List.take_append_drop] at hm
  have hadd : (GenericGF.addOrSubtract : Elem field → Elem field → Elem field) = (· + ·) := rfl
  rw [sumDiff, poly_append, hadd, poly_add hdrop, List.length_zipWith, ← hdrop, min_self, hm,
    ← hdrop]
  ring

@[simp] theorem toPoly_addOrSubtract (p q : GenericGFPoly field) :
    (p.addOrSubtract q).toPoly = p.toPoly + q.toPoly := by
  unfold addOrSubtract
  split_ifs with hp hq hlen
  · rw [isZero_iff.mp hp, zero_add]
  · rw [isZero_iff.mp hq, add_zero]
  · rw [toPoly_ofCoefficients, poly_sumDiff hlen.le, add_comm]
    rfl
  · rw [toPoly_ofCoefficients, poly_sumDiff (not_lt.mp hlen)]
    rfl

theorem poly_productRow {b l : List (Elem field)} {i : ℕ} (x : Elem field)
    (hl : i + b.length ≤ l.length) :
    poly (productRow b i x l) = poly l + C x * poly b * X ^ (l.length - (i + b.length)) ∧
      (productRow b i x l).length = l.length := by
  obtain ⟨hpoly, hlength⟩ := poly_foldl_set_add (n := b.length) (i + ·)
    (fun j => x * b.getD j 0) l fun j hj => by omega
  refine ⟨hpoly.trans ?_, hlength⟩
  congr 1
  rw [poly_eq_sum b, Finset.mul_sum, Finset.sum_mul]
  refine Finset.sum_congr rfl fun j hj => ?_
  have hj := Finset.mem_range.mp hj
  rw [C_mul, mul_assoc (C x), mul_assoc (C x), mul_assoc, ← pow_add]
  congr 3
  omega

theorem poly_productRows {a b : List (Elem field)} {n : ℕ} (hn : n ≤ a.length) :
    poly (productRows a b n) =
        (∑ i ∈ Finset.range n, C (a.getD i 0) * X ^ (a.length - 1 - i)) * poly b ∧
      (productRows a b n).length = a.length + b.length - 1 := by
  induction n with
  | zero => simp [productRows]
  | succ n ih =>
    obtain ⟨hpoly, hlength⟩ := ih (by omega)
    obtain ⟨hrow, hrowLength⟩ := poly_productRow (a.getD n 0) (i := n) (b := b)
      (l := productRows a b n) (by omega)
    have hsucc : productRows a b (n + 1) = productRow b n (a.getD n 0) (productRows a b n) := by
      simp only [productRows, List.range_succ, List.foldl_append, List.foldl_cons, List.foldl_nil]
    have hexp : a.length + b.length - 1 - (n + b.length) = a.length - 1 - n := by omega
    rw [hsucc, hrow, hpoly, hrowLength, hlength, hexp, Finset.sum_range_succ]
    exact ⟨by ring, rfl⟩

theorem poly_product (a b : List (Elem field)) :
    poly (product a b) = poly a * poly b := by
  rw [product, (poly_productRows le_rfl).1, ← poly_eq_sum]

@[simp] theorem toPoly_multiply (p q : GenericGFPoly field) :
    (p.multiply q).toPoly = p.toPoly * q.toPoly := by
  unfold multiply
  split_ifs with h
  · obtain h | h := h
    · rw [toPoly_getZero, isZero_iff.mp h, zero_mul]
    · rw [toPoly_getZero, isZero_iff.mp h, mul_zero]
  · rw [toPoly_ofCoefficients, poly_product]
    rfl

@[simp] theorem toPoly_multiplyScalar (p : GenericGFPoly field) (a : Elem field) :
    (p.multiplyScalar a).toPoly = p.toPoly * C a := by
  unfold multiplyScalar
  split_ifs with h0 h1
  · simp [h0]
  · simp [h1]
  · exact (toPoly_ofCoefficients _).trans (poly_map_mul p.coefficients a)

@[simp] theorem toPoly_multiplyByMonomial (p : GenericGFPoly field) (n : ℕ) (a : Elem field) :
    (p.multiplyByMonomial n a).toPoly = p.toPoly * (C a * X ^ n) := by
  unfold multiplyByMonomial
  split_ifs with h
  · simp [h]
  · have hmap : poly (p.coefficients.map fun c => GenericGF.multiply c a) = p.toPoly * C a :=
      poly_map_mul p.coefficients a
    rw [toPoly_ofCoefficients, poly_append, hmap, poly_replicate_zero, List.length_replicate,
      add_zero, mul_assoc]

/-! ## Division -/

omit [Primitive field] in
/-- The body of the loop of a division: quotient and remainder change
(`GenericGFPoly.java` lines 215–220, and `ReedSolomonDecoder.java` lines 119–122). -/
def divideRound (other : GenericGFPoly field) (inverse : Elem field)
    (quotient remainder : GenericGFPoly field) : GenericGFPoly field × GenericGFPoly field :=
  let degreeDifference := remainder.getDegree - other.getDegree
  let scale := GenericGF.multiply (remainder.getCoefficient remainder.getDegree) inverse
  (quotient.addOrSubtract (buildMonomial degreeDifference scale),
    remainder.addOrSubtract (other.multiplyByMonomial degreeDifference scale))

omit [Primitive field] in
/-- The loop of a division (`GenericGFPoly.java` lines 214–221, and `ReedSolomonDecoder.java`
lines 118–123). -/
def divideLoop (other : GenericGFPoly field) (inverse : Elem field) :
    ℕ → GenericGFPoly field × GenericGFPoly field →
      Except Fault (GenericGFPoly field × GenericGFPoly field)
  | 0, qr => if qr.2.getDegree ≥ other.getDegree ∧ ¬ qr.2.isZero then .error .outOfFuel else .ok qr
  | fuel + 1, qr =>
    if qr.2.getDegree ≥ other.getDegree ∧ ¬ qr.2.isZero then
      divideLoop other inverse fuel (divideRound other inverse qr.1 qr.2)
    else .ok qr

omit [Primitive field] in
/-- `divide` (`GenericGFPoly.java` lines 200–224). -/
def divide (p other : GenericGFPoly field) :
    Except Fault (GenericGFPoly field × GenericGFPoly field) := do
  Calls.throwIf (other.isZero = true) (.illegalArgument (ascii "Divide by 0".toList))
  let inverse ← GenericGF.inverse (other.getCoefficient other.getDegree)
  divideLoop other inverse p.coefficients.length (getZero, p)

/-- A quotient and a remainder are as good as others, if they make up the same polynomial. -/
def Divides (other : GenericGFPoly field) (qr qr' : GenericGFPoly field × GenericGFPoly field) :
    Prop :=
  qr'.1.toPoly * other.toPoly + qr'.2.toPoly = qr.1.toPoly * other.toPoly + qr.2.toPoly

/-- The term that is taken away has the leading term of the remainder. -/
theorem divideRound_spec (hq : q.toPoly ≠ 0) (quotient : GenericGFPoly field)
    (hp : p.toPoly ≠ 0) (hle : q.toPoly.natDegree ≤ p.toPoly.natDegree) :
    Divides q (quotient, p) (divideRound q q.toPoly.leadingCoeff⁻¹ quotient p) ∧
      (divideRound q q.toPoly.leadingCoeff⁻¹ quotient p).2.toPoly.degree < p.toPoly.degree := by
  have hlead : q.toPoly.leadingCoeff ≠ 0 := leadingCoeff_ne_zero.mpr hq
  have hscale : p.toPoly.leadingCoeff * q.toPoly.leadingCoeff⁻¹ ≠ 0 :=
    mul_ne_zero (leadingCoeff_ne_zero.mpr hp) (inv_ne_zero hlead)
  simp only [Divides, divideRound, getDegree_eq, getCoefficient_eq le_rfl, coeff_natDegree,
    multiply_eq, toPoly_addOrSubtract, toPoly_buildMonomial, toPoly_multiplyByMonomial]
  constructor
  · have hcancel := CharTwo.add_self_eq_zero (q.toPoly * (C (p.toPoly.leadingCoeff *
      q.toPoly.leadingCoeff⁻¹) * X ^ (p.toPoly.natDegree - q.toPoly.natDegree)))
    linear_combination hcancel
  · rw [← CharTwo.sub_eq_add]
    refine degree_sub_lt_left ?_ hp ?_
    · rw [degree_mul, degree_C_mul_X_pow _ hscale, degree_eq_natDegree hp, degree_eq_natDegree hq]
      norm_cast
      omega
    · rw [leadingCoeff_mul, leadingCoeff_C_mul_X_pow, mul_comm p.toPoly.leadingCoeff,
        mul_inv_cancel_left₀ hlead]

/-- The loop ends with a remainder of a smaller degree. -/
theorem divideLoop_spec (hq : q.toPoly ≠ 0) {fuel : ℕ}
    (qr : GenericGFPoly field × GenericGFPoly field) (hfuel : qr.2.toPoly.degree < fuel) :
    ∃ qr', divideLoop q q.toPoly.leadingCoeff⁻¹ fuel qr = .ok qr' ∧ Divides q qr qr' ∧
      qr'.2.toPoly.degree < q.toPoly.degree := by
  induction fuel generalizing qr with
  | zero =>
    have hr : qr.2.toPoly = 0 := by
      by_contra h
      exact absurd hfuel (not_lt.mpr (zero_le_degree_iff.mpr h))
    have hend : ¬ (qr.2.getDegree ≥ q.getDegree ∧ ¬ qr.2.isZero) := by
      rw [isZero_iff]
      exact fun h => h.2 hr
    refine ⟨qr, by rw [divideLoop, if_neg hend], rfl, ?_⟩
    simpa [hr, bot_lt_iff_ne_bot] using hq
  | succ fuel ih =>
    unfold divideLoop
    split_ifs with h
    · obtain ⟨hge, hr⟩ := h
      rw [isZero_iff] at hr
      rw [getDegree_eq, getDegree_eq] at hge
      obtain ⟨hdivides, hlt⟩ := divideRound_spec hq qr.1 hr hge
      have hle : qr.2.toPoly.degree ≤ fuel := by
        rw [degree_eq_natDegree hr] at hfuel ⊢
        exact Nat.cast_le.mpr (Nat.le_of_lt_succ (Nat.cast_lt.mp hfuel))
      obtain ⟨qr', hloop, hdivides', hdegree⟩ := ih _ (hlt.trans_le hle)
      exact ⟨qr', hloop, hdivides'.trans hdivides, hdegree⟩
    · refine ⟨qr, rfl, rfl, ?_⟩
      rw [isZero_iff, not_and, not_not, getDegree_eq, getDegree_eq] at h
      by_cases hr : qr.2.toPoly = 0
      · simpa [hr, bot_lt_iff_ne_bot] using hq
      · exact degree_lt_degree (not_le.mp fun hle => hr (h hle))

theorem degree_lt_length (p : GenericGFPoly field) : p.toPoly.degree < p.coefficients.length := by
  unfold toPoly
  exact degree_poly_lt _

theorem divide_spec (hq : q.toPoly ≠ 0) :
    ∃ qr, p.divide q = .ok qr ∧ qr.1.toPoly * q.toPoly + qr.2.toPoly = p.toPoly ∧
      qr.2.toPoly.degree < q.toPoly.degree := by
  have hlead : q.toPoly.leadingCoeff ≠ 0 := leadingCoeff_ne_zero.mpr hq
  obtain ⟨qr, hloop, hdivides, hdegree⟩ :=
    divideLoop_spec hq (getZero, p) p.degree_lt_length
  refine ⟨qr, ?_, ?_, hdegree⟩
  · rw [divide, Calls.throwIf_bind (by rwa [isZero_iff]), getDegree_eq, getCoefficient_eq le_rfl,
      coeff_natDegree, GenericGF.inverse, if_neg hlead, Calls.ok_bind]
    exact hloop
  · simpa [Divides] using hdivides

end GenericGFPoly

end TonWallet.Qr
