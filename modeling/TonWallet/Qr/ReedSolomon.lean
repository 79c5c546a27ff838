import TonWallet.Lib.KeyEquation
import TonWallet.Qr.GenericGFPoly

/-!
# Reed–Solomon codes

`ReedSolomonEncoder.java` and `ReedSolomonDecoder.java` of the ZXing library. The encoder
appends the remainder of a division by the generator polynomial. The decoder finds the
errors by the extended Euclidean algorithm, by a search for the roots of the locator
polynomial, and by Forney's formula.

* `encode_spec`: what the encoder writes is a multiple of the generator polynomial.
* `decode_codeword`: the decoder returns the codeword from which at most half as many elements
  of the array differ as it has error-correction elements.
* `decode_damaged`: so it undoes that many errors in what the encoder has written.
-/

namespace TonWallet.Qr

open Polynomial GenericGF GenericGFPoly TonWallet.Encoding

namespace ReedSolomon

variable {field : GenericGF}

/-! ## The encoder -/

/-- `buildGenerator` (`ReedSolomonEncoder.java` lines 39–50). -/
def buildGenerator (field : GenericGF) : ℕ → Except Fault (GenericGFPoly field)
  | 0 => .ok (ofCoefficients [1])
  | d + 1 => do
    let lastGenerator ← buildGenerator field d
    let root ← field.exp (d + field.generatorBase)
    return lastGenerator.multiply (ofCoefficients [1, root])

/-- `encode` (`ReedSolomonEncoder.java` lines 52–72). The last `ecBytes` elements are written. -/
def encode (toEncode : List (Elem field)) (ecBytes : ℕ) : Except Fault (List (Elem field)) := do
  Calls.throwIf (ecBytes = 0) (.illegalArgument (ascii "No error correction bytes".toList))
  Calls.throwIf (toEncode.length ≤ ecBytes)
    (.illegalArgument (ascii "No data bytes provided".toList))
  let dataBytes := toEncode.length - ecBytes
  let generator ← buildGenerator field ecBytes
  let info ← new (toEncode.take dataBytes)
  let qr ← (info.multiplyByMonomial ecBytes 1).divide generator
  let numZeroCoefficients := ecBytes - qr.2.coefficients.length
  return toEncode.take dataBytes ++ List.replicate numZeroCoefficients 0 ++ qr.2.coefficients

/-! ## The decoder -/

/-- The variables of the Euclidean algorithm. -/
structure Euclidean (field : GenericGF) where
  rLast : GenericGFPoly field
  r : GenericGFPoly field
  tLast : GenericGFPoly field
  t : GenericGFPoly field

/-- The body of the loop (`ReedSolomonDecoder.java` lines 104–129). -/
def euclideanRound (s : Euclidean field) : Except Fault (Euclidean field) := do
  Calls.throwIf (s.r.isZero = true) (.reedSolomon (ascii "r_{i-1} was zero".toList))
  let dltInverse ← inverse (s.r.getCoefficient s.r.getDegree)
  let qr ← divideLoop s.r dltInverse s.rLast.coefficients.length (getZero, s.rLast)
  Calls.throwIf (qr.2.getDegree ≥ s.r.getDegree)
    (.illegalState (ascii "Division algorithm failed to reduce polynomial?".toList))
  return ⟨s.r, qr.2, s.t, (qr.1.multiply s.t).addOrSubtract s.tLast⟩

/-- The loop runs until the degree of `r` is less than `R / 2` (`ReedSolomonDecoder.java`
lines 103–130). -/
def euclideanLoop (R : ℕ) : ℕ → Euclidean field → Except Fault (Euclidean field)
  | 0, s => if s.r.getDegree ≥ R / 2 then .error .outOfFuel else .ok s
  | fuel + 1, s =>
    if s.r.getDegree ≥ R / 2 then euclideanRound s >>= euclideanLoop R fuel else .ok s

/-- `runEuclideanAlgorithm` (`ReedSolomonDecoder.java` lines 88–141): the polynomials `sigma` and
`omega`. -/
def runEuclideanAlgorithm (a b : GenericGFPoly field) (R : ℕ) :
    Except Fault (GenericGFPoly field × GenericGFPoly field) := do
  let s ← if a.getDegree < b.getDegree then
      euclideanLoop R a.coefficients.length ⟨b, a, getZero, getOne⟩
    else euclideanLoop R b.coefficients.length ⟨a, b, getZero, getOne⟩
  let sigmaTildeAtZero := s.t.getCoefficient 0
  Calls.throwIf (sigmaTildeAtZero = 0) (.reedSolomon (ascii "sigmaTilde(0) was zero".toList))
  let inverse ← inverse sigmaTildeAtZero
  return (s.t.multiplyScalar inverse, s.r.multiplyScalar inverse)

def ofInt (i : ℕ) : Elem field := ⟨BitVec.ofNat field.bits i⟩

/-- The body of Chien's search (`ReedSolomonDecoder.java` lines 152–155). -/
def chienRound (errorLocator : GenericGFPoly field) (result : List (Elem field)) (i : ℕ) :
    Except Fault (List (Elem field)) :=
  if result.length < errorLocator.getDegree ∧ errorLocator.evaluateAt (ofInt i) = 0 then do
    let location ← inverse (ofInt i)
    return result ++ [location]
  else .ok result

/-- `findErrorLocations` (`ReedSolomonDecoder.java` lines 143–161). -/
def findErrorLocations (errorLocator : GenericGFPoly field) :
    Except Fault (List (Elem field)) :=
  let numErrors := errorLocator.getDegree
  if numErrors = 1 then .ok [errorLocator.getCoefficient 1]
  else do
    let result ← (List.range' 1 (field.size - 1)).foldlM (chienRound errorLocator) []
    Calls.throwIf (result.length ≠ numErrors) (.reedSolomon
      (ascii "Error locator degree does not match number of roots".toList))
    return result

/-- `termPlus1`: the lowest bit is turned over (`ReedSolomonDecoder.java` lines 176–177). -/
def plusOne (term : Elem field) : Elem field :=
  if term.value &&& 1 = 0 then ⟨term.value ||| 1⟩ else ⟨term.value &&& ~~~1⟩

/-- The inner loop of Forney's formula (`ReedSolomonDecoder.java` lines 169–180). -/
def denominator (errorLocations : List (Elem field)) (i : ℕ) (xiInverse : Elem field) :
    Elem field :=
  (List.range errorLocations.length).foldl (fun denominator j =>
    if i ≠ j then multiply denominator (plusOne (multiply (errorLocations.getD j 0) xiInverse))
    else denominator) 1

/-- One result of `findErrorMagnitudes` (`ReedSolomonDecoder.java` lines 168–185). -/
def errorMagnitude (errorEvaluator : GenericGFPoly field) (errorLocations : List (Elem field))
    (i : ℕ) : Except Fault (Elem field) := do
  let xiInverse ← inverse (errorLocations.getD i 0)
  let denominatorInverse ← inverse (denominator errorLocations i xiInverse)
  let result := multiply (errorEvaluator.evaluateAt xiInverse) denominatorInverse
  return if field.generatorBase ≠ 0 then multiply result xiInverse else result

/-- `findErrorMagnitudes` (`ReedSolomonDecoder.java` lines 163–188). -/
def findErrorMagnitudes (errorEvaluator : GenericGFPoly field)
    (errorLocations : List (Elem field)) : Except Fault (List (Elem field)) :=
  (List.range errorLocations.length).mapM (errorMagnitude errorEvaluator errorLocations)

/-- One error is taken away (`ReedSolomonDecoder.java` lines 80–84). -/
def correct (received : List (Elem field)) (error : Elem field × Elem field) :
    Except Fault (List (Elem field)) := do
  let log ← log error.1
  Calls.throwIf (received.length ≤ log) (.reedSolomon (ascii "Bad error location".toList))
  let position := received.length - 1 - log
  return received.set position (GenericGF.addOrSubtract (received.getD position 0) error.2)

/-- The value of the received polynomial at a power of two (`ReedSolomonDecoder.java` line
63). -/
def syndromeAt (poly : GenericGFPoly field) (i : ℕ) : Except Fault (Elem field) := do
  let x ← field.exp (i + field.generatorBase)
  return poly.evaluateAt x

/-- `decode` (`ReedSolomonDecoder.java` lines 58–86). -/
def decode (received : List (Elem field)) (twoS : ℕ) : Except Fault (List (Elem field)) := do
  let poly ← new received
  let evals ← (List.range twoS).mapM (syndromeAt poly)
  if ∀ eval ∈ evals, eval = 0 then return received
  else
    let syndrome ← new evals.reverse
    let sigmaOmega ← runEuclideanAlgorithm (buildMonomial twoS 1) syndrome twoS
    let errorLocations ← findErrorLocations sigmaOmega.1
    let errorMagnitudes ← findErrorMagnitudes sigmaOmega.2 errorLocations
    (errorLocations.zip errorMagnitudes).foldlM correct received

/-! ## What the encoder writes -/

variable [Primitive field]

/-- The elements of a codeword are the coefficients of a polynomial that the powers of two from
`generatorBase` on are roots of. -/
def IsCodeword (l : List (Elem field)) (ecBytes : ℕ) : Prop :=
  ∀ i < ecBytes, (Coefficients.poly l).eval (field.power (i + field.generatorBase)) = 0

theorem buildGenerator_spec {d : ℕ} (hd : d + field.generatorBase ≤ field.size) :
    ∃ g, buildGenerator field d = .ok g ∧ g.toPoly =
      ∏ i ∈ Finset.range d, (X - C (field.power (i + field.generatorBase))) := by
  induction d with
  | zero => exact ⟨_, rfl, by simp⟩
  | succ d ih =>
    obtain ⟨g, hg, hpoly⟩ := ih (by omega)
    refine ⟨g.multiply (ofCoefficients [1, field.power (d + field.generatorBase)]), ?_, ?_⟩
    · rw [buildGenerator, hg, Calls.ok_bind, exp_eq (by omega), Calls.ok_bind, Calls.pure_eq_ok]
    · rw [toPoly_multiply, hpoly, Finset.prod_range_succ, toPoly_ofCoefficients,
        CharTwo.sub_eq_add]
      simp [Coefficients.poly_cons]

/-- The encoder keeps the data and makes a codeword of them. -/
theorem encode_spec {toEncode : List (Elem field)} {ecBytes : ℕ} (hec : 0 < ecBytes)
    (hdata : ecBytes < toEncode.length)
    (hsize : ecBytes + field.generatorBase ≤ field.size) :
    ∃ codeword, encode toEncode ecBytes = .ok codeword ∧
      codeword.length = toEncode.length ∧
      codeword.take (toEncode.length - ecBytes) = toEncode.take (toEncode.length - ecBytes) ∧
      IsCodeword codeword ecBytes := by
  obtain ⟨g, hg, hroots⟩ := buildGenerator_spec hsize
  have hmonic : g.toPoly.Monic := by
    rw [hroots]
    exact monic_prod_of_monic _ _ fun i _ => monic_X_sub_C _
  have hdegree : g.toPoly.degree = ecBytes := by
    rw [hroots, degree_prod_of_monic _ _ fun i _ => monic_X_sub_C _]
    simp
  have hlength : (toEncode.take (toEncode.length - ecBytes)).length =
      toEncode.length - ecBytes := by
    rw [List.length_take]
    omega
  have hne : toEncode.take (toEncode.length - ecBytes) ≠ [] := by
    rw [← List.length_pos_iff]
    omega
  obtain ⟨qr, hqr, hdivides, hrest⟩ := divide_spec hmonic.ne_zero
    (p := (ofCoefficients (toEncode.take (toEncode.length - ecBytes))).multiplyByMonomial ecBytes 1)
  have hcoefficients : qr.2.coefficients.length ≤ ecBytes := by
    rw [length_coefficients]
    by_cases h0 : qr.2.toPoly = 0
    · rw [h0, natDegree_zero]
      omega
    · exact (natDegree_lt_iff_degree_lt h0).mpr (hdegree ▸ hrest)
  refine ⟨toEncode.take (toEncode.length - ecBytes) ++
    List.replicate (ecBytes - qr.2.coefficients.length) 0 ++ qr.2.coefficients, ?_, ?_, ?_, ?_⟩
  · rw [encode, Calls.throwIf_bind hec.ne', Calls.throwIf_bind (not_le.mpr hdata), hg,
      Calls.ok_bind, new, if_neg hne, Calls.ok_bind, hqr, Calls.ok_bind, Calls.pure_eq_ok]
  · simp only [List.length_append, List.length_replicate, hlength]
    omega
  · rw [List.append_assoc, List.take_left' hlength]
  · intro i hi
    have hroot : g.toPoly.eval (field.power (i + field.generatorBase)) = 0 := by
      rw [hroots, eval_prod]
      exact Finset.prod_eq_zero (Finset.mem_range.mpr hi) (by simp)
    have hmultiple : Coefficients.poly (toEncode.take (toEncode.length - ecBytes) ++
        List.replicate (ecBytes - qr.2.coefficients.length) 0 ++ qr.2.coefficients) =
        qr.1.toPoly * g.toPoly := by
      have hrem : Coefficients.poly qr.2.coefficients = qr.2.toPoly := rfl
      have hself := CharTwo.add_self_eq_zero qr.2.toPoly
      rw [Coefficients.poly_append, Coefficients.poly_append, Coefficients.poly_replicate_zero,
        List.length_replicate, add_zero, mul_assoc, ← pow_add, Nat.sub_add_cancel hcoefficients,
        hrem]
      rw [toPoly_multiplyByMonomial, toPoly_ofCoefficients, C_1, one_mul] at hdivides
      linear_combination hself - hdivides
    rw [hmultiple, eval_mul, hroot, mul_zero]

/-! ## The Euclidean algorithm of the decoder -/

/-- The variables of the algorithm, as the polynomials they stand for. -/
def Euclidean.Runs (R : ℕ) (S : (Elem field)[X]) (s : Euclidean field) : Prop :=
  KeyEquation.Euclid R S s.rLast.toPoly s.r.toPoly s.tLast.toPoly s.t.toPoly ∧
    R / 2 ≤ s.rLast.toPoly.natDegree

variable {R : ℕ} {S : (Elem field)[X]} {s : Euclidean field}

theorem euclideanRound_spec (h : s.Runs R S) (hR : 0 < R / 2)
    (hr : R / 2 ≤ s.r.toPoly.natDegree) :
    ∃ s', euclideanRound s = .ok s' ∧ s'.Runs R S ∧
      s'.r.toPoly.degree < s.r.toPoly.degree := by
  obtain ⟨heuclid, -⟩ := h
  have hr0 : s.r.toPoly ≠ 0 := by
    intro h0
    rw [h0, natDegree_zero] at hr
    omega
  have hlead : s.r.toPoly.leadingCoeff ≠ 0 := leadingCoeff_ne_zero.mpr hr0
  obtain ⟨qr, hqr, hdivides, hdegree⟩ :=
    divideLoop_spec hr0 (getZero, s.rLast) s.rLast.degree_lt_length
  have hlt : qr.2.toPoly.natDegree < s.r.toPoly.natDegree := by
    by_cases h0 : qr.2.toPoly = 0
    · rw [h0, natDegree_zero]
      omega
    · exact natDegree_lt_natDegree h0 hdegree
  have hdiv : s.rLast.toPoly = qr.1.toPoly * s.r.toPoly + qr.2.toPoly := by
    simpa [Divides] using hdivides.symm
  refine ⟨⟨s.r, qr.2, s.t, (qr.1.multiply s.t).addOrSubtract s.tLast⟩, ?_, ⟨?_, hr⟩, hdegree⟩
  · rw [euclideanRound, Calls.throwIf_bind (by rwa [isZero_iff]), getDegree_eq,
      getCoefficient_eq le_rfl, coeff_natDegree, inverse, if_neg hlead, Calls.ok_bind, inverseOf_eq]
    rw [hqr, Calls.ok_bind, getDegree_eq]
    rw [Calls.throwIf_bind (not_le.mpr hlt), Calls.pure_eq_ok]
  · have hstep := heuclid.step hr0 hdiv hdegree
    rwa [CharTwo.sub_eq_add, add_comm, ← toPoly_multiply, ← toPoly_addOrSubtract] at hstep

/-- The loop ends where the degree of the remainder has fallen below half of `R`. -/
theorem euclideanLoop_spec (hR : 0 < R / 2) {fuel : ℕ} (h : s.Runs R S)
    (hfuel : s.r.toPoly.degree < fuel) :
    ∃ s', euclideanLoop R fuel s = .ok s' ∧ s'.Runs R S ∧ s'.r.toPoly.natDegree < R / 2 := by
  induction fuel generalizing s with
  | zero =>
    have hr : s.r.toPoly = 0 := by
      by_contra h0
      exact absurd hfuel (not_lt.mpr (zero_le_degree_iff.mpr h0))
    have hend : s.r.toPoly.natDegree < R / 2 := by rwa [hr, natDegree_zero]
    refine ⟨s, ?_, h, hend⟩
    rw [euclideanLoop, getDegree_eq, if_neg (not_le.mpr hend)]
  | succ fuel ih =>
    unfold euclideanLoop
    by_cases hr : R / 2 ≤ s.r.toPoly.natDegree
    · obtain ⟨s', hround, hruns, hlt⟩ := euclideanRound_spec h hR hr
      have hr0 : s.r.toPoly ≠ 0 := by
        intro h0
        rw [h0, natDegree_zero] at hr
        omega
      have hle : s.r.toPoly.degree ≤ fuel := by
        rw [degree_eq_natDegree hr0] at hfuel ⊢
        exact Nat.cast_le.mpr (Nat.le_of_lt_succ (Nat.cast_lt.mp hfuel))
      rw [if_pos (by rwa [getDegree_eq]), hround, Calls.ok_bind]
      exact ih hruns (hlt.trans_le hle)
    · rw [if_neg (by rwa [getDegree_eq])]
      exact ⟨s, rfl, h, not_le.mp hr⟩

/-- The algorithm finds the solution of the key equation. -/
theorem runEuclideanAlgorithm_spec {syndrome : GenericGFPoly field} {σ ω : (Elem field)[X]}
    (hR : 0 < R / 2) (hS : syndrome.toPoly.degree < R)
    (hkey : X ^ R ∣ σ * syndrome.toPoly - ω) (hcoprime : IsCoprime σ ω)
    (hω : ω.natDegree < σ.natDegree) (hσ : 2 * σ.natDegree ≤ R) (hσ0 : σ.coeff 0 = 1) :
    ∃ sigma omega, runEuclideanAlgorithm (buildMonomial R 1) syndrome R = .ok (sigma, omega) ∧
      sigma.toPoly = σ ∧ omega.toPoly = ω := by
  have hstart : (Euclidean.mk (buildMonomial R 1) syndrome getZero getOne).Runs R
      syndrome.toPoly := by
    refine ⟨?_, ?_⟩
    · simpa using KeyEquation.Euclid.start hS
    · simp only [toPoly_buildMonomial, C_1, one_mul, natDegree_X_pow]
      omega
  obtain ⟨s, hloop, ⟨heuclid, hrLast⟩, hr⟩ :=
    euclideanLoop_spec hR hstart syndrome.degree_lt_length
  obtain ⟨c, hc, ht, hrω⟩ := heuclid.solution hrLast hr hkey hcoprime hω hσ
  have hswap : ¬ (buildMonomial R 1 : GenericGFPoly field).getDegree < syndrome.getDegree := by
    have hdegree := natDegree_le_of_degree_le hS.le
    rw [getDegree_eq, getDegree_eq, toPoly_buildMonomial, C_1, one_mul, natDegree_X_pow]
    omega
  have hzero : s.t.getCoefficient 0 = c := by
    rw [getCoefficient_eq (Nat.zero_le _), ht, coeff_C_mul, hσ0, mul_one]
  refine ⟨s.t.multiplyScalar c⁻¹, s.r.multiplyScalar c⁻¹, ?_, ?_, ?_⟩
  · rw [runEuclideanAlgorithm, if_neg hswap, hloop, Calls.ok_bind]
    simp only [hzero]
    rw [Calls.throwIf_bind hc, inverse, if_neg hc]
    rfl
  · rw [toPoly_multiplyScalar, ht, mul_right_comm, ← C_mul, mul_inv_cancel₀ hc, C_1, one_mul]
  · rw [toPoly_multiplyScalar, hrω, mul_right_comm, ← C_mul, mul_inv_cancel₀ hc, C_1, one_mul]

/-! ## The search for the error locations -/

omit [Primitive field] in
theorem ofInt_toNat (x : Elem field) : ofInt x.value.toNat = x :=
  Elem.ext (BitVec.eq_of_toNat_eq (Nat.mod_eq_of_lt x.value.isLt))

omit [Primitive field] in
theorem toNat_ofInt {i : ℕ} (hi : i < field.size) :
    (ofInt i : Elem field).value.toNat = i :=
  Nat.mod_eq_of_lt hi

omit [Primitive field] in
theorem ofInt_ne_zero {i : ℕ} (h0 : 0 < i) (hi : i < field.size) :
    (ofInt i : Elem field) ≠ 0 := by
  intro h
  have hvalue := congrArg (fun x : Elem field => x.value.toNat) h
  simp only [toNat_ofInt hi] at hvalue
  exact h0.ne' hvalue

omit [Primitive field] in
/-- As long as not too many roots have been found, the search collects their inverses. -/
theorem foldlM_chienRound {p : GenericGFPoly field} {is : List ℕ}
    (his : ∀ i ∈ is, 0 < i ∧ i < field.size) (acc : List (Elem field))
    (hlength : acc.length + (is.filter fun i => p.evaluateAt (ofInt i) = 0).length ≤ p.getDegree) :
    is.foldlM (chienRound p) acc = .ok (acc ++
      (is.filter fun i => p.evaluateAt (ofInt i) = 0).map fun i => (ofInt i)⁻¹) := by
  induction is generalizing acc with
  | nil => simp
  | cons i is ih =>
    obtain ⟨⟨h0, hi⟩, his⟩ := List.forall_mem_cons.mp his
    rw [List.foldlM_cons, chienRound]
    by_cases hroot : p.evaluateAt (ofInt i) = 0
    · rw [List.filter_cons_of_pos (by simpa using hroot), List.length_cons] at hlength
      rw [if_pos ⟨by omega, hroot⟩, inverse, if_neg (ofInt_ne_zero h0 hi),
        List.filter_cons_of_pos (by simpa using hroot), List.map_cons]
      simp only [Calls.ok_bind, Calls.pure_eq_ok, inverseOf_eq]
      rw [ih his _ (by rw [List.length_append, List.length_singleton]; omega)]
      simp
    · rw [List.filter_cons_of_neg (by simpa using hroot)] at hlength ⊢
      rw [if_neg fun h => hroot h.2, Calls.ok_bind, ih his acc hlength]

theorem mem_roots_iff {L : Finset (Elem field)} (h0 : 0 ∉ L) {p : GenericGFPoly field}
    (hp : p.toPoly = KeyEquation.locator L) (x : Elem field) :
    x ∈ ((List.range' 1 (field.size - 1)).filter fun i => p.evaluateAt (ofInt i) = 0).map
      (fun i => (ofInt i)⁻¹) ↔ x ∈ L := by
  have hsize := two_le_size field
  simp only [List.mem_map, List.mem_filter, List.mem_range'_1, decide_eq_true_eq, evaluateAt_eq, hp]
  constructor
  · rintro ⟨i, ⟨⟨hpos, hi⟩, hroot⟩, rfl⟩
    exact (KeyEquation.eval_locator_eq_zero_iff (ofInt_ne_zero hpos (by omega))).mp hroot
  · intro hx
    have hx0 : x⁻¹ ≠ 0 := inv_ne_zero fun h => h0 (h ▸ hx)
    have hpos : 0 < x⁻¹.value.toNat := by
      rw [Nat.pos_iff_ne_zero]
      exact fun h => hx0 (Elem.ext (BitVec.eq_of_toNat_eq h))
    have hlt : x⁻¹.value.toNat < field.size := x⁻¹.value.isLt
    refine ⟨x⁻¹.value.toNat, ⟨⟨hpos, by omega⟩, ?_⟩, by rw [ofInt_toNat, inv_inv]⟩
    rw [ofInt_toNat, KeyEquation.eval_locator_eq_zero_iff hx0, inv_inv]
    exact hx

theorem nodup_roots (field : GenericGF) [Primitive field] (q : ℕ → Bool) :
    (((List.range' 1 (field.size - 1)).filter q).map
      fun i => (ofInt i : Elem field)⁻¹).Nodup := by
  have hsize := two_le_size field
  refine List.Nodup.map_on ?_ (List.Nodup.filter _ List.nodup_range')
  intro i hi j hj h
  have hi := List.mem_range'_1.mp (List.mem_filter.mp hi).1
  have hj := List.mem_range'_1.mp (List.mem_filter.mp hj).1
  have hvalue := congrArg (fun x : Elem field => x.value.toNat) (inv_injective h)
  simpa only [toNat_ofInt (show i < field.size by omega),
    toNat_ofInt (show j < field.size by omega)] using hvalue

/-- The search finds the locators of the errors. -/
theorem findErrorLocations_spec {L : Finset (Elem field)} (h0 : 0 ∉ L)
    {p : GenericGFPoly field} (hp : p.toPoly = KeyEquation.locator L) :
    ∃ locations, findErrorLocations p = .ok locations ∧ locations.Nodup ∧
      ∀ x, x ∈ locations ↔ x ∈ L := by
  have hdegree : p.getDegree = L.card := by
    rw [getDegree_eq, hp, KeyEquation.natDegree_locator h0]
  unfold findErrorLocations
  by_cases h1 : p.getDegree = 1
  · obtain ⟨x, rfl⟩ := Finset.card_eq_one.mp (hdegree.symm.trans h1)
    have hcoefficient : p.getCoefficient 1 = x := by
      rw [getCoefficient_eq (by rw [← getDegree_eq, h1]), hp, KeyEquation.locator,
        Finset.prod_singleton, CharTwo.sub_eq_add]
      simp [coeff_one]
    refine ⟨[x], ?_, List.nodup_singleton x, by simp⟩
    simp only [h1, if_true, hcoefficient]
  · have hmem := mem_roots_iff h0 hp
    have hnodup := nodup_roots field fun i => decide (p.evaluateAt (ofInt i) = 0)
    have hcard : ((List.range' 1 (field.size - 1)).filter
        fun i => p.evaluateAt (ofInt i) = 0).length = p.getDegree := by
      rw [hdegree, ← List.length_map (fun i => (ofInt i : Elem field)⁻¹),
        ← List.toFinset_card_of_nodup hnodup]
      congr 1
      ext x
      rw [List.mem_toFinset, hmem]
    refine ⟨_, ?_, hnodup, hmem⟩
    simp only [if_neg h1]
    rw [foldlM_chienRound ?_ [] (by simpa using hcard.le), Calls.ok_bind,
      Calls.throwIf_bind (by simpa using hcard)]
    · rfl
    · intro i hi
      have hi := List.mem_range'_1.mp hi
      omega

/-! ## The sizes of the errors -/

theorem plusOne_eq (x : Elem field) : plusOne x = x + 1 := by
  have hbits : 0 < field.bits := Primitive.bits_pos
  have hone : ∀ i < field.bits, (1 : BitVec field.bits).getLsbD i = decide (i = 0) := by
    intro i hi
    rw [BitVec.ofNat_eq_ofNat, BitVec.getLsbD_one]
    simp [hbits]
  have hlow : x.value &&& 1 = 0 ↔ x.value.getLsbD 0 = false := by
    constructor
    · intro h
      have h0 := congrArg (fun b => b.getLsbD 0) h
      simpa [BitVec.getLsbD_and, hbits.ne'] using h0
    · intro h
      refine BitVec.eq_of_getLsbD_eq fun i hi => ?_
      rw [BitVec.getLsbD_and, hone i hi]
      by_cases hi0 : i = 0
      · simp [hi0, h]
      · simp [hi0]
  refine Elem.ext (BitVec.eq_of_getLsbD_eq fun i hi => ?_)
  rw [value_add, value_one, BitVec.getLsbD_xor, hone i hi]
  unfold plusOne
  split_ifs with h
  · have h0 := hlow.mp h
    simp only [BitVec.getLsbD_or, hone i hi]
    by_cases hi0 : i = 0
    · simp [hi0, h0]
    · simp [hi0]
  · have h0 := Bool.not_eq_false _ ▸ mt hlow.mpr h
    simp only [BitVec.getLsbD_and, BitVec.getLsbD_not, hone i hi, hi]
    by_cases hi0 : i = 0
    · simp [hi0, h0]
    · simp [hi0]

theorem denominator_eq (locations : List (Elem field)) (i : ℕ) (y : Elem field) :
    denominator locations i y =
      ∏ j ∈ (Finset.range locations.length).erase i, (1 - locations.getD j 0 * y) := by
  have hloop : ∀ n, (List.range n).foldl (fun denominator j =>
      if i ≠ j then multiply denominator (plusOne (multiply (locations.getD j 0) y))
      else denominator) 1 = ∏ j ∈ (Finset.range n).erase i, (1 - locations.getD j 0 * y) := by
    intro n
    induction n with
    | zero => rfl
    | succ n ih =>
      rw [List.range_succ, List.foldl_append, ih, List.foldl_cons, List.foldl_nil,
        Finset.range_add_one]
      by_cases hin : i = n
      · subst hin
        rw [if_neg (not_not.mpr rfl), Finset.erase_insert Finset.notMem_range_self,
          Finset.erase_eq_of_notMem Finset.notMem_range_self]
      · rw [if_pos hin, Finset.erase_insert_of_ne (Ne.symm hin), Finset.prod_insert (by simp),
          multiply_eq, multiply_eq, plusOne_eq, CharTwo.sub_eq_add, mul_comm, add_comm]
  exact hloop locations.length

omit [Primitive field] in
/-- The other locations, by their indices. -/
theorem erase_eq_image {L : Finset (Elem field)} {locations : List (Elem field)}
    (hnodup : locations.Nodup) (hmem : ∀ x, x ∈ locations ↔ x ∈ L) {i : ℕ}
    (hi : i < locations.length) :
    L.erase (locations.getD i 0) =
      ((Finset.range locations.length).erase i).image fun j => locations.getD j 0 := by
  ext y
  simp only [Finset.mem_erase, Finset.mem_image, Finset.mem_range, ← hmem]
  constructor
  · rintro ⟨hne, hy⟩
    obtain ⟨j, hj, rfl⟩ := List.mem_iff_getElem.mp hy
    refine ⟨j, ⟨?_, hj⟩, List.getD_eq_getElem _ _ hj⟩
    rintro rfl
    exact hne (List.getD_eq_getElem _ _ hj).symm
  · rintro ⟨j, ⟨hji, hj⟩, rfl⟩
    rw [List.getD_eq_getElem _ _ hj, List.getD_eq_getElem _ _ hi]
    exact ⟨fun h => hji (hnodup.getElem_inj_iff.mp h), List.getElem_mem hj⟩

theorem prod_erase_eq {L : Finset (Elem field)} {locations : List (Elem field)}
    (hnodup : locations.Nodup) (hmem : ∀ x, x ∈ locations ↔ x ∈ L) {i : ℕ}
    (hi : i < locations.length) (y : Elem field) :
    denominator locations i y = ∏ x ∈ L.erase (locations.getD i 0), (1 - x * y) := by
  rw [denominator_eq, erase_eq_image hnodup hmem hi, Finset.prod_image]
  intro j hj k hk h
  have hj := Finset.mem_range.mp (Finset.mem_erase.mp hj).2
  have hk := Finset.mem_range.mp (Finset.mem_erase.mp hk).2
  simp only [List.getD_eq_getElem _ _ hj, List.getD_eq_getElem _ _ hk] at h
  exact hnodup.getElem_inj_iff.mp h

/-- What an error of the syndromes says of the error in the array. -/
def shift (x e : Elem field) : Elem field :=
  if field.generatorBase ≠ 0 then e * x⁻¹ else e

theorem errorMagnitude_spec {L : Finset (Elem field)} {e : Elem field → Elem field}
    {locations : List (Elem field)} (hnodup : locations.Nodup)
    (hmem : ∀ x, x ∈ locations ↔ x ∈ L) (h0 : 0 ∉ L) {q : GenericGFPoly field}
    (hq : q.toPoly = KeyEquation.evaluator L e) {i : ℕ} (hi : i < locations.length) :
    errorMagnitude q locations i =
      .ok (shift (locations.getD i 0) (e (locations.getD i 0))) := by
  have hx : locations.getD i 0 ∈ L := by
    rw [← hmem, List.getD_eq_getElem _ _ hi]
    exact List.getElem_mem hi
  have hx0 : locations.getD i 0 ≠ 0 := fun h => h0 (h ▸ hx)
  have hprod := KeyEquation.prod_erase_ne_zero h0 hx
  have hforney := KeyEquation.eval_evaluator h0 hx (e := e)
  rw [errorMagnitude, inverse, if_neg hx0, Calls.ok_bind, inverseOf_eq,
    prod_erase_eq hnodup hmem hi, inverse, if_neg hprod, Calls.ok_bind, inverseOf_eq, multiply_eq,
    evaluateAt_eq, hq, hforney, mul_assoc, mul_inv_cancel₀ hprod, mul_one]
  rfl

theorem findErrorMagnitudes_spec {L : Finset (Elem field)} {e : Elem field → Elem field}
    {locations : List (Elem field)} (hnodup : locations.Nodup)
    (hmem : ∀ x, x ∈ locations ↔ x ∈ L) (h0 : 0 ∉ L) {q : GenericGFPoly field}
    (hq : q.toPoly = KeyEquation.evaluator L e) :
    findErrorMagnitudes q locations = .ok (locations.map fun x => shift x (e x)) := by
  rw [findErrorMagnitudes, Calls.mapM_ok fun i hi =>
    errorMagnitude_spec hnodup hmem h0 hq (List.mem_range.mp hi)]
  congr 1
  refine List.ext_getElem (by simp) fun i hi hi' => ?_
  have hi' : i < locations.length := by simpa using hi'
  simp [List.getElem?_eq_getElem hi']

/-! ## The errors are taken away -/

/-- The positions at which an array differs from another. -/
def errorPositions (received codeword : List (Elem field)) : Finset ℕ :=
  (Finset.range codeword.length).filter fun i => received.getD i 0 ≠ codeword.getD i 0

/-- The locator of an error: the power of two that the power of the position has. -/
def locatorAt (codeword : List (Elem field)) (i : ℕ) : Elem field :=
  field.power (codeword.length - 1 - i)

/-- The position that a locator stands for. -/
def positionOf (codeword : List (Elem field)) (x : Elem field) : ℕ :=
  codeword.length - 1 - logOf x

def errorAt (received codeword : List (Elem field)) (i : ℕ) : Elem field :=
  received.getD i 0 + codeword.getD i 0

variable {received codeword : List (Elem field)}

theorem power_pow (m n : ℕ) : field.power m ^ n = field.power (m * n) := by
  induction n with
  | zero => rw [pow_zero, Nat.mul_zero, power_zero]
  | succ n ih => rw [pow_succ, ih, power_mul, Nat.mul_succ]

theorem logOf_locatorAt (hsize : codeword.length < field.size) {i : ℕ}
    (hi : i < codeword.length) :
    logOf (locatorAt codeword i) = codeword.length - 1 - i :=
  logOf_power (by omega)

theorem positionOf_locatorAt (hsize : codeword.length < field.size) {i : ℕ}
    (hi : i < codeword.length) : positionOf codeword (locatorAt codeword i) = i := by
  rw [positionOf, logOf_locatorAt hsize hi]
  omega

/-- The locators of the errors. -/
def locators (received codeword : List (Elem field)) : Finset (Elem field) :=
  (errorPositions received codeword).image (locatorAt codeword)

/-- The size of the error with the locator `x`, as the syndromes show it. -/
def errorSize (received codeword : List (Elem field)) (x : Elem field) : Elem field :=
  errorAt received codeword (positionOf codeword x) * x ^ field.generatorBase

theorem locatorAt_injOn (hsize : codeword.length < field.size) :
    Set.InjOn (locatorAt codeword) (errorPositions received codeword) := by
  intro i hi j hj h
  have hi := Finset.mem_range.mp (Finset.mem_filter.mp hi).1
  have hj := Finset.mem_range.mp (Finset.mem_filter.mp hj).1
  rw [← positionOf_locatorAt hsize hi, h, positionOf_locatorAt hsize hj]

theorem card_locators (hsize : codeword.length < field.size) :
    (locators received codeword).card = (errorPositions received codeword).card :=
  Finset.card_image_of_injOn (locatorAt_injOn hsize)

theorem zero_notMem_locators : 0 ∉ locators received codeword := by
  intro h
  obtain ⟨i, -, h⟩ := Finset.mem_image.mp h
  exact power_ne_zero _ h

theorem errorSize_ne_zero (hsize : codeword.length < field.size) {x : Elem field}
    (hx : x ∈ locators received codeword) : errorSize received codeword x ≠ 0 := by
  obtain ⟨i, hi, rfl⟩ := Finset.mem_image.mp hx
  obtain ⟨hrange, hne⟩ := Finset.mem_filter.mp hi
  rw [errorSize, positionOf_locatorAt hsize (Finset.mem_range.mp hrange)]
  refine mul_ne_zero (fun h => hne (CharTwo.add_eq_zero.mp h)) (pow_ne_zero _ (power_ne_zero _))

/-- A syndrome is the sum of what the errors add to it. -/
theorem eval_received (hlength : received.length = codeword.length)
    (hsize : codeword.length < field.size) {ecBytes : ℕ} (hcode : IsCodeword codeword ecBytes)
    {k : ℕ} (hk : k < ecBytes) :
    (Coefficients.poly received).eval (field.power (k + field.generatorBase)) =
      ∑ x ∈ locators received codeword, errorSize received codeword x * x ^ k := by
  have hterm : ∀ i ∈ errorPositions received codeword,
      errorSize received codeword (locatorAt codeword i) * locatorAt codeword i ^ k =
        errorAt received codeword i *
          field.power (k + field.generatorBase) ^ (codeword.length - 1 - i) := by
    intro i hi
    have hi := Finset.mem_range.mp (Finset.mem_filter.mp hi).1
    rw [errorSize, positionOf_locatorAt hsize hi, locatorAt, power_pow, power_pow, power_pow,
      mul_assoc, power_mul]
    congr 2
    ring
  have hsum : (Coefficients.poly received).eval (field.power (k + field.generatorBase)) =
      (Coefficients.poly received + Coefficients.poly codeword).eval
        (field.power (k + field.generatorBase)) := by
    rw [eval_add, hcode k hk, add_zero]
  rw [locators, Finset.sum_image (locatorAt_injOn hsize), Finset.sum_congr rfl hterm, hsum,
    ← Coefficients.poly_add hlength, Coefficients.poly_eq_sum, eval_finsetSum, errorPositions,
    Finset.sum_filter, List.length_zipWith, hlength, min_self]
  refine Finset.sum_congr rfl fun i hi => ?_
  have hi := Finset.mem_range.mp hi
  have hadd : (List.zipWith (· + ·) received codeword).getD i 0 = errorAt received codeword i := by
    rw [errorAt, List.getD_eq_getElem _ _ (by simpa [hlength] using hi), List.getElem_zipWith,
      List.getD_eq_getElem _ _ (by omega), List.getD_eq_getElem _ _ hi]
  rw [hadd, eval_mul, eval_C, eval_pow, eval_X]
  split_ifs with h
  · rfl
  · rw [errorAt, not_not.mp h, CharTwo.add_self_eq_zero, zero_mul]

theorem toPoly_syndrome {evals : List (Elem field)} {L : Finset (Elem field)}
    {e : Elem field → Elem field}
    (hevals : ∀ k < evals.length, evals.getD k 0 = ∑ x ∈ L, e x * x ^ k) :
    (ofCoefficients evals.reverse).toPoly = KeyEquation.syndromes L e evals.length := by
  rw [toPoly_ofCoefficients, Coefficients.poly_reverse, KeyEquation.syndromes]
  refine Finset.sum_congr rfl fun k hk => ?_
  rw [hevals k (Finset.mem_range.mp hk)]

/-- One error is taken away. -/
theorem correct_locatorAt (hsize : codeword.length < field.size) (hbase : field.generatorBase ≤ 1)
    {l : List (Elem field)} (hl : l.length = codeword.length) {i : ℕ}
    (hi : i < codeword.length) (hli : l.getD i 0 = received.getD i 0) :
    correct l (locatorAt codeword i, shift (locatorAt codeword i)
      (errorSize received codeword (locatorAt codeword i))) =
        .ok (l.set i (codeword.getD i 0)) := by
  have hx : locatorAt codeword i ≠ 0 := power_ne_zero _
  have hshift : shift (locatorAt codeword i)
      (errorSize received codeword (locatorAt codeword i)) = errorAt received codeword i := by
    rw [errorSize, positionOf_locatorAt hsize hi, shift]
    obtain h | h : field.generatorBase = 0 ∨ field.generatorBase = 1 := by omega
    · rw [if_neg (not_not.mpr h), h, pow_zero, mul_one]
    · rw [if_pos (by omega), h, pow_one, mul_inv_cancel_right₀ hx]
  have hposition : l.length - 1 - (codeword.length - 1 - i) = i := by omega
  have hvalue : l.getD i 0 + errorAt received codeword i = codeword.getD i 0 := by
    rw [hli, errorAt, ← add_assoc, CharTwo.add_self_eq_zero, zero_add]
  rw [hshift, correct, log, if_neg hx, Calls.ok_bind, logOf_locatorAt hsize hi]
  simp only []
  rw [Calls.throwIf_bind (by omega)]
  simp only [hposition, addOrSubtract_eq, hvalue, Calls.pure_eq_ok]

/-- After all errors with their locators in `xs` are taken away, the array has the element of the
codeword at each of their positions. -/
theorem foldlM_correct (hsize : codeword.length < field.size) (hbase : field.generatorBase ≤ 1)
    {is : List ℕ} (his : ∀ i ∈ is, i < codeword.length) (hnodup : is.Nodup)
    {l : List (Elem field)} (hl : l.length = codeword.length)
    (hli : ∀ i ∈ is, l.getD i 0 = received.getD i 0) :
    ∃ l', (is.map fun i => (locatorAt codeword i, shift (locatorAt codeword i)
        (errorSize received codeword (locatorAt codeword i)))).foldlM correct l = .ok l' ∧
      l'.length = codeword.length ∧
      ∀ i, l'.getD i 0 = if i ∈ is then codeword.getD i 0 else l.getD i 0 := by
  induction is generalizing l with
  | nil => exact ⟨l, rfl, hl, by simp⟩
  | cons i is ih =>
    obtain ⟨hi, his⟩ := List.forall_mem_cons.mp his
    obtain ⟨hli0, hli⟩ := List.forall_mem_cons.mp hli
    obtain ⟨hnotin, hnodup⟩ := List.nodup_cons.mp hnodup
    have hset : ∀ j, (l.set i (codeword.getD i 0)).getD j 0 =
        if i = j then codeword.getD i 0 else l.getD j 0 := by
      intro j
      by_cases hij : i = j
      · subst hij
        rw [if_pos rfl, List.getD_eq_getElem?_getD, List.getElem?_set_self (by omega)]
        rfl
      · rw [if_neg hij, List.getD_eq_getElem?_getD, List.getElem?_set_ne hij,
          List.getD_eq_getElem?_getD]
    obtain ⟨l', hfold, hl', hvalues⟩ := ih his hnodup (l := l.set i (codeword.getD i 0))
      (by rw [List.length_set, hl]) fun j hj => by
        rw [hset, if_neg (fun h : i = j => hnotin (h ▸ hj)), hli j hj]
    refine ⟨l', ?_, hl', fun j => ?_⟩
    · rw [List.map_cons, List.foldlM_cons, correct_locatorAt hsize hbase hl hi hli0, Calls.ok_bind,
        hfold]
    · rw [hvalues, hset]
      by_cases hij : i = j
      · subst hij
        simp
      · simp [hij, Ne.symm hij]

theorem locatorAt_positionOf (hsize : codeword.length < field.size) {x : Elem field}
    (hx : x ∈ locators received codeword) : locatorAt codeword (positionOf codeword x) = x := by
  obtain ⟨i, hi, rfl⟩ := Finset.mem_image.mp hx
  rw [positionOf_locatorAt hsize (Finset.mem_range.mp (Finset.mem_filter.mp hi).1)]

theorem positionOf_mem_iff (hsize : codeword.length < field.size) {locations : List (Elem field)}
    (hmem : ∀ x, x ∈ locations ↔ x ∈ locators received codeword) (i : ℕ) :
    i ∈ locations.map (positionOf codeword) ↔ i ∈ errorPositions received codeword := by
  simp only [List.mem_map, hmem]
  constructor
  · rintro ⟨x, hx, rfl⟩
    obtain ⟨i, hi, rfl⟩ := Finset.mem_image.mp hx
    rwa [positionOf_locatorAt hsize (Finset.mem_range.mp (Finset.mem_filter.mp hi).1)]
  · intro hi
    exact ⟨locatorAt codeword i, Finset.mem_image_of_mem _ hi,
      positionOf_locatorAt hsize (Finset.mem_range.mp (Finset.mem_filter.mp hi).1)⟩

/-- With the locations of the errors and their sizes, the codeword comes back. -/
theorem corrects (hlength : received.length = codeword.length)
    (hsize : codeword.length < field.size) (hbase : field.generatorBase ≤ 1)
    {locations : List (Elem field)} (hnodup : locations.Nodup)
    (hmem : ∀ x, x ∈ locations ↔ x ∈ locators received codeword) :
    (locations.zip (locations.map fun x => shift x (errorSize received codeword x))).foldlM correct
      received = .ok codeword := by
  have hpositions := positionOf_mem_iff hsize hmem
  have hinj : (locations.map (positionOf codeword)).Nodup := by
    refine hnodup.map_on fun x hx y hy h => ?_
    rw [← locatorAt_positionOf hsize ((hmem x).mp hx), h,
      locatorAt_positionOf hsize ((hmem y).mp hy)]
  obtain ⟨l, hfold, hl, hvalues⟩ := foldlM_correct hsize hbase
    (fun i hi => Finset.mem_range.mp (Finset.mem_filter.mp ((hpositions i).mp hi)).1) hinj hlength
    fun i _ => rfl
  have hzip : locations.zip (locations.map fun x => shift x (errorSize received codeword x)) =
      (locations.map (positionOf codeword)).map fun i => (locatorAt codeword i,
        shift (locatorAt codeword i) (errorSize received codeword (locatorAt codeword i))) := by
    rw [List.map_map, List.zip_map_right, List.zip_eq_zipWith, List.zipWith_self, List.map_map]
    refine List.map_congr_left fun x hx => ?_
    simp only [Function.comp_apply, locatorAt_positionOf hsize ((hmem x).mp hx)]
    rfl
  rw [hzip, hfold]
  congr 1
  refine List.ext_getElem hl fun i hi hi' => ?_
  rw [← List.getD_eq_getElem _ 0 hi, ← List.getD_eq_getElem _ 0 hi', hvalues]
  split_ifs with h
  · rfl
  · by_contra hne
    exact h ((hpositions i).mpr (Finset.mem_filter.mpr ⟨Finset.mem_range.mpr hi', hne⟩))

/-- Errors, if they are not too many, show in a syndrome. -/
theorem errorPositions_eq_empty (hsize : codeword.length < field.size) {ecBytes : ℕ}
    (herrors : 2 * (errorPositions received codeword).card ≤ ecBytes)
    (hzero : KeyEquation.syndromes (locators received codeword) (errorSize received codeword)
      ecBytes = 0) : errorPositions received codeword = ∅ := by
  by_contra hne
  have hL : (locators received codeword).Nonempty :=
    (Finset.nonempty_iff_ne_empty.mpr hne).image _
  have h0 : (0 : Elem field) ∉ locators received codeword := zero_notMem_locators
  have hkey := KeyEquation.key_equation (locators received codeword)
    (errorSize received codeword) ecBytes
  rw [hzero, mul_zero, zero_sub, dvd_neg] at hkey
  have hlt := KeyEquation.natDegree_evaluator_lt h0 hL (e := errorSize received codeword)
  rw [KeyEquation.natDegree_locator h0, card_locators hsize] at hlt
  have hω := eq_zero_of_dvd_of_natDegree_lt hkey (by rw [natDegree_X_pow]; omega)
  obtain ⟨x, hx⟩ := hL
  have hforney := KeyEquation.eval_evaluator h0 hx (e := errorSize received codeword)
  rw [hω, eval_zero] at hforney
  exact mul_ne_zero (errorSize_ne_zero hsize hx) (KeyEquation.prod_erase_ne_zero h0 hx)
    hforney.symm

/-- The decoder returns the codeword from which the array differs in at most half as many elements
as it has error-correction elements. -/
theorem decode_codeword (hne : codeword ≠ []) (hlength : received.length = codeword.length)
    (hsize : codeword.length < field.size) (hbase : field.generatorBase ≤ 1) {ecBytes : ℕ}
    (hec : ecBytes + field.generatorBase ≤ field.size) (hcode : IsCodeword codeword ecBytes)
    (herrors : 2 * (errorPositions received codeword).card ≤ ecBytes) :
    decode received ecBytes = .ok codeword := by
  have hreceived : received ≠ [] := by
    rintro rfl
    exact hne (List.length_eq_zero_iff.mp hlength.symm)
  let L := locators received codeword
  let e := errorSize received codeword
  let evals := (List.range ecBytes).map fun k => ∑ x ∈ L, e x * x ^ k
  have hmapM : (List.range ecBytes).mapM (syndromeAt (ofCoefficients received)) = .ok evals := by
    refine Calls.mapM_ok fun k hk => ?_
    have hk := List.mem_range.mp hk
    rw [syndromeAt, exp_eq (by omega), Calls.ok_bind, evaluateAt_eq, toPoly_ofCoefficients,
      eval_received hlength hsize hcode hk]
    rfl
  have hlengthEvals : evals.length = ecBytes := by simp [evals]
  have hsyndrome : (ofCoefficients evals.reverse).toPoly = KeyEquation.syndromes L e ecBytes := by
    rw [← hlengthEvals]
    refine toPoly_syndrome fun k hk => ?_
    rw [List.getD_eq_getElem _ _ hk]
    simp [evals]
  have h0 : (0 : Elem field) ∉ L := zero_notMem_locators
  rw [decode, new, if_neg hreceived, Calls.ok_bind, hmapM, Calls.ok_bind]
  by_cases hzero : ∀ eval ∈ evals, eval = 0
  · have hempty : errorPositions received codeword = ∅ := by
      refine errorPositions_eq_empty hsize herrors ?_
      rw [← hsyndrome, toPoly_ofCoefficients, List.eq_replicate_of_mem (a := 0) (l := evals.reverse)
        fun x hx => hzero x (List.mem_reverse.mp hx), Coefficients.poly_replicate_zero]
    rw [if_pos hzero, Calls.pure_eq_ok]
    congr 1
    refine List.ext_getElem hlength fun i hi hi' => ?_
    rw [← List.getD_eq_getElem _ 0 hi, ← List.getD_eq_getElem _ 0 hi']
    by_contra hi0
    have hmem : i ∈ errorPositions received codeword :=
      Finset.mem_filter.mpr ⟨Finset.mem_range.mpr hi', hi0⟩
    rw [hempty] at hmem
    exact Finset.notMem_empty i hmem
  · have hL : L.Nonempty := by
      by_contra hL
      refine hzero fun x hx => ?_
      obtain ⟨k, -, rfl⟩ := List.mem_map.mp hx
      rw [Finset.not_nonempty_iff_eq_empty.mp hL, Finset.sum_empty]
    have hcard : L.card = (errorPositions received codeword).card := card_locators hsize
    have hpos := hL.card_pos
    have hdegree : (KeyEquation.locator L).natDegree = L.card := KeyEquation.natDegree_locator h0
    have hevals : evals.reverse ≠ [] := by
      rw [← List.length_pos_iff, List.length_reverse]
      omega
    obtain ⟨sigma, omega, hrun, hsigma, homega⟩ := runEuclideanAlgorithm_spec
      (by omega) (hsyndrome ▸ KeyEquation.degree_syndromes_lt)
      (hsyndrome ▸ KeyEquation.key_equation L e ecBytes)
      (KeyEquation.isCoprime_locator_evaluator h0 fun x hx => errorSize_ne_zero hsize hx)
      (KeyEquation.natDegree_evaluator_lt h0 hL) (by omega)
      (by rw [coeff_zero_eq_eval_zero, KeyEquation.eval_zero_locator])
    obtain ⟨locations, hlocations, hnodup, hmem⟩ := findErrorLocations_spec h0 hsigma
    rw [if_neg hzero, new, if_neg hevals, Calls.ok_bind, hrun, Calls.ok_bind, hlocations,
      Calls.ok_bind, findErrorMagnitudes_spec hnodup hmem h0 homega, Calls.ok_bind]
    exact corrects hlength hsize hbase hnodup hmem

omit [Primitive field] in
theorem encode_lengths {toEncode codeword : List (Elem field)} {ecBytes : ℕ}
    (h : encode toEncode ecBytes = .ok codeword) : 0 < ecBytes ∧ ecBytes < toEncode.length := by
  rw [encode, Calls.bind_eq_ok] at h
  obtain ⟨_, hec, h⟩ := h
  obtain ⟨_, hdata, -⟩ := Calls.bind_eq_ok.mp h
  exact ⟨Nat.pos_of_ne_zero (Calls.throwIf_eq_ok.mp hec), not_le.mp (Calls.throwIf_eq_ok.mp hdata)⟩

/-- **The decoder undoes errors in up to half as many elements as were added**: whatever array
of the length of a codeword differs from it in no more elements is decoded to the codeword, which
begins with the data. -/
theorem decode_damaged {toEncode codeword received : List (Elem field)} {ecBytes : ℕ}
    (hencode : encode toEncode ecBytes = .ok codeword) (hsize : toEncode.length < field.size)
    (hbase : field.generatorBase ≤ 1) (hlength : received.length = codeword.length)
    (herrors : 2 * (errorPositions received codeword).card ≤ ecBytes) :
    decode received ecBytes = .ok codeword ∧
      codeword.take (toEncode.length - ecBytes) = toEncode.take (toEncode.length - ecBytes) := by
  obtain ⟨hec, hdata⟩ := encode_lengths hencode
  obtain ⟨codeword', hencode', hcodeword, htake, hcode⟩ := encode_spec hec hdata (by omega)
  obtain rfl : codeword = codeword' := Except.ok.inj (hencode.symm.trans hencode')
  refine ⟨decode_codeword ?_ hlength (by omega) hbase (by omega) hcode herrors, htake⟩
  rw [← List.length_pos_iff]
  omega

omit [Primitive field] in
/-- An element that is replaced is at most one more error. -/
theorem card_errorPositions_set (received codeword : List (Elem field)) (i : ℕ) (x : Elem field) :
    (errorPositions (received.set i x) codeword).card
      ≤ (errorPositions received codeword).card + 1 := by
  have hsubset : errorPositions (received.set i x) codeword
      ⊆ insert i (errorPositions received codeword) := by
    intro j hj
    by_cases hji : j = i
    · rw [hji]
      exact Finset.mem_insert_self ..
    · obtain ⟨hrange, hne⟩ := Finset.mem_filter.mp hj
      refine Finset.mem_insert_of_mem (Finset.mem_filter.mpr ⟨hrange, ?_⟩)
      rwa [List.getD_eq_getElem?_getD, List.getElem?_set_ne (Ne.symm hji),
        ← List.getD_eq_getElem?_getD] at hne
  exact (Finset.card_le_card hsubset).trans (Finset.card_insert_le ..)

def sampleArray : List (Elem QR_CODE_FIELD_256) := [⟨0x20⟩, ⟨0x5B⟩, ⟨0x0B⟩, 0, 0, 0, 0]

/-- Two errors of a codeword with four elements added. -/
theorem decode_damaged_sample : ∃ codeword, encode sampleArray 4 = .ok codeword ∧
    decode ((codeword.set 1 ⟨0x07⟩).set 5 ⟨0x99⟩) 4 = .ok codeword ∧
    codeword.take 3 = [⟨0x20⟩, ⟨0x5B⟩, ⟨0x0B⟩] := by
  obtain ⟨codeword, hencode, hlength, -⟩ := encode_spec
    (show 0 < 4 by decide) (show 4 < sampleArray.length by decide) (by decide)
  have hone := card_errorPositions_set codeword codeword 1 ⟨0x07⟩
  have htwo := card_errorPositions_set (codeword.set 1 ⟨0x07⟩) codeword 5 ⟨0x99⟩
  have hnone : errorPositions codeword codeword = ∅ := by simp [errorPositions]
  rw [hnone, Finset.card_empty] at hone
  have herrors : 2 * (errorPositions ((codeword.set 1 ⟨0x07⟩).set 5 ⟨0x99⟩) codeword).card ≤ 4 := by
    omega
  have hdecode := decode_damaged hencode (by decide) (by decide)
    (List.length_set.trans List.length_set) herrors
  exact ⟨codeword, hencode, hdecode.1, hdecode.2⟩

end ReedSolomon

end TonWallet.Qr
