import Mathlib.Algebra.CharP.Two
import Mathlib.Algebra.Field.Basic
import Mathlib.Dynamics.PeriodicPts.Defs
import Mathlib.Data.BitVec
import Mathlib.Data.List.GetD
import Mathlib.Data.List.Iterate
import Mathlib.Data.Set.Card
import TonWallet.Encoding.Bytes
import TonWallet.Lib.Calls

/-!
# Galois fields

The arithmetic of the QR code's error correction: `GenericGF.java` of the ZXing library.
Elements are bit strings, added by XOR and multiplied with a table of the powers of two
and a table of logarithms.

* `exp_logOf`: where two has all nonzero elements as its powers (`Primitive`), the two tables
  are inverse to each other.
* The elements then are a field with `multiply` and `inverse` (`instField`).
-/

namespace TonWallet.Qr

open TonWallet.Encoding

/-- What a call of the ZXing library ends with instead of a value. -/
inductive Fault where
  | illegalArgument (message : Text)
  | illegalState (message : Text)
  | arithmetic
  | indexOutOfBounds
  | reedSolomon (message : Text)
  | format
  | checksum
  | writer (message : Text)
  /-- No exception: a loop has run longer than its bound. -/
  | outOfFuel
deriving DecidableEq, Repr

/-- `GenericGF` (`GenericGF.java` lines 30–82): a field of `2 ^ bits` elements. -/
structure GenericGF where
  primitive : ℕ
  bits : ℕ
  generatorBase : ℕ
deriving DecidableEq, Repr

/-- `GenericGF.size`. -/
def GenericGF.size (field : GenericGF) : ℕ := 2 ^ field.bits

/-- An `int` that is an element of the field. -/
@[ext] structure Elem (field : GenericGF) where
  value : BitVec field.bits
deriving DecidableEq, Repr

namespace GenericGF

/-- The fields of at most 256 elements (`GenericGF.java` lines 34–37). -/
def AZTEC_DATA_6 : GenericGF := ⟨0x43, 6, 1⟩

def AZTEC_PARAM : GenericGF := ⟨0x13, 4, 1⟩

def QR_CODE_FIELD_256 : GenericGF := ⟨0x011D, 8, 0⟩

def DATA_MATRIX_FIELD_256 : GenericGF := ⟨0x012D, 8, 1⟩

variable {field : GenericGF}

instance : Zero (Elem field) := ⟨⟨0⟩⟩

instance : One (Elem field) := ⟨⟨1⟩⟩

instance : Inhabited (Elem field) := ⟨0⟩

/-- The body of the loop that fills the table (`GenericGF.java` lines 70–74). -/
def next (field : GenericGF) (x : Elem field) : Elem field :=
  let y := x.value.toNat * 2
  if y ≥ field.size then ⟨BitVec.ofNat field.bits (y ^^^ field.primitive)⟩
  else ⟨BitVec.ofNat field.bits y⟩

/-- `expTable` (`GenericGF.java` lines 65–75). -/
def expTable (field : GenericGF) : List (Elem field) :=
  List.iterate field.next 1 field.size

/-- `logTable` (`GenericGF.java` lines 66–78). -/
def logTable (field : GenericGF) : List ℕ :=
  (List.range (field.size - 1)).foldl
    (fun table i => table.set (field.expTable.getD i 0).value.toNat i)
    (List.replicate field.size 0)

/-- `addOrSubtract` (`GenericGF.java` lines 112–114). -/
def addOrSubtract (a b : Elem field) : Elem field := ⟨a.value ^^^ b.value⟩

/-- `exp` (`GenericGF.java` lines 119–121). -/
def exp (field : GenericGF) (a : ℕ) : Except Fault (Elem field) :=
  if h : a < field.expTable.length then .ok field.expTable[a] else .error .indexOutOfBounds

def logOf (a : Elem field) : ℕ := field.logTable.getD a.value.toNat 0

/-- `log` (`GenericGF.java` lines 126–131). -/
def log (a : Elem field) : Except Fault ℕ :=
  if a = 0 then .error (.illegalArgument []) else .ok (logOf a)

def inverseOf (a : Elem field) : Elem field :=
  if a = 0 then 0 else field.expTable.getD (field.size - logOf a - 1) 0

/-- `inverse` (`GenericGF.java` lines 136–141). -/
def inverse (a : Elem field) : Except Fault (Elem field) :=
  if a = 0 then .error .arithmetic else .ok (inverseOf a)

/-- `multiply` (`GenericGF.java` lines 146–151). -/
def multiply (a b : Elem field) : Elem field :=
  if a = 0 ∨ b = 0 then 0
  else field.expTable.getD ((logOf a + logOf b) % (field.size - 1)) 0

/-! ## Addition -/

instance : Add (Elem field) := ⟨addOrSubtract⟩

instance : Neg (Elem field) := ⟨id⟩

instance : Sub (Elem field) := ⟨addOrSubtract⟩

instance : Mul (Elem field) := ⟨multiply⟩

instance : Inv (Elem field) := ⟨inverseOf⟩

@[simp] theorem value_zero : (0 : Elem field).value = 0 := rfl

@[simp] theorem value_one : (1 : Elem field).value = 1 := rfl

@[simp] theorem value_add (a b : Elem field) : (a + b).value = a.value ^^^ b.value := rfl

@[simp] theorem addOrSubtract_eq (a b : Elem field) : addOrSubtract a b = a + b := rfl

@[simp] theorem multiply_eq (a b : Elem field) : multiply a b = a * b := rfl

@[simp] theorem inverseOf_eq (a : Elem field) : inverseOf a = a⁻¹ := rfl

instance : AddCommGroup (Elem field) where
  add_assoc a b c := Elem.ext (BitVec.xor_assoc a.value b.value c.value)
  zero_add a := Elem.ext (BitVec.zero_xor)
  add_zero a := Elem.ext (BitVec.xor_zero)
  add_comm a b := Elem.ext (BitVec.xor_comm a.value b.value)
  neg_add_cancel a := Elem.ext (BitVec.xor_self)
  sub_eq_add_neg a b := rfl
  nsmul := nsmulRec
  zsmul := zsmulRec

@[simp] theorem add_self (a : Elem field) : a + a = 0 := neg_add_cancel a

@[simp] theorem neg_eq (a : Elem field) : -a = a := rfl

theorem sub_eq_add (a b : Elem field) : a - b = a + b := rfl

/-- The elements are the bit strings. -/
def equivBits : Elem field ≃ BitVec field.bits where
  toFun := Elem.value
  invFun := Elem.mk
  left_inv _ := rfl
  right_inv _ := rfl

theorem card_elem : Nat.card (Elem field) = field.size := by
  rw [Nat.card_congr (equivBits.trans BitVec.equivFin.toEquiv), Nat.card_eq_fintype_card,
    Fintype.card_fin]
  rfl

/-! ## Powers of two -/

/-- Doubling shifts the bits, and adds the polynomial of the field for the bit that is lost. -/
theorem getLsbD_next (x : Elem field) (i : ℕ) (hi : i < field.bits) :
    (field.next x).value.getLsbD i =
      ((decide (0 < i) && x.value.getLsbD (i - 1)) ^^
        (x.value.getLsbD (field.bits - 1) && field.primitive.testBit i)) := by
  have hsize : field.size ≤ x.value.toNat * 2 ↔ x.value.getLsbD (field.bits - 1) = true := by
    rw [← BitVec.msb_eq_getLsbD_last, BitVec.msb_eq_decide, decide_eq_true_eq, size]
    have : 2 ^ field.bits = 2 * 2 ^ (field.bits - 1) := by
      rw [← pow_succ']
      congr 1
      omega
    omega
  have hdouble : (x.value.toNat * 2).testBit i =
      (decide (0 < i) && x.value.getLsbD (i - 1)) := by
    rw [← pow_one 2, Nat.testBit_mul_two_pow]
    rfl
  unfold next
  by_cases hx : x.value.toNat * 2 ≥ field.size
  · rw [if_pos hx, hsize.mp hx, BitVec.getLsbD_ofNat, Nat.testBit_xor, hdouble]
    simp [hi]
  · rw [if_neg hx, Bool.eq_false_iff.mpr fun h => hx (hsize.mpr h), BitVec.getLsbD_ofNat, hdouble]
    simp [hi]

theorem next_add (x y : Elem field) : field.next (x + y) = field.next x + field.next y := by
  refine Elem.ext (BitVec.eq_of_getLsbD_eq fun i hi => ?_)
  simp only [value_add, BitVec.getLsbD_xor, getLsbD_next _ i hi]
  rw [Bool.and_xor_distrib_left, Bool.and_xor_distrib_right]
  simp only [Bool.xor_assoc, Bool.xor_left_comm]

theorem next_zero : field.next 0 = 0 := by
  simpa using next_add (0 : Elem field) 0

theorem iterate_next_add (n : ℕ) (x y : Elem field) :
    field.next^[n] (x + y) = field.next^[n] x + field.next^[n] y := by
  induction n generalizing x y with
  | zero => rfl
  | succ n ih => rw [Function.iterate_succ_apply, next_add, ih]; rfl

theorem iterate_next_zero (n : ℕ) : field.next^[n] 0 = 0 :=
  Function.iterate_fixed next_zero n

/-- Two generates the field: its powers repeat only when all nonzero elements have been met. -/
class Primitive (field : GenericGF) : Prop where
  bits_pos : 0 < field.bits
  period : Function.minimalPeriod field.next 1 = field.size - 1

/-- The power of two. -/
def power (field : GenericGF) (n : ℕ) : Elem field := field.next^[n] 1

theorem power_zero : field.power 0 = 1 := rfl

theorem next_iterate_power (m n : ℕ) : field.next^[m] (field.power n) = field.power (m + n) :=
  (Function.iterate_add_apply _ m n _).symm

/-! ## The tables -/

@[simp] theorem length_expTable : field.expTable.length = field.size := by
  simp [expTable]

theorem getElem_expTable {n : ℕ} (hn : n < field.expTable.length) :
    field.expTable[n] = field.power n := by
  simp [expTable, power]

theorem expTable_getD {n : ℕ} (hn : n < field.size) (a : Elem field) :
    field.expTable.getD n a = field.power n := by
  rw [List.getD_eq_getElem _ _ (by simpa using hn), getElem_expTable]

theorem exp_eq {n : ℕ} (hn : n < field.size) : field.exp n = .ok (field.power n) := by
  rw [exp, dif_pos (by simpa using hn), getElem_expTable]

/-- A table that is written at different places holds what was written. -/
theorem getElem?_foldl_set {key : ℕ → ℕ} {table : List ℕ} {n : ℕ}
    (hkey : ∀ i < n, key i < table.length) (hinj : Set.InjOn key (Set.Iio n)) {i : ℕ} (hi : i < n) :
    ((List.range n).foldl (fun table i => table.set (key i) i) table)[key i]? = some i := by
  induction n with
  | zero => omega
  | succ n ih =>
    have hlength : ((List.range n).foldl (fun table i => table.set (key i) i) table).length =
        table.length :=
      List.foldlRecOn (motive := fun t : List ℕ => t.length = table.length) _ _ rfl
        fun t ht i _ => by rw [List.length_set, ht]
    rw [List.range_succ, List.foldl_append, List.foldl_cons, List.foldl_nil]
    by_cases hin : i = n
    · rw [hin, List.getElem?_set_self (by rw [hlength]; exact hkey n n.lt_succ_self)]
    · have hi' : i < n := by omega
      rw [List.getElem?_set_ne fun h => hin (hinj hi n.lt_succ_self h.symm)]
      exact ih (fun j hj => hkey j (by omega)) (hinj.mono (Set.Iio_subset_Iio n.le_succ)) hi'

theorem zero_mul' (a : Elem field) : 0 * a = 0 := by
  rw [← multiply_eq, multiply, if_pos (.inl rfl)]

theorem mul_comm' (a b : Elem field) : a * b = b * a := by
  simp only [← multiply_eq, multiply, or_comm, add_comm]

variable [Primitive field]

theorem two_le_size (field : GenericGF) [Primitive field] : 2 ≤ field.size :=
  Nat.le_self_pow (Primitive.bits_pos : 0 < field.bits).ne' 2

theorem power_mod (n : ℕ) : field.power (n % (field.size - 1)) = field.power n := by
  unfold power
  rw [← (Primitive.period : _ = field.size - 1), Function.iterate_mod_minimalPeriod_eq]

theorem power_injOn : Set.InjOn field.power (Set.Iio (field.size - 1)) := by
  rw [← (Primitive.period : _ = field.size - 1)]
  exact Function.iterate_injOn_Iio_minimalPeriod

theorem one_ne_zero' : (1 : Elem field) ≠ 0 := by
  intro h
  have hbits : 0 < field.bits := Primitive.bits_pos
  have h0 : (1 : BitVec field.bits).getLsbD 0 = (0 : BitVec field.bits).getLsbD 0 :=
    congrArg (fun x : Elem field => x.value.getLsbD 0) h
  simp [hbits] at h0

theorem power_ne_zero (n : ℕ) : field.power n ≠ 0 := by
  intro h
  have hsize := two_le_size field
  have hk : field.power ((field.size - 1) * n) = 0 := by
    have : (field.size - 1) * n = ((field.size - 1) * n - n) + n :=
      (Nat.sub_add_cancel (Nat.le_mul_of_pos_left n (by omega))).symm
    rw [this, ← next_iterate_power, h, iterate_next_zero]
  rw [← power_mod, Nat.mul_mod_right, power_zero] at hk
  exact one_ne_zero' hk

/-- Every nonzero element is a power of two. -/
theorem exists_power {a : Elem field} (ha : a ≠ 0) : ∃ n < field.size - 1, field.power n = a := by
  have : Finite (Elem field) := Finite.of_equiv _ (equivBits.trans BitVec.equivFin.toEquiv).symm
  have hncard : ({0}ᶜ : Set (Elem field)).ncard = field.size - 1 := by
    rw [Set.ncard_compl, Set.ncard_singleton, card_elem]
  have himage : field.power '' Set.Iio (field.size - 1) = {0}ᶜ := by
    apply Set.eq_of_subset_of_ncard_le _ _ (Set.toFinite _)
    · rintro _ ⟨n, _, rfl⟩
      exact power_ne_zero n
    · rw [hncard, power_injOn.ncard_image, ← Finset.coe_range, Set.ncard_coe_finset,
        Finset.card_range]
  have hmem : a ∈ field.power '' Set.Iio (field.size - 1) := by
    rw [himage]
    exact ha
  obtain ⟨n, hn, h⟩ := hmem
  exact ⟨n, hn, h⟩

/-- The table of logarithms is the inverse of the table of powers. -/
theorem logOf_power {n : ℕ} (hn : n < field.size - 1) : logOf (field.power n) = n := by
  have hkey : ∀ i < field.size - 1, (field.expTable.getD i 0).value.toNat <
      (List.replicate field.size 0).length := by
    intro i _
    rw [List.length_replicate]
    exact BitVec.isLt _
  have hinj : Set.InjOn (fun i => (field.expTable.getD i 0).value.toNat)
      (Set.Iio (field.size - 1)) := by
    intro i hi j hj h
    have hi := Set.mem_Iio.mp hi
    have hj := Set.mem_Iio.mp hj
    apply power_injOn hi hj
    rw [← expTable_getD (by omega) 0, ← expTable_getD (n := j) (by omega) 0]
    exact Elem.ext (BitVec.eq_of_toNat_eq h)
  have h := getElem?_foldl_set hkey hinj hn
  rw [expTable_getD (by omega)] at h
  rw [logOf, List.getD_eq_getElem?_getD, logTable, h, Option.getD_some]

/-- The logarithm of a nonzero element is the power of two that it is. -/
theorem power_logOf {a : Elem field} (ha : a ≠ 0) : field.power (logOf a) = a := by
  obtain ⟨n, hn, rfl⟩ := exists_power ha
  rw [logOf_power hn]

theorem logOf_lt {a : Elem field} (ha : a ≠ 0) : logOf a < field.size - 1 := by
  obtain ⟨n, hn, rfl⟩ := exists_power ha
  rwa [logOf_power hn]

/-! ## The field -/

theorem power_mul (m n : ℕ) : field.power m * field.power n = field.power (m + n) := by
  have hsize := two_le_size field
  rw [← power_mod m, ← power_mod n, ← multiply_eq, multiply,
    if_neg (not_or.mpr ⟨power_ne_zero _, power_ne_zero _⟩),
    logOf_power (Nat.mod_lt _ (by omega)), logOf_power (Nat.mod_lt _ (by omega)),
    expTable_getD ((Nat.mod_lt _ (by omega)).trans_le (by omega)), ← Nat.add_mod, power_mod]

/-- To multiply by a power of two is to double as many times. -/
theorem power_mul_eq (n : ℕ) (a : Elem field) : field.power n * a = field.next^[n] a := by
  by_cases ha : a = 0
  · rw [ha, mul_comm', zero_mul', iterate_next_zero]
  · rw [← power_logOf ha, power_mul, next_iterate_power]

theorem mul_add' (a b c : Elem field) : a * (b + c) = a * b + a * c := by
  by_cases ha : a = 0
  · simp only [ha, zero_mul', add_zero]
  · rw [← power_logOf ha]
    simp only [power_mul_eq, iterate_next_add]

theorem mul_assoc' (a b c : Elem field) : a * b * c = a * (b * c) := by
  by_cases ha : a = 0
  · simp only [ha, zero_mul']
  by_cases hb : b = 0
  · simp only [hb, zero_mul', mul_comm' a 0]
  rw [← power_logOf ha, ← power_logOf hb, power_mul]
  simp only [power_mul_eq]
  exact Function.iterate_add_apply _ _ _ _

theorem inv_power {n : ℕ} (hn : n < field.size - 1) :
    (field.power n)⁻¹ = field.power (field.size - 1 - n) := by
  rw [← inverseOf_eq, inverseOf, if_neg (power_ne_zero n), logOf_power hn,
    expTable_getD (by omega)]
  congr 1
  omega

theorem mul_inv_cancel' {a : Elem field} (ha : a ≠ 0) : a * a⁻¹ = 1 := by
  obtain ⟨n, hn, rfl⟩ := exists_power ha
  rw [inv_power hn, power_mul, Nat.add_sub_cancel' hn.le, ← power_mod, Nat.mod_self, power_zero]

instance instField : Field (Elem field) where
  mul_assoc := mul_assoc'
  one_mul a := by
    rw [← power_zero, power_mul_eq]
    rfl
  mul_one a := by
    rw [← power_zero, mul_comm', power_mul_eq]
    rfl
  left_distrib := mul_add'
  right_distrib a b c := by simp only [mul_comm' _ c, mul_add']
  zero_mul := zero_mul'
  mul_zero a := by rw [mul_comm', zero_mul']
  mul_comm := mul_comm'
  exists_pair_ne := ⟨1, 0, one_ne_zero'⟩
  mul_inv_cancel _ := mul_inv_cancel'
  inv_zero := by rw [← inverseOf_eq, inverseOf, if_pos rfl]
  nsmul := nsmulRec
  zsmul := zsmulRec
  sub_eq_add_neg _ _ := rfl
  neg_add_cancel := neg_add_cancel
  nnqsmul := _
  nnqsmul_def _ _ := rfl
  qsmul := _
  qsmul_def _ _ := rfl

instance : CharP (Elem field) 2 :=
  CharTwo.of_one_ne_zero_of_two_eq_zero one_ne_zero (by rw [← one_add_one_eq_two, add_self])

theorem inverse_eq_ok_iff {a b : Elem field} : inverse a = .ok b ↔ multiply a b = 1 := by
  by_cases ha : a = 0
  · simp [inverse, ha]
  · rw [inverse, if_neg ha, inverseOf_eq, multiply_eq, Except.ok.injEq,
      mul_eq_one_iff_inv_eq₀ ha]

/-- **The tables make a field**: multiplication is associative, commutative and distributes over
XOR, exactly the nonzero elements have an inverse and a logarithm, and the table of the powers
undoes the logarithm. -/
theorem table_arithmetic (field : GenericGF) [Primitive field] (a b c : Elem field) :
    multiply (multiply a b) c = multiply a (multiply b c) ∧ multiply a b = multiply b a ∧
      multiply a (addOrSubtract b c) = addOrSubtract (multiply a b) (multiply a c) ∧
      multiply 1 a = a ∧ (inverse a = .ok b ↔ multiply a b = 1) ∧
      (a ≠ 0 → ∃ d n, inverse a = .ok d ∧ log a = .ok n ∧ field.exp n = .ok a) := by
  refine ⟨mul_assoc a b c, mul_comm a b, mul_add a b c, one_mul a, inverse_eq_ok_iff,
    fun ha => ⟨a⁻¹, logOf a, ?_⟩⟩
  have hlt := logOf_lt ha
  rw [inverse, if_neg ha, log, if_neg ha, exp_eq (by omega), power_logOf ha]
  exact ⟨rfl, rfl, rfl⟩

/-! ## The fields of the library -/

omit [Primitive field] in
/-- Two generates the field if no power of it before the last is one. -/
theorem Primitive.of_divisors (hbits : 0 < field.bits) (hperiod : field.power (field.size - 1) = 1)
    (hdiv : ∀ d < field.size - 1, d ∣ field.size - 1 → field.power d ≠ 1) : Primitive field := by
  have hsize : 0 < field.size - 1 := Nat.sub_pos_of_lt (Nat.one_lt_two_pow hbits.ne')
  have hdvd : Function.minimalPeriod field.next 1 ∣ field.size - 1 :=
    Function.IsPeriodicPt.minimalPeriod_dvd hperiod
  refine ⟨hbits, (Nat.le_of_dvd hsize hdvd).antisymm (not_lt.mp fun hlt => ?_)⟩
  exact hdiv _ hlt hdvd Function.iterate_minimalPeriod

instance : Primitive QR_CODE_FIELD_256 :=
  .of_divisors (by decide) (by decide +kernel) (by decide +kernel)

instance : Primitive DATA_MATRIX_FIELD_256 :=
  .of_divisors (by decide) (by decide +kernel) (by decide +kernel)

instance : Primitive AZTEC_PARAM :=
  .of_divisors (by decide) (by decide +kernel) (by decide +kernel)

instance : Primitive AZTEC_DATA_6 :=
  .of_divisors (by decide) (by decide +kernel) (by decide +kernel)

theorem table_arithmetic_qr : ∃ d n, inverse (⟨3⟩ : Elem QR_CODE_FIELD_256) = .ok d ∧
    log (⟨3⟩ : Elem QR_CODE_FIELD_256) = .ok n ∧ QR_CODE_FIELD_256.exp n = .ok ⟨3⟩ := by
  obtain ⟨-, -, -, -, -, hlog⟩ := table_arithmetic QR_CODE_FIELD_256 ⟨3⟩ 0 0
  exact hlog (by decide)

end GenericGF

end TonWallet.Qr
