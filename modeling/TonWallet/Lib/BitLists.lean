import Mathlib.Data.Nat.Size
import Mathlib.Tactic.IntervalCases
import Mathlib.Tactic.Common
import Mathlib.Tactic.Ring
import TonWallet.Lib.Digits

/-!
# Lists of bits

Numbers and bytes as lists of bits, the highest bit first.

* `value_ofNat`, `ofNat_value`: a number of `w` bits and its bits.
* `ofNat_append`: the bits of two numbers in a row.
* `fixed_two`: the digits of base two are the bits.
* `getElem?_unpack`, `unpack_set`: bit `n` of an array of bytes is bit `n % 8` of byte `n / 8`.
* `pack_unpack`, `unpack_pack`: whole bytes and their bits.
-/

namespace BitList

/-- The `w` low bits of a number. -/
def ofNat : ℕ → ℕ → List Bool
  | 0, _ => []
  | w + 1, n => n.testBit w :: ofNat w n

/-- The number that bits spell. -/
def value : List Bool → ℕ
  | [] => 0
  | b :: bs => b.toNat * 2 ^ bs.length + value bs

@[simp] theorem ofNat_zero (n : ℕ) : ofNat 0 n = [] := rfl

theorem ofNat_succ (w n : ℕ) : ofNat (w + 1) n = n.testBit w :: ofNat w n := rfl

@[simp] theorem value_nil : value [] = 0 := rfl

theorem value_cons (b : Bool) (bs : List Bool) :
    value (b :: bs) = b.toNat * 2 ^ bs.length + value bs := rfl

@[simp] theorem length_ofNat (w n : ℕ) : (ofNat w n).length = w := by
  induction w with
  | zero => rfl
  | succ w ih => rw [ofNat_succ, List.length_cons, ih]

theorem value_lt (bs : List Bool) : value bs < 2 ^ bs.length := by
  induction bs with
  | nil => exact Nat.one_pos
  | cons b bs ih =>
    have hb : b.toNat ≤ 1 := Bool.toNat_le b
    have := Nat.mul_le_mul_right (2 ^ bs.length) hb
    rw [value_cons, List.length_cons, pow_succ]
    omega

theorem value_append (as bs : List Bool) :
    value (as ++ bs) = value as * 2 ^ bs.length + value bs := by
  induction as with
  | nil => simp
  | cons a as ih =>
    rw [List.cons_append, value_cons, value_cons, ih, List.length_append, pow_add]
    ring

theorem value_ofNat (w n : ℕ) : value (ofNat w n) = n % 2 ^ w := by
  induction w with
  | zero => simp [Nat.mod_one]
  | succ w ih =>
    rw [ofNat_succ, value_cons, length_ofNat, ih, Nat.mod_pow_succ,
      Nat.testBit_eq_decide_div_mod_eq]
    obtain h | h := Nat.mod_two_eq_zero_or_one (n / 2 ^ w) <;> simp [h, Nat.add_comm]

theorem value_ofNat_of_lt {w n : ℕ} (h : n < 2 ^ w) : value (ofNat w n) = n := by
  rw [value_ofNat, Nat.mod_eq_of_lt h]

/-- Only the low bits count. -/
theorem ofNat_mod {v w : ℕ} (h : v ≤ w) (n : ℕ) : ofNat v (n % 2 ^ w) = ofNat v n := by
  induction v with
  | zero => rfl
  | succ v ih =>
    rw [ofNat_succ, ofNat_succ, ih (by omega), Nat.testBit_mod_two_pow]
    simp [show v < w by omega]

theorem ofNat_append (v w n : ℕ) : ofNat (v + w) n = ofNat v (n / 2 ^ w) ++ ofNat w n := by
  induction v with
  | zero => simp
  | succ v ih =>
    rw [Nat.add_right_comm, ofNat_succ, ih, ofNat_succ, List.cons_append, Nat.testBit_div_two_pow]

theorem ofNat_value (bs : List Bool) : ofNat bs.length (value bs) = bs := by
  induction bs with
  | nil => rfl
  | cons b bs ih =>
    have hlt := value_lt bs
    have hlow : ofNat bs.length (value (b :: bs)) = bs := by
      conv_rhs => rw [← ih]
      rw [← ofNat_mod (Nat.le_refl bs.length) (value (b :: bs)), value_cons, Nat.mul_comm,
        Nat.mul_add_mod, Nat.mod_eq_of_lt hlt]
    have hhigh : (value (b :: bs)).testBit bs.length = b := by
      rw [Nat.testBit_eq_decide_div_mod_eq, value_cons, Nat.mul_comm,
        Nat.mul_add_div (Nat.two_pow_pos _), Nat.div_eq_of_lt hlt]
      cases b <;> rfl
    rw [List.length_cons, ofNat_succ, hlow, hhigh]

theorem value_injective {as bs : List Bool} (hlen : as.length = bs.length)
    (h : value as = value bs) : as = bs := by
  rw [← ofNat_value as, hlen, h, ofNat_value]

theorem ofNat_injective {w m n : ℕ} (hm : m < 2 ^ w) (hn : n < 2 ^ w)
    (h : ofNat w m = ofNat w n) : m = n := by
  rw [← value_ofNat_of_lt hm, h, value_ofNat_of_lt hn]

/-! ## Digits of base two -/

/-- The digit of a bit. -/
def digit (b : Bool) : Char := if b then '1' else '0'

/-- The digits of a number in base two are its bits. -/
theorem fixed_two (w n : ℕ) : Digits.fixed 2 w n = (ofNat w n).map digit := by
  induction w generalizing n with
  | zero => rfl
  | succ w ih =>
    have hlast : [Nat.digitChar (n % 2)] = (ofNat 1 n).map digit := by
      rw [ofNat_succ, ofNat_zero, Nat.testBit_zero]
      obtain h | h := Nat.mod_two_eq_zero_or_one n
      · rw [h]
        rfl
      · rw [h]
        rfl
    rw [Digits.fixed, ih, hlast, ← List.map_append, ofNat_append w 1 n, pow_one]

/-! ## Bytes -/

/-- The bits of bytes. -/
def unpack (bytes : List (BitVec 8)) : List Bool := bytes.flatMap fun b => ofNat 8 b.toNat

/-- The bytes of bits, of which those that fill no byte are left over. -/
def pack : List Bool → List (BitVec 8)
  | b₇ :: b₆ :: b₅ :: b₄ :: b₃ :: b₂ :: b₁ :: b₀ :: bs =>
    BitVec.ofNat 8 (value [b₇, b₆, b₅, b₄, b₃, b₂, b₁, b₀]) :: pack bs
  | _ => []

@[simp] theorem unpack_nil : unpack [] = [] := rfl

@[simp] theorem unpack_cons (b : BitVec 8) (bytes : List (BitVec 8)) :
    unpack (b :: bytes) = ofNat 8 b.toNat ++ unpack bytes := rfl

theorem unpack_append (a b : List (BitVec 8)) : unpack (a ++ b) = unpack a ++ unpack b :=
  List.flatMap_append

@[simp] theorem length_unpack (bytes : List (BitVec 8)) :
    (unpack bytes).length = 8 * bytes.length := by
  induction bytes with
  | nil => rfl
  | cons b bytes ih =>
    rw [unpack_cons, List.length_append, length_ofNat, ih, List.length_cons]
    omega

/-- The bits of bytes, of each byte the lowest bit first. -/
def unpackLow (bytes : List (BitVec 8)) : List Bool :=
  bytes.flatMap fun b => (ofNat 8 b.toNat).reverse

theorem unpackLow_cons (b : BitVec 8) (bytes : List (BitVec 8)) :
    unpackLow (b :: bytes) = (ofNat 8 b.toNat).reverse ++ unpackLow bytes := rfl

theorem unpackLow_append (a b : List (BitVec 8)) :
    unpackLow (a ++ b) = unpackLow a ++ unpackLow b := List.flatMap_append

@[simp] theorem length_unpackLow (bytes : List (BitVec 8)) :
    (unpackLow bytes).length = 8 * bytes.length := by
  induction bytes with
  | nil => rfl
  | cons b bytes ih =>
    rw [unpackLow_cons, List.length_append, List.length_reverse, length_ofNat, ih, List.length_cons]
    omega

theorem unpackLow_reverse (bytes : List (BitVec 8)) :
    unpackLow bytes.reverse = (unpack bytes).reverse := by
  induction bytes with
  | nil => rfl
  | cons b bytes ih =>
    rw [List.reverse_cons, unpackLow_append, ih, unpack_cons, List.reverse_append, unpackLow_cons]
    simp [unpackLow]

theorem unpack_take (bytes : List (BitVec 8)) (n : ℕ) :
    unpack (bytes.take n) = (unpack bytes).take (8 * n) := by
  induction bytes generalizing n with
  | nil => simp
  | cons b bytes ih =>
    cases n with
    | zero => rfl
    | succ n =>
      have hlen : (ofNat 8 b.toNat).length = 8 := length_ofNat 8 _
      have hhead : (ofNat 8 b.toNat).take (8 * (n + 1)) = ofNat 8 b.toNat :=
        List.take_of_length_le (by omega)
      rw [List.take_succ_cons, unpack_cons, unpack_cons, ih, List.take_append, hhead, hlen,
        show 8 * (n + 1) - 8 = 8 * n by omega]

theorem getElem?_ofNat {w i n : ℕ} (h : i < w) :
    (ofNat w n)[i]? = some (n.testBit (w - 1 - i)) := by
  induction w generalizing i with
  | zero => omega
  | succ w ih =>
    cases i with
    | zero => rfl
    | succ i =>
      rw [ofNat_succ, List.getElem?_cons_succ, ih (by omega)]
      congr 2
      omega

/-- Bit `n` of an array of bytes is in byte `n / 8`. -/
theorem getElem?_unpack (bytes : List (BitVec 8)) (n : ℕ) :
    (unpack bytes)[n]? = bytes[n / 8]?.map fun b => b.getLsbD (7 - n % 8) := by
  induction bytes generalizing n with
  | nil => simp
  | cons b bytes ih =>
    have hlen : (ofNat 8 b.toNat).length = 8 := length_ofNat 8 _
    by_cases h : n < 8
    · rw [unpack_cons, List.getElem?_append_left (by omega), getElem?_ofNat h, Nat.div_eq_of_lt h,
        Nat.mod_eq_of_lt h]
      rfl
    · have hdiv : n / 8 = (n - 8) / 8 + 1 := by omega
      have hmod : n % 8 = (n - 8) % 8 := by omega
      rw [unpack_cons, List.getElem?_append_right (by omega), hlen, ih, hdiv, hmod,
        List.getElem?_cons_succ]

/-- Setting a bit of one byte sets one bit of the array. -/
theorem unpack_set {bytes : List (BitVec 8)} {n : ℕ} {b c : BitVec 8} {v : Bool}
    (hb : bytes[n / 8]? = some b)
    (hc : ∀ k < 8, c.getLsbD k = if k = 7 - n % 8 then v else b.getLsbD k) :
    unpack (bytes.set (n / 8) c) = (unpack bytes).set n v := by
  have hlt : n / 8 < bytes.length := (List.getElem?_eq_some_iff.mp hb).1
  refine List.ext_getElem? fun i => ?_
  rw [getElem?_unpack, List.getElem?_set, List.getElem?_set, getElem?_unpack, length_unpack]
  by_cases hi : n / 8 = i / 8
  · rw [if_pos hi, if_pos (by omega), Option.map_some, hc _ (by omega), ← hi, hb, Option.map_some]
    by_cases hn : n = i
    · rw [if_pos hn, if_pos (by omega), if_pos (by omega)]
    · rw [if_neg hn, if_neg (by omega)]
  · rw [if_neg hi, if_neg (by omega)]

theorem unpack_pack {bs : List Bool} (h : 8 ∣ bs.length) : unpack (pack bs) = bs := by
  induction bs using pack.induct with
  | case1 b₇ b₆ b₅ b₄ b₃ b₂ b₁ b₀ bs ih =>
    have hlt : value [b₇, b₆, b₅, b₄, b₃, b₂, b₁, b₀] < 2 ^ 8 := value_lt _
    have hbyte : ofNat 8 (BitVec.ofNat 8 (value [b₇, b₆, b₅, b₄, b₃, b₂, b₁, b₀])).toNat
        = [b₇, b₆, b₅, b₄, b₃, b₂, b₁, b₀] := by
      rw [BitVec.toNat_ofNat, Nat.mod_eq_of_lt hlt]
      exact ofNat_value [b₇, b₆, b₅, b₄, b₃, b₂, b₁, b₀]
    rw [pack, unpack_cons, hbyte, ih ((Nat.dvd_add_left (dvd_refl 8)).mp h)]
    rfl
  | case2 bs hbs =>
    have hlen : bs.length < 8 := by
      by_contra hlt
      match bs, hbs with
      | b₇ :: b₆ :: b₅ :: b₄ :: b₃ :: b₂ :: b₁ :: b₀ :: bs, hbs =>
        exact hbs _ _ _ _ _ _ _ _ _ rfl
      | [], _ | [_], _ | [_, _], _ | [_, _, _], _ | [_, _, _, _], _ | [_, _, _, _, _], _
      | [_, _, _, _, _, _], _ | [_, _, _, _, _, _, _], _ => simp at hlt
    rw [List.eq_nil_of_length_eq_zero (Nat.eq_zero_of_dvd_of_lt h hlen)]
    rfl

theorem unpack_injective : Function.Injective unpack := by
  intro a b h
  induction a generalizing b with
  | nil =>
    have := congrArg List.length h
    rw [length_unpack, length_unpack] at this
    exact (List.eq_nil_of_length_eq_zero (by simpa using this.symm)).symm
  | cons x a ih =>
    cases b with
    | nil => simpa using congrArg List.length h
    | cons y b =>
      obtain ⟨hhead, htail⟩ := List.append_inj h (by simp)
      rw [ih htail, BitVec.eq_of_toNat_eq (ofNat_injective x.isLt y.isLt hhead)]

theorem unpackLow_injective : Function.Injective unpackLow := by
  intro a b h
  have hrev : (unpack a.reverse).reverse = (unpack b.reverse).reverse := by
    rw [← unpackLow_reverse, ← unpackLow_reverse, List.reverse_reverse, List.reverse_reverse, h]
  exact List.reverse_inj.mp (unpack_injective (List.reverse_inj.mp hrev))

theorem length_pack {bs : List Bool} (h : 8 ∣ bs.length) : 8 * (pack bs).length = bs.length := by
  rw [← length_unpack, unpack_pack h]

end BitList
