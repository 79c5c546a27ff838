import Mathlib.Data.List.Basic
import Mathlib.Tactic.Common
import Mathlib.Tactic.Ring

/-!
# Digits

`Nat.ofDigitChars` reads digits as a number, the highest one first, and
`Nat.toDigits` writes them.

* `ofDigitChars_lt`: the number is below the power of ten of their count.
* `ofDigitChars_take`, `ofDigitChars_take_iff`: what cutting digits off does to
  the number, and when it does nothing.
* `head_toDigits`: a number is written without leading zeros.
* `pad_toDigits`: with zeros in front it has a fixed number of digits, in any base.
-/

namespace Digits

open Nat (toDigits ofDigitChars)

theorem isDigit_bounds {c : Char} (h : c.isDigit) : 48 ≤ c.toNat ∧ c.toNat ≤ 57 :=
  Char.isDigit_iff_toNat.mp h

/-- As many digits make a number below the power of ten. -/
theorem ofDigitChars_lt {cs : List Char} (h : ∀ c ∈ cs, c.isDigit) (acc : ℕ) :
    ofDigitChars 10 cs acc < (acc + 1) * 10 ^ cs.length := by
  induction cs generalizing acc with
  | nil => simp
  | cons c cs ih =>
    have hc := isDigit_bounds (h c (by simp))
    have ih := ih (fun d hd => h d (by simp [hd])) (10 * acc + (c.toNat - '0'.toNat))
    rw [Nat.ofDigitChars_cons, List.length_cons, Nat.pow_succ]
    refine ih.trans_le ?_
    calc (10 * acc + (c.toNat - '0'.toNat) + 1) * 10 ^ cs.length
        ≤ ((acc + 1) * 10) * 10 ^ cs.length :=
          Nat.mul_le_mul_right _ (by simp at *; omega)
      _ = (acc + 1) * (10 ^ cs.length * 10) := by ring

/-- Cutting digits off divides by a power of ten. -/
theorem ofDigitChars_take {ds : List Char} (h : ∀ c ∈ ds, c.isDigit) (n : ℕ) :
    ofDigitChars 10 ds 0 / 10 ^ (ds.length - n) = ofDigitChars 10 (ds.take n) 0 := by
  have hlt := ofDigitChars_lt (fun c hc => h c (List.mem_of_mem_drop (i := n) hc)) 0
  have hsplit := Nat.ofDigitChars_append (b := 10) (l := ds.take n) (m := ds.drop n) 0
  rw [List.take_append_drop, Nat.ofDigitChars_eq_ofDigitChars_zero (l := ds.drop n)] at hsplit
  rw [List.length_drop, Nat.zero_add, Nat.one_mul] at hlt
  rw [hsplit, List.length_drop, Nat.mul_add_div (Nat.pow_pos (by decide)),
    Nat.div_eq_of_lt hlt, Nat.add_zero]

theorem eq_zero_of_ofDigitChars {ds : List Char} (h : ∀ c ∈ ds, c.isDigit)
    (hz : ofDigitChars 10 ds 0 = 0) : ∀ c ∈ ds, c = '0' := by
  induction ds with
  | nil => exact List.forall_mem_nil _
  | cons c ds ih =>
    obtain ⟨hc, hds⟩ := List.forall_mem_cons.mp h
    rw [Nat.ofDigitChars_cons, Nat.ofDigitChars_eq_ofDigitChars_zero] at hz
    obtain ⟨hmul, hz⟩ := Nat.add_eq_zero_iff.mp hz
    have hc0 : c.toNat - '0'.toNat = 0 := by
      simpa using (Nat.mul_eq_zero.mp hmul).resolve_left (Nat.pow_pos (by decide)).ne'
    have hb := isDigit_bounds hc
    have hzero : '0'.toNat = 48 := rfl
    have hc : c = '0' := Char.toNat_inj.mp (by omega)
    exact List.forall_mem_cons.mpr ⟨hc, ih hds hz⟩

theorem ofDigitChars_zeros {ds : List Char} (h : ∀ c ∈ ds, c = '0') : ofDigitChars 10 ds 0 = 0 := by
  rw [List.eq_replicate_of_mem h, Nat.ofDigitChars_replicate_zero, Nat.mul_zero]

/-- Digits that are cut off leave the number as it was only if there are none or if all are
zeros. -/
theorem ofDigitChars_take_iff {ds : List Char} (h : ∀ c ∈ ds, c.isDigit) (n : ℕ) :
    ofDigitChars 10 (ds.take n) 0 = ofDigitChars 10 ds 0 ↔ ds.length ≤ n ∨ ∀ c ∈ ds, c = '0' := by
  constructor
  · intro he
    by_cases hlen : ds.length ≤ n
    · exact .inl hlen
    · refine .inr (eq_zero_of_ofDigitChars h ?_)
      have hpow : 1 < 10 ^ (ds.length - n) := Nat.one_lt_pow (by omega) (by decide)
      rw [← ofDigitChars_take h n] at he
      by_contra hz
      exact absurd he (Nat.div_lt_self (by omega) hpow).ne
  · rintro (hlen | hz)
    · rw [List.take_of_length_le hlen]
    · rw [ofDigitChars_zeros hz, ofDigitChars_zeros fun c hc => hz c (List.mem_of_mem_take hc)]

theorem head_toDigits {n : ℕ} (h : 0 < n) : (toDigits 10 n).head? ≠ some '0' := by
  induction n using Nat.strong_induction_on with
  | _ n ih =>
    by_cases hn : n < 10
    · rw [Nat.toDigits_of_lt_base hn, List.head?_cons, ne_eq, Option.some.injEq,
        Nat.digitChar_eq_zero]
      omega
    · rw [Nat.toDigits_of_base_le (by decide) (by omega), List.head?_append_of_ne_nil _
        Nat.toDigits_ne_nil]
      exact ih (n / 10) (by omega) (by omega)

/-! ## A fixed number of digits -/

/-- The `w` lowest digits of a number. -/
def fixed (b : ℕ) : ℕ → ℕ → List Char
  | 0, _ => []
  | w + 1, n => fixed b w (n / b) ++ [Nat.digitChar (n % b)]

theorem fixed_zero (b w : ℕ) : fixed b w 0 = List.replicate w '0' := by
  induction w with
  | zero => rfl
  | succ w ih =>
    rw [fixed, Nat.zero_div, Nat.zero_mod, ih, List.replicate_succ']
    rfl

/-- Zeros are written in front of a number that has too few digits. -/
theorem pad_toDigits {b w n : ℕ} (hb : 1 < b) (hw : 0 < w) (hn : n < b ^ w) :
    List.replicate (w - (toDigits b n).length) '0' ++ toDigits b n = fixed b w n := by
  induction w generalizing n with
  | zero => omega
  | succ w ih =>
    rw [fixed]
    by_cases h : n < b
    · rw [Nat.toDigits_of_lt_base h, Nat.div_eq_of_lt h, Nat.mod_eq_of_lt h, fixed_zero]
      rfl
    · have hpos : 0 < w := by
        rcases Nat.eq_zero_or_pos w with rfl | h0
        · rw [Nat.zero_add, pow_one] at hn
          omega
        · exact h0
      have ih := ih hpos (Nat.div_lt_of_lt_mul (by rwa [pow_succ, Nat.mul_comm] at hn))
      rw [Nat.toDigits_of_base_le hb (by omega), List.length_append, List.length_singleton,
        Nat.add_sub_add_right, ← List.append_assoc, ih]

end Digits
