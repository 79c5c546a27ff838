import TonWallet.Encoding.Decimal
import Mathlib.Tactic.FieldSimp

/-!
# Signed decimals

An amount that is sent is shown with its sign, a balance without. Either text is
a decimal numeral, and it stands for the amount as it is, not for a rounded one.

* `Numeral.value_eq`: a text is a numeral of one value.
* `formatCurrency_exact`: an amount is written with its value, with one to nine
  digits after the point and no superfluous zero, and no other amount is written
  as the same signed text.
-/

namespace TonWallet.Encoding

open Digits
open Nat (toDigits ofDigitChars)

/-! ## Numerals -/

/-- A decimal, with a minus sign or without. -/
structure Numeral where
  negative : Bool
  magnitude : Decimal

namespace Numeral

/-- The text of a numeral. -/
def text (n : Numeral) : Text :=
  if n.negative then 0x2D :: n.magnitude.text else n.magnitude.text

/-- The number a numeral stands for. -/
def value (n : Numeral) : ℚ := if n.negative then -n.magnitude.value else n.magnitude.value

end Numeral

theorem ascii_injOn {cs ds : List Char} (hc : ∀ c ∈ cs, c.isDigit) (hd : ∀ c ∈ ds, c.isDigit)
    (h : ascii cs = ascii ds) : cs = ds := by
  have hread : ∀ {es : List Char}, (∀ c ∈ es, c.isDigit) →
      (ascii es).map (fun u => Char.ofNat u.toNat) = es := by
    intro es hes
    rw [ascii, List.map_map]
    conv_rhs => rw [← List.map_id es]
    refine List.map_congr_left fun c hc => ?_
    rw [Function.comp_apply, toNat_digit (hes c hc), Char.ofNat_toNat, id_eq]
  rw [← hread hc, h, hread hd]

namespace Decimal

/-- The part before the point. -/
theorem takeWhile_text (d : Decimal) : d.text.takeWhile (· ≠ 0x2E) = ascii d.whole := by
  have hwhole : ∀ c ∈ ascii d.whole, decide (c ≠ 0x2E) = true := fun c hc =>
    decide_eq_true fun he => point_not_mem_ascii d.whole_digits (he ▸ hc)
  rw [text, List.takeWhile_append_of_pos hwhole]
  cases d.frac <;> simp

/-- The point and the part after it. -/
theorem dropWhile_text (d : Decimal) :
    d.text.dropWhile (· ≠ 0x2E) = (d.frac.map fun ds => 0x2E :: ascii ds).getD [] := by
  have hwhole : ∀ c ∈ ascii d.whole, decide (c ≠ 0x2E) = true := fun c hc =>
    decide_eq_true fun he => point_not_mem_ascii d.whole_digits (he ▸ hc)
  rw [text, List.dropWhile_append_of_pos hwhole]
  cases d.frac <;> simp

/-- Decimals of one text have the same digits. -/
theorem value_eq {d e : Decimal} (h : d.text = e.text) : d.value = e.value := by
  have hwhole : d.whole = e.whole := ascii_injOn d.whole_digits e.whole_digits
    (by rw [← takeWhile_text, h, takeWhile_text])
  have hfrac : d.decimals = e.decimals := by
    have hdrop := d.dropWhile_text.symm.trans ((congrArg _ h).trans e.dropWhile_text)
    have hd := d.decimals_digits
    have he := e.decimals_digits
    unfold decimals at *
    cases hdf : d.frac <;> cases hef : e.frac <;> simp_all
    exact ascii_injOn hd he hdrop
  rw [value, value, hwhole, hfrac]

/-- No decimal begins with a minus sign. -/
theorem text_ne_minus (d : Decimal) (s : Text) : d.text ≠ 0x2D :: s := by
  intro h
  have hhead := congrArg (List.takeWhile (· ≠ 0x2E)) h
  rw [takeWhile_text, List.takeWhile_cons_of_pos (by decide)] at hhead
  exact not_mem_ascii d.whole_digits rfl (hhead ▸ List.mem_cons_self)

end Decimal

/-- Numerals of one text have one value. -/
theorem Numeral.value_eq {n m : Numeral} (h : n.text = m.text) : n.value = m.value := by
  obtain ⟨ns, d⟩ := n
  obtain ⟨ms, e⟩ := m
  cases ns <;> cases ms
  · exact Decimal.value_eq h
  · exact absurd h (Decimal.text_ne_minus d _)
  · exact absurd h.symm (Decimal.text_ne_minus e _)
  · exact congrArg Neg.neg (Decimal.value_eq (List.cons.inj h).2)

/-! ## What is written -/

/-- The number with a whole part and at most nine digits after the point. -/
theorem value_nine {whole frac : ℕ} {ds : List Char} {x : ℤ} (hlen : ds.length ≤ 9)
    (hfrac : ofDigitChars 10 ds 0 * 10 ^ (9 - ds.length) = frac)
    (hx : x.natAbs = whole * 10 ^ 9 + frac) :
    (whole : ℚ) + (ofDigitChars 10 ds 0 : ℕ) / 10 ^ ds.length = |(x : ℚ)| / 10 ^ 9 := by
  have hpow : (10 : ℚ) ^ 9 = 10 ^ (9 - ds.length) * 10 ^ ds.length := by
    rw [← pow_add, Nat.sub_add_cancel hlen]
  have habs : |(x : ℚ)| = whole * 10 ^ 9
      + (ofDigitChars 10 ds 0 : ℕ) * 10 ^ (9 - ds.length) := by
    rw [← Int.cast_abs, Int.abs_eq_natAbs, Int.cast_natCast, hx, ← hfrac]
    push_cast
    ring
  rw [habs, hpow]
  field_simp

/-- An amount is written as a numeral of its value, or of its absolute value. -/
theorem formatCurrency_numeral (x : ℤ) (withSign : Bool) :
    ∃ n : Numeral, n.text = formatCurrency x withSign ∧
      n.value = (if withSign then (x : ℚ) else |(x : ℚ)|) / 10 ^ 9 := by
  rcases eq_or_ne x 0 with rfl | hx
  · refine ⟨⟨false, ['0'], none, List.cons_ne_nil _ _, List.forall_mem_singleton.mpr rfl,
      fun _ h => absurd h (Option.not_mem_none _)⟩, rfl, ?_⟩
    have hzero : ofDigitChars 10 ['0'] 0 = 0 := rfl
    simp [Numeral.value, Decimal.value, Decimal.decimals, hzero]
  obtain ⟨frac, hf, -, hlen, -, hval, he⟩ := formatCurrency_spec hx withSign
  let d : Decimal := ⟨toDigits 10 (x.tdiv 1000000000).natAbs, some frac, Nat.toDigits_ne_nil,
    fun c hc => Nat.isDigit_of_mem_toDigits (by decide) (by decide) hc,
    fun ds hds => Option.some.inj hds ▸ hf⟩
  have hdtext : d.text = ascii (toDigits 10 (x.tdiv 1000000000).natAbs) ++ 0x2E :: ascii frac := rfl
  have hnat : x.natAbs = (x.tdiv 1000000000).natAbs * 10 ^ 9 + (x.tmod 1000000000).natAbs := by
    rw [Int.natAbs_tdiv, Int.natAbs_tmod]
    exact (Nat.div_add_mod' _ _).symm
  have hdvalue : d.value = |(x : ℚ)| / 10 ^ 9 := by
    have hwhole : ofDigitChars 10 d.whole 0 = (x.tdiv 1000000000).natAbs :=
      Nat.ofDigitChars_ten_toDigits
    rw [Decimal.value, hwhole]
    exact value_nine hlen hval hnat
  rw [← hdtext] at he
  by_cases hneg : x < 0 ∧ withSign
  · refine ⟨⟨true, d⟩, ?_, ?_⟩
    · rw [he, signOf, if_pos hneg]
      rfl
    · have habs : |(x : ℚ)| = -x := abs_of_neg (Int.cast_lt_zero.mpr hneg.1)
      rw [if_pos hneg.2]
      show -d.value = _
      rw [hdvalue, habs, neg_div, neg_neg]
  · refine ⟨⟨false, d⟩, ?_, ?_⟩
    · rw [he, signOf, if_neg hneg]
      rfl
    · show d.value = _
      rw [hdvalue]
      split
      · rename_i hsign
        rw [abs_of_nonneg (Int.cast_nonneg (not_lt.mp fun h => hneg ⟨h, hsign⟩))]
      · rfl

/-- What stands after the first point. -/
def fraction (s : Text) : Text := (s.dropWhile (· ≠ 0x2E)).drop 1

/-- One point, one to nine digits after it, and a zero at the end only if it is alone. -/
structure NoExcess (s : Text) : Prop where
  point : s.count 0x2E = 1
  fraction_pos : 1 ≤ (fraction s).length
  fraction_le : (fraction s).length ≤ 9
  last : (fraction s).getLast? = some 0x30 → (fraction s).length = 1

theorem formatCurrency_noExcess {x : ℤ} (hx : x ≠ 0) (withSign : Bool) :
    NoExcess (formatCurrency x withSign) := by
  obtain ⟨frac, hf, hne, hlen, hlast, -, he⟩ := formatCurrency_spec hx withSign
  have hwhole : ∀ c ∈ toDigits 10 (x.tdiv 1000000000).natAbs, c.isDigit :=
    fun c hc => Nat.isDigit_of_mem_toDigits (by decide) (by decide) hc
  set start := ascii (signOf x withSign) ++ ascii (toDigits 10 (x.tdiv 1000000000).natAbs)
    with hstart
  have hdot : (0x2E : Char16) ∉ start := by
    rw [hstart, List.mem_append]
    rintro (h | h)
    · revert h
      rw [signOf]
      split <;> decide
    · exact point_not_mem_ascii hwhole h
  have htext : formatCurrency x withSign = start ++ 0x2E :: ascii frac := by
    rw [he, hstart, List.append_assoc]
  have hfrac : fraction (formatCurrency x withSign) = ascii frac := by
    have hstart : ∀ c ∈ start, decide (c ≠ 0x2E) = true := fun c hc =>
      decide_eq_true fun h => hdot (h ▸ hc)
    rw [fraction, htext, List.dropWhile_append_of_pos hstart]
    rfl
  have hpos : 1 ≤ (fraction (formatCurrency x withSign)).length := by
    rw [hfrac, length_ascii]
    exact List.length_pos_iff.mpr hne
  refine ⟨?_, hpos, ?_, ?_⟩
  · rw [htext, List.count_append, List.count_cons_self, List.count_eq_zero_of_not_mem hdot,
      List.count_eq_zero_of_not_mem (point_not_mem_ascii hf)]
  · rw [hfrac, length_ascii]
    exact hlen
  · rw [hfrac, length_ascii]
    intro h
    obtain ⟨c, hc, hzero⟩ := Option.map_eq_some_iff.mp
      ((List.getLast?_map (f := fun c : Char => BitVec.ofNat 16 c.toNat)).symm.trans h)
    have hunit := congrArg BitVec.toNat hzero
    rw [toNat_digit (hf c (List.mem_of_getLast? hc))] at hunit
    have hchar : c = '0' := Char.toNat_inj.mp hunit
    exact hlast (hchar ▸ hc)

/-- **Amounts are written exactly.** -/
theorem formatCurrency_exact (x : BitVec 64) :
    (∃ n : Numeral, n.text = formatCurrency x.toInt true ∧ n.value = (x.toInt : ℚ) / 10 ^ 9) ∧
    (∃ n : Numeral, n.text = formatCurrency x.toInt ∧ n.value = |(x.toInt : ℚ)| / 10 ^ 9) ∧
    (x ≠ 0 → ∀ withSign, NoExcess (formatCurrency x.toInt withSign)) ∧
    ∀ y : BitVec 64, formatCurrency x.toInt true = formatCurrency y.toInt true ↔ x = y := by
  have hzero : x ≠ 0 → x.toInt ≠ 0 := fun hx h => hx (BitVec.toInt_inj.mp h)
  refine ⟨formatCurrency_numeral x.toInt true, formatCurrency_numeral x.toInt false,
    fun hx => formatCurrency_noExcess (hzero hx), fun y => ⟨fun h => ?_, fun h => h ▸ rfl⟩⟩
  obtain ⟨n, hn, hx⟩ := formatCurrency_numeral x.toInt true
  obtain ⟨m, hm, hy⟩ := formatCurrency_numeral y.toInt true
  have hvalue := Numeral.value_eq (hn.trans (h.trans hm.symm))
  rw [hx, hy, if_pos rfl, if_pos rfl, div_left_inj' (by positivity)] at hvalue
  exact BitVec.toInt_inj.mp (Int.cast_injective hvalue)

example : formatCurrency (-(2 : ℤ) ^ 63) true = text "-9223372036.854775808" := by decide +kernel

end TonWallet.Encoding
