import TonWallet.Encoding.Currency
import Mathlib.Data.Rat.Floor

/-!
# Decimals

The texts that amounts are entered as: digits, with a point and more digits or
without. Their value is rational; an amount is the number of whole nanograms.

* `toTonLong_floor_iff`: exactly the decimals whose whole part has at most nine
  digits, or nothing but zeros, are read with their value.
* `balance_kept_iff`: exactly the balances below 10^18 nanograms are read as they
  are written.
* `formatCurrency_canonical`, `Decimal.isDouble_text`: a balance is written as a
  decimal without superfluous zeros, and a decimal is the text of a `Double`.
-/

namespace TonWallet.Encoding

open Digits
open Nat (toDigits ofDigitChars)

/-- Digits, with a point and more digits or without. -/
structure Decimal where
  whole : List Char
  frac : Option (List Char)
  whole_ne : whole ≠ []
  whole_digits : ∀ c ∈ whole, c.isDigit
  frac_digits : ∀ ds ∈ frac, ∀ c ∈ ds, c.isDigit

namespace Decimal

variable (d : Decimal)

/-- The digits after the point. -/
def decimals : List Char := d.frac.getD []

/-- The text of a decimal. -/
def text : Text := ascii d.whole ++ (d.frac.map fun ds => 0x2E :: ascii ds).getD []

/-- The number a decimal stands for. -/
def value : ℚ :=
  (ofDigitChars 10 d.whole 0 : ℕ) + (ofDigitChars 10 d.decimals 0 : ℕ) / 10 ^ d.decimals.length

variable {d} in
theorem text_of_none (h : d.frac = none) : d.text = ascii d.whole := by
  rw [text, h, Option.map_none, Option.getD_none, List.append_nil]

variable {d} in
theorem text_of_some {ds : List Char} (h : d.frac = some ds) :
    d.text = ascii d.whole ++ 0x2E :: ascii ds := by
  rw [text, h, Option.map_some, Option.getD_some]

theorem decimals_digits : ∀ c ∈ d.decimals, c.isDigit := by
  cases h : d.frac with
  | none => simp [decimals, h]
  | some ds => simpa [decimals, h] using d.frac_digits ds h

/-! ## The value -/

/-- The first nine digits after the point are the whole nanograms. -/
theorem nanograms_eq {ds : List Char} (h : ∀ c ∈ ds, c.isDigit) :
    ofDigitChars 10 ds 0 * 10 ^ 9 / 10 ^ ds.length
      = ofDigitChars 10 (ds.take 9) 0 * 10 ^ (9 - (ds.take 9).length) := by
  rw [List.length_take, ← ofDigitChars_take h]
  by_cases hlen : ds.length ≤ 9
  · have hpow : (10 : ℕ) ^ 9 = 10 ^ (9 - ds.length) * 10 ^ ds.length := by
      rw [← Nat.pow_add, Nat.sub_add_cancel hlen]
    rw [hpow, ← Nat.mul_assoc, Nat.mul_div_cancel _ (Nat.pow_pos (by decide)),
      Nat.min_eq_right hlen, Nat.sub_eq_zero_of_le hlen, Nat.pow_zero, Nat.div_one]
  · have hpow : (10 : ℕ) ^ ds.length = 10 ^ (ds.length - 9) * 10 ^ 9 := by
      rw [← Nat.pow_add, Nat.sub_add_cancel (by omega)]
    rw [hpow, Nat.mul_div_mul_right _ _ (by decide), Nat.min_eq_left (by omega), Nat.sub_self,
      Nat.pow_zero, Nat.mul_one]

/-- The whole nanograms of a decimal. -/
theorem floor_value : ⌊d.value * 10 ^ 9⌋
    = ((ofDigitChars 10 d.whole 0 * 10 ^ 9
        + ofDigitChars 10 (d.decimals.take 9) 0 * 10 ^ (9 - (d.decimals.take 9).length) : ℕ)
      : ℤ) := by
  have hvalue : d.value * 10 ^ 9 = ((ofDigitChars 10 d.whole 0 * 10 ^ 9 : ℕ) : ℤ)
      + ((ofDigitChars 10 d.decimals 0 * 10 ^ 9 : ℕ) : ℚ) / ((10 ^ d.decimals.length : ℕ) : ℚ) := by
    rw [value]
    push_cast
    ring
  rw [hvalue, Int.floor_intCast_add, Rat.floor_natCast_div_natCast, ← nanograms_eq
    d.decimals_digits]
  push_cast
  rfl

/-! ## Reading -/

/-- Digits after the ninth one are not read. -/
theorem toTonLong_take {whole ds : List Char} (hw : ∀ c ∈ whole, c.isDigit) :
    toTonLong (ascii whole ++ 0x2E :: ascii ds)
      = toTonLong (ascii whole ++ 0x2E :: ascii (ds.take 9)) := by
  by_cases hlen : ds.length ≤ 9
  · rw [List.take_of_length_le hlen]
  have hdot := point_not_mem_ascii hw
  have htake : (ascii whole ++ 0x2E :: ascii ds).take ((ascii whole).length + 10)
      = ascii whole ++ 0x2E :: ascii (ds.take 9) := by
    rw [List.take_append, List.take_of_length_le (by omega), Nat.add_sub_cancel_left,
      List.take_succ_cons, ascii_take]
  have hcut : (ascii whole ++ 0x2E :: ascii ds).length - (ascii whole).length > 10 := by
    rw [List.length_append, List.length_cons, length_ascii, length_ascii]
    omega
  have hself : ¬ (ascii whole ++ 0x2E :: ascii (ds.take 9)).length - (ascii whole).length > 10 := by
    rw [List.length_append, List.length_cons, length_ascii, length_ascii, List.length_take]
    omega
  rw [toTonLong, toTonLong, idxOf?_after_prefix hdot, idxOf?_after_prefix hdot]
  simp only [if_pos hcut, if_neg hself, htake]

/-- What is read are the first nine digits of the whole part, and the whole nanograms. -/
theorem toTonLong_text : toTonLong d.text
    = ((ofDigitChars 10 (d.whole.take 9) 0 * 10 ^ 9
        + ofDigitChars 10 (d.decimals.take 9) 0 * 10 ^ (9 - (d.decimals.take 9).length) : ℕ)
      : ℤ) := by
  have hdigits : ∀ c ∈ d.decimals.take 9, c.isDigit :=
    fun c hc => d.decimals_digits c (List.mem_of_mem_take hc)
  cases h : d.frac with
  | none =>
    have hdot := point_not_mem_ascii d.whole_digits
    have hwhole : ∀ c ∈ d.whole.take 9, c.isDigit :=
      fun c hc => d.whole_digits c (List.mem_of_mem_take hc)
    have hread := parseLong_ascii hwhole (List.length_take_le ..)
    rw [text_of_none h, toTonLong, List.idxOf?_eq_none_iff.mpr hdot, ← ascii_take]
    simp [hread, decimals, h]
  | some ds =>
    have hds : d.decimals = ds := by rw [decimals, h, Option.getD_some]
    rw [hds] at hdigits
    rw [text_of_some h, toTonLong_take d.whole_digits, toTonLong_ascii d.whole_digits hdigits
      (List.length_take_le ..), hds]
    rfl

end Decimal

/-- **Parsing.** A decimal is read with its value exactly if its whole part has at most nine digits
or nothing but zeros. -/
theorem toTonLong_floor_iff (d : Decimal) :
    toTonLong d.text = ⌊d.value * 10 ^ 9⌋ ↔ d.whole.length ≤ 9 ∨ ∀ c ∈ d.whole, c = '0' := by
  rw [← ofDigitChars_take_iff d.whole_digits 9, d.toTonLong_text, d.floor_value]
  omega

/-- 1234567890 TON, entered without a point. -/
def tenDigits : Decimal where
  whole := ['1', '2', '3', '4', '5', '6', '7', '8', '9', '0']
  frac := none
  whole_ne := List.cons_ne_nil _ _
  whole_digits := List.all_eq_true.mp rfl
  frac_digits _ h := absurd h (Option.not_mem_none _)

/-- A tenth digit of the whole part is cut off. -/
theorem tenth_digit_cut :
    ¬ ∀ d : Decimal, ⌊d.value * 10 ^ 9⌋ ≤ longMax → toTonLong d.text = ⌊d.value * 10 ^ 9⌋ := by
  intro h
  have hcut := h tenDigits (by rw [Decimal.floor_value]; decide)
  rw [Decimal.floor_value] at hcut
  revert hcut
  decide

/-- **Format, then parse.** A balance is read as it is written exactly if it is below
10^18 nanograms. -/
theorem balance_kept_iff (x : BitVec 64) (h : 0 ≤ x.toInt) :
    toTonLong (formatCurrency x.toInt) = x.toInt ↔ x.toInt < 10 ^ 18 := by
  rw [toTonLong_formatCurrency_iff]
  exact and_iff_right h

theorem balance_kept_fifty :
    toTonLong (formatCurrency (50000000000 : BitVec 64).toInt) = (50000000000 : BitVec 64).toInt ↔
      (50000000000 : BitVec 64).toInt < 10 ^ 18 :=
  balance_kept_iff 50000000000 (by decide)

/-- A balance of 10^9 TON is read as a tenth of it. -/
theorem billion_not_kept :
    ¬ ∀ x : BitVec 64, 0 ≤ x.toInt → toTonLong (formatCurrency x.toInt) = x.toInt := by
  intro h
  have hbillion := h 1000000000000000000 (by decide)
  revert hbillion
  decide

/-! ## What is written -/

/-- No superfluous zero begins the whole part. -/
def Decimal.Canonical (d : Decimal) : Prop := d.whole = ['0'] ∨ d.whole.head? ≠ some '0'

/-- A balance is written as a decimal without superfluous zeros. -/
theorem formatCurrency_canonical (x : ℤ) :
    ∃ d : Decimal, d.Canonical ∧ d.text = formatCurrency x := by
  rcases eq_or_ne x 0 with rfl | hx
  · exact ⟨⟨['0'], none, List.cons_ne_nil _ _, List.forall_mem_singleton.mpr rfl,
      fun _ h => absurd h (Option.not_mem_none _)⟩, .inl rfl, rfl⟩
  obtain ⟨frac, hf, -, -, he⟩ := formatCurrency_eq hx
  refine ⟨⟨toDigits 10 (x.tdiv 1000000000).natAbs, some frac, Nat.toDigits_ne_nil,
    fun c hc => Nat.isDigit_of_mem_toDigits (by decide) (by decide) hc,
    fun ds hds => Option.some.inj hds ▸ hf⟩, ?_, he.symm⟩
  rcases Nat.eq_zero_or_pos (x.tdiv 1000000000).natAbs with hz | hpos
  · exact .inl ((congrArg (toDigits 10) hz).trans (Nat.toDigits_zero 10))
  · exact .inr (head_toDigits hpos)

/-! ## Doubles -/

/-- `String.trim()` of Java. -/
def javaTrim (s : Text) : Text :=
  ((s.dropWhile fun c => c.toNat ≤ 0x20).reverse.dropWhile fun c => c.toNat ≤ 0x20).reverse

def dropSign (s : Text) : Text := if s.head? = some 0x2B ∨ s.head? = some 0x2D then s.drop 1 else s

/-- An exponent, which begins with one of `marks`, and the suffix of a type. -/
def isExponent (marks : Text) (needed : Bool) (s : Text) : Bool :=
  let isSuffix (t : Text) : Bool := t ∈ [[], text "f", text "F", text "d", text "D"]
  match s with
  | c :: r =>
    if c ∈ marks then
      let digits := (dropSign r).takeWhile isDigitUnit
      digits ≠ [] && isSuffix ((dropSign r).drop digits.length)
    else !needed && isSuffix s
  | [] => !needed

/-- Digits with a point among them or without, and an exponent. -/
def isNumeral (isDigit : Char16 → Bool) (marks : Text) (needed : Bool) (s : Text) : Bool :=
  match s.dropWhile isDigit with
  | 0x2E :: r =>
    (s.takeWhile isDigit ++ r.takeWhile isDigit ≠ []) &&
      isExponent marks needed (r.dropWhile isDigit)
  | r => s.takeWhile isDigit ≠ [] && isExponent marks needed r

/-- `String.toDouble()` does not throw: the texts that `Double.parseDouble` documents. -/
def isDouble (s : Text) : Bool :=
  let s := dropSign (javaTrim s)
  s = text "NaN" || s = text "Infinity" || isNumeral isDigitUnit (text "eE") false s ||
    (s.take 2 = text "0x" || s.take 2 = text "0X") &&
      isNumeral isHexDigitUnit (text "pP") true (s.drop 2)

example : isDouble (text " -1.5e-3f ") ∧ isDouble (text "0x.8p1") ∧ ¬ isDouble (text "1.5.") := by
  decide

/-- A text of digits, with a point and more digits or without. -/
theorem isNumeral_digits {whole : List Char} (hne : whole ≠ []) (hw : ∀ c ∈ whole, c.isDigit)
    {rest : Text} (hrest : rest = [] ∨ ∃ ds : List Char, (∀ c ∈ ds, c.isDigit) ∧
      rest = 0x2E :: ascii ds) (marks : Text) :
    isNumeral isDigitUnit marks false (ascii whole ++ rest) = true := by
  have hunits := isDigitUnit_ascii hw
  have hwhole : ascii whole ≠ [] := by simpa [ascii] using hne
  have htake : (ascii whole ++ rest).takeWhile isDigitUnit = ascii whole := by
    rw [List.takeWhile_append_of_pos hunits]
    rcases hrest with rfl | ⟨ds, -, rfl⟩
    · exact List.append_nil _
    · rw [List.takeWhile_cons_of_neg (by decide), List.append_nil]
  have hdrop : (ascii whole ++ rest).dropWhile isDigitUnit = rest := by
    rw [List.dropWhile_append_of_pos hunits]
    rcases hrest with rfl | ⟨ds, -, rfl⟩
    · rfl
    · rw [List.dropWhile_cons_of_neg (by decide)]
  rw [isNumeral, htake, hdrop]
  rcases hrest with rfl | ⟨ds, hds, rfl⟩
  · simp [hwhole, isExponent]
  · have hend : (ascii ds).dropWhile isDigitUnit = [] :=
      List.dropWhile_eq_nil_iff.mpr (isDigitUnit_ascii hds)
    simp [hwhole, hend, isExponent]

theorem javaTrim_of_forall {s : Text} (h : ∀ c ∈ s, 0x20 < c.toNat) : javaTrim s = s := by
  have hself : ∀ t : Text, (∀ c ∈ t, 0x20 < c.toNat) →
      (t.dropWhile fun c => c.toNat ≤ 0x20) = t := by
    intro t ht
    refine List.dropWhile_eq_self_iff.mpr fun hl => ?_
    have := ht _ (List.getElem_mem hl)
    simpa using this
  rw [javaTrim, hself s h, hself _ fun c hc => h c (List.mem_reverse.mp hc), List.reverse_reverse]

/-- Every decimal is the text of a `Double`. -/
theorem Decimal.isDouble_text (d : Decimal) : isDouble d.text = true := by
  obtain ⟨rest, hrest, htext⟩ : ∃ rest : Text, (rest = [] ∨ ∃ ds : List Char,
      (∀ c ∈ ds, c.isDigit) ∧ rest = 0x2E :: ascii ds) ∧ d.text = ascii d.whole ++ rest := by
    cases h : d.frac with
    | none => exact ⟨[], .inl rfl, by rw [text_of_none h, List.append_nil]⟩
    | some ds => exact ⟨_, .inr ⟨ds, d.frac_digits ds h, rfl⟩, text_of_some h⟩
  have hdigit : ∀ c, isDigitUnit c = true → 0x30 ≤ c.toNat ∧ c.toNat ≤ 0x39 := by
    intro c hc
    simpa [isDigitUnit] using hc
  have hunits := isDigitUnit_ascii d.whole_digits
  have htrim : javaTrim d.text = d.text := by
    refine javaTrim_of_forall fun c hc => ?_
    rw [htext] at hc
    rcases List.mem_append.mp hc with hc | hc
    · have := hdigit c (hunits c hc)
      omega
    · rcases hrest with rfl | ⟨ds, hds, rfl⟩
      · cases hc
      · rcases List.mem_cons.mp hc with rfl | hc
        · decide
        · have := hdigit c (isDigitUnit_ascii hds c hc)
          omega
  have hsign : dropSign d.text = d.text := by
    obtain ⟨c, cs, hc⟩ := List.exists_cons_of_ne_nil d.whole_ne
    have hhead : d.text.head? = some (BitVec.ofNat 16 c.toNat) := by rw [htext, hc]; rfl
    have hb := hdigit _ (hunits (BitVec.ofNat 16 c.toNat) (by simp [hc, ascii]))
    rw [dropSign, hhead, if_neg]
    rintro (h | h) <;> rw [Option.some.inj h] at hb <;> revert hb <;> decide
  have hnumeral := isNumeral_digits d.whole_ne d.whole_digits hrest (TonWallet.Encoding.text "eE")
  rw [isDouble, htrim, hsign, htext, hnumeral]
  simp

end TonWallet.Encoding
