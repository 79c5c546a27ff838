import TonWallet.Encoding.Text
import TonWallet.Lib.Digits
import Mathlib.Data.List.TakeWhile
import Mathlib.Tactic.Ring

/-!
# Amounts of TON

Amounts are `Long`s, counted in nanograms. `formatCurrency` writes one with a
decimal point and without trailing zeros; it drops the sign unless asked to
keep it. `toTonLong` reads such a string back, and cuts an integer part of more
than nine digits off.

* `toTonLong_formatCurrency_iff`: exactly the amounts from 0 to 10^18 nanograms
  are read back.
-/

namespace TonWallet.Encoding

open Digits
open Nat (toDigits ofDigitChars)

/-! ## Writing -/

/-- A string of ASCII characters. -/
def ascii (cs : List Char) : Text := cs.map fun c => BitVec.ofNat 16 c.toNat

theorem length_ascii (cs : List Char) : (ascii cs).length = cs.length := List.length_map ..

theorem ascii_take (cs : List Char) (n : ℕ) : ascii (cs.take n) = (ascii cs).take n :=
  List.map_take ..

theorem ascii_append (cs ds : List Char) : ascii (cs ++ ds) = ascii cs ++ ascii ds :=
  List.map_append

theorem dropLast_ascii (cs : List Char) : (ascii cs).dropLast = ascii cs.dropLast := by
  rw [ascii, ascii, List.map_dropLast]

/-- `%09d`. -/
def pad9 (n : ℕ) : List Char := List.replicate (9 - (toDigits 10 n).length) '0' ++ toDigits 10 n

/-- The loop of `formatCurrency` (`BalanceUtils.kt` lines 27–29), on the reversed builder:
delete a last `0` that does not stand right after the point. -/
def dropZeros : List Char → List Char
  | c :: d :: s => if c = '0' ∧ d ≠ '.' then dropZeros (d :: s) else c :: d :: s
  | s => s

/-- `Long.formatCurrency(withSign)` (`BalanceUtils.kt` lines 8–31). -/
def formatCurrency (x : ℤ) (withSign : Bool := false) : Text :=
  if x = 0 then text "0"
  else
    let sign := if x < 0 ∧ withSign then ['-'] else []
    let builder := sign ++ toDigits 10 (x.tdiv 1000000000).natAbs ++ '.'
      :: pad9 (x.tmod 1000000000).natAbs
    ascii (dropZeros builder.reverse).reverse

/-! ## Reading -/

/-- The character class of `Utilities.pattern`. -/
def inPattern (c : Char16) : Bool := c = 0x2D ∨ 0x30 ≤ c.toNat ∧ c.toNat ≤ 0x39

/-- `Utilities.parseLong`: the first run of digits and minus signs, 0 if it is
no number (`Utilities.java` lines 74–89). -/
def parseLong (value : Text) : ℤ :=
  (toLong ((value.dropWhile fun c => !inPattern c).takeWhile inPattern)).getD 0

/-- `String.toTonLong()` (`BalanceUtils.kt` lines 39–61). The factor
`Math.pow(10.0, 9 - end.length)` and the product are whole numbers of at most
nine digits, which a `Double` holds exactly. -/
def toTonLong (s : Text) : ℤ :=
  match s.idxOf? 0x2E with
  | some index =>
    let builder := if s.length - index > 10 then s.take (index + 10) else s
    let (builder, index) :=
      if index > 9 then (builder.take 9 ++ builder.drop index, 9) else (builder, index)
    let start := builder.take index
    let end' := builder.drop (index + 1)
    parseLong start * 1000000000 + parseLong end' * 10 ^ (9 - end'.length)
  | none => parseLong (s.take 9) * 1000000000

/-! ## Strings of digits -/

theorem digit_ascii {c : Char} (h : c.isDigit) :
    digit 10 (BitVec.ofNat 16 c.toNat) = some (c.toNat - '0'.toNat) := by
  have key : ∀ n < 58, 48 ≤ n → digit 10 (BitVec.ofNat 16 n) = some (n - '0'.toNat) := by decide
  obtain ⟨hlo, hhi⟩ := isDigit_bounds h
  exact key c.toNat (by omega) hlo

/-- A digit is its own code unit. -/
theorem toNat_digit {c : Char} (h : c.isDigit) : (BitVec.ofNat 16 c.toNat).toNat = c.toNat := by
  have hb := isDigit_bounds h
  rw [BitVec.toNat_ofNat, Nat.mod_eq_of_lt (by omega)]

theorem isDigitUnit_ascii {cs : List Char} (h : ∀ c ∈ cs, c.isDigit) :
    ∀ c ∈ ascii cs, isDigitUnit c = true := by
  intro c hc
  obtain ⟨d, hd, rfl⟩ := List.mem_map.mp hc
  rw [isDigitUnit, decide_eq_true_eq, toNat_digit (h d hd)]
  exact isDigit_bounds (h d hd)

/-- What is no digit does not stand among digits. -/
theorem not_mem_ascii {cs : List Char} (h : ∀ c ∈ cs, c.isDigit) {u : Char16}
    (hu : isDigitUnit u = false) : u ∉ ascii cs :=
  fun hmem => Bool.false_ne_true (hu.symm.trans (isDigitUnit_ascii h u hmem))

theorem point_not_mem_ascii {cs : List Char} (h : ∀ c ∈ cs, c.isDigit) :
    (0x2E : Char16) ∉ ascii cs := not_mem_ascii h rfl

theorem inPattern_of_isDigitUnit {u : Char16} (h : isDigitUnit u = true) : inPattern u := by
  rw [isDigitUnit, decide_eq_true_eq] at h
  exact decide_eq_true (.inr h)

theorem digits_ascii {cs : List Char} (h : ∀ c ∈ cs, c.isDigit) (acc : ℕ) :
    digits 10 acc (ascii cs) = some (ofDigitChars 10 cs acc) := by
  induction cs generalizing acc with
  | nil => rfl
  | cons c cs ih =>
    have hc := digit_ascii (h c (by simp))
    have hcons : ascii (c :: cs) = BitVec.ofNat 16 c.toNat :: ascii cs := rfl
    rw [hcons, digits, hc, Option.bind_some, ih (fun d hd => h d (by simp [hd])),
      Nat.ofDigitChars_cons, Nat.mul_comm]

/-- A string of at most nine digits is read as the number it spells. -/
theorem parseLong_ascii {cs : List Char} (h : ∀ c ∈ cs, c.isDigit) (hlen : cs.length ≤ 9) :
    parseLong (ascii cs) = (ofDigitChars 10 cs 0 : ℤ) := by
  have hpat : ∀ c ∈ ascii cs, inPattern c :=
    fun c hc => inPattern_of_isDigitUnit (isDigitUnit_ascii h c hc)
  have hrun : ((ascii cs).dropWhile fun c => !inPattern c).takeWhile inPattern = ascii cs := by
    rw [List.dropWhile_eq_self_iff.mpr (by intro hl; simp [hpat _ (List.getElem_mem hl)]),
      List.takeWhile_eq_self_iff.mpr hpat]
  rw [parseLong, hrun]
  cases cs with
  | nil => rfl
  | cons c cs =>
    have hlt := ofDigitChars_lt h 0
    have : 10 ^ (c :: cs).length ≤ 10 ^ 9 := Nat.pow_le_pow_right (by omega) hlen
    rw [toLong, parse_of_digits (by simp [ascii]) (digits_ascii h 0) (by decide) (by decide)
      (by rw [longMax]; omega)]
    rfl

theorem ofDigitChars_pad9 (n : ℕ) : ofDigitChars 10 (pad9 n) 0 = n := by
  rw [pad9, Nat.ofDigitChars_append, Nat.ofDigitChars_replicate_zero, Nat.mul_zero,
    Nat.ofDigitChars_ten_toDigits]

theorem length_pad9 {n : ℕ} (h : n < 10 ^ 9) : (pad9 n).length = 9 := by
  have := (Nat.length_toDigits_le_iff (b := 10) (by decide) (by decide : 0 < 9)).mpr h
  simp only [pad9, List.length_append, List.length_replicate]
  omega

theorem isDigit_pad9 (n : ℕ) : ∀ c ∈ pad9 n, c.isDigit := by
  intro c hc
  rcases List.mem_append.mp hc with hc | hc
  · rw [List.eq_of_mem_replicate hc]; rfl
  · exact Nat.isDigit_of_mem_toDigits (by decide) (by decide) hc

/-! ## Reading back -/

/-- The loop stops at a digit that stands right after the point, or at one other than zero. -/
theorem dropZeros_spec (r t : List Char) (hr : r ≠ []) (hdot : '.' ∉ r) :
    ∃ k r', r = List.replicate k '0' ++ r' ∧ r' ≠ [] ∧ (r'.head? = some '0' → r'.length = 1) ∧
      dropZeros (r ++ '.' :: t) = r' ++ '.' :: t := by
  induction r with
  | nil => exact absurd rfl hr
  | cons c r ih =>
    cases r with
    | nil => exact ⟨0, [c], rfl, by simp, fun _ => rfl, by simp [dropZeros]⟩
    | cons d r =>
      by_cases hc : c = '0'
      · have hd : d ≠ '.' := by rintro rfl; simp at hdot
        obtain ⟨k, r', hk, hr', hlast, he⟩ :=
          ih (by simp) (fun h => hdot (List.mem_cons_of_mem _ h))
        refine ⟨k + 1, r', ?_, hr', hlast, ?_⟩
        · rw [hk, hc, List.replicate_succ, List.cons_append]
        · rw [List.cons_append, List.cons_append, dropZeros, if_pos ⟨hc, hd⟩]
          exact he
      · refine ⟨0, c :: d :: r, rfl, by simp, fun h => absurd (Option.some.inj h) hc, ?_⟩
        rw [List.cons_append, List.cons_append, dropZeros, if_neg (by simp [hc])]

/-- The sign that is written before an amount. -/
def signOf (x : ℤ) (withSign : Bool) : List Char := if x < 0 ∧ withSign then ['-'] else []

/-- What `formatCurrency` writes after the sign: the whole TONs, the point and the nanograms
without trailing zeros. -/
theorem formatCurrency_spec {x : ℤ} (hx : x ≠ 0) (withSign : Bool) :
    ∃ frac : List Char, (∀ c ∈ frac, c.isDigit) ∧ frac ≠ [] ∧ frac.length ≤ 9 ∧
      (frac.getLast? = some '0' → frac.length = 1) ∧
      ofDigitChars 10 frac 0 * 10 ^ (9 - frac.length) = (x.tmod 1000000000).natAbs ∧
      formatCurrency x withSign = ascii (signOf x withSign)
        ++ (ascii (toDigits 10 (x.tdiv 1000000000).natAbs) ++ 0x2E :: ascii frac) := by
  set n := (x.tmod 1000000000).natAbs with hn
  have hlt : n < 10 ^ 9 := by rw [hn, Int.natAbs_tmod]; exact Nat.mod_lt _ (by decide)
  have hlen := length_pad9 hlt
  have hdig := isDigit_pad9 n
  have hdot : '.' ∉ (pad9 n).reverse := fun h => by simpa using hdig '.' (by simpa using h)
  have hne : (pad9 n).reverse ≠ [] := by intro h; simp [List.reverse_eq_nil_iff.mp h] at hlen
  obtain ⟨k, r, hk, hr, hlast, he⟩ := dropZeros_spec (pad9 n).reverse
    (signOf x withSign ++ toDigits 10 (x.tdiv 1000000000).natAbs).reverse hne hdot
  have hpad : pad9 n = r.reverse ++ List.replicate k '0' := by
    rw [← List.reverse_reverse (pad9 n), hk, List.reverse_append, List.reverse_replicate]
  have hlenr : r.reverse.length + k = 9 := by
    rw [← hlen, hpad, List.length_append, List.length_replicate]
  refine ⟨r.reverse, fun c hc => hdig c (by rw [hpad]; exact List.mem_append_left _ hc),
    List.reverse_eq_nil_iff.not.mpr hr, by omega, ?_, ?_, ?_⟩
  · rwa [List.getLast?_reverse, List.length_reverse]
  · have hval := ofDigitChars_pad9 n
    rw [hpad, Nat.ofDigitChars_append, Nat.ofDigitChars_replicate_zero] at hval
    rw [show 9 - r.reverse.length = k by omega, Nat.mul_comm, hval]
  · have hbuilder : (signOf x withSign ++ toDigits 10 (x.tdiv 1000000000).natAbs
        ++ '.' :: pad9 n).reverse = (pad9 n).reverse ++ '.'
          :: (signOf x withSign ++ toDigits 10 (x.tdiv 1000000000).natAbs).reverse := by
      rw [List.reverse_append, List.reverse_cons, List.append_assoc, List.singleton_append]
    rw [formatCurrency, if_neg hx]
    show ascii (dropZeros (signOf x withSign ++ _ ++ '.' :: pad9 n).reverse).reverse = _
    rw [hbuilder, he, List.reverse_append, List.reverse_cons, List.reverse_reverse,
      List.append_assoc, List.append_assoc, ascii_append, ascii_append]
    rfl

/-- Without a sign, an amount is written as the whole TONs, the point and the nanograms. -/
theorem formatCurrency_eq {x : ℤ} (hx : x ≠ 0) :
    ∃ frac : List Char, (∀ c ∈ frac, c.isDigit) ∧ frac.length ≤ 9 ∧
      ofDigitChars 10 frac 0 * 10 ^ (9 - frac.length) = (x.tmod 1000000000).natAbs ∧
      formatCurrency x = ascii (toDigits 10 (x.tdiv 1000000000).natAbs) ++ 0x2E :: ascii frac := by
  obtain ⟨frac, hf, -, hlen, -, hval, he⟩ := formatCurrency_spec hx false
  have hsign : signOf x false = [] := if_neg fun h => Bool.false_ne_true h.2
  rw [hsign] at he
  exact ⟨frac, hf, hlen, hval, he⟩

theorem idxOf?_after_prefix {pre s : Text} {c : Char16} (h : c ∉ pre) :
    (pre ++ c :: s).idxOf? c = some pre.length := by
  induction pre with
  | nil => simp [List.idxOf?_cons]
  | cons d pre ih =>
    have hd : (d == c) = false := by
      rw [beq_eq_false_iff_ne]; rintro rfl; simp at h
    rw [List.cons_append, List.idxOf?_cons, hd, ih (fun hm => h (List.mem_cons_of_mem _ hm))]
    rfl

/-- Reading digits, a point and at most nine digits: only the first nine digits
before the point count. -/
theorem toTonLong_ascii {start frac : List Char} (hs : ∀ c ∈ start, c.isDigit)
    (hf : ∀ c ∈ frac, c.isDigit) (hlen : frac.length ≤ 9) :
    toTonLong (ascii start ++ 0x2E :: ascii frac)
      = ((ofDigitChars 10 (start.take 9) 0 * 1000000000
          + ofDigitChars 10 frac 0 * 10 ^ (9 - frac.length) : ℕ) : ℤ) := by
  have hdot := point_not_mem_ascii hs
  have hsl := length_ascii start
  have hfl := length_ascii frac
  have hstart : parseLong (ascii (start.take 9)) = (ofDigitChars 10 (start.take 9) 0 : ℤ) :=
    parseLong_ascii (fun c hc => hs c (List.mem_of_mem_take hc)) (by simp)
  have hfrac := parseLong_ascii hf hlen
  rw [ascii_take] at hstart
  have hno : ¬ start.length + (frac.length + 1) - start.length > 10 := by omega
  rw [toTonLong, idxOf?_after_prefix hdot]
  by_cases h9 : start.length > 9
  · simp only [List.length_append, List.length_cons, hsl, hfl, if_neg hno, if_pos h9]
    have h1 : ((ascii start ++ 0x2E :: ascii frac).take 9) = (ascii start).take 9 :=
      List.take_append_of_le_length (by omega)
    have h2 : (ascii start ++ 0x2E :: ascii frac).drop start.length = 0x2E :: ascii frac :=
      List.drop_left' hsl
    have h3 : ((ascii start).take 9).length = 9 := by rw [List.length_take, hsl]; omega
    simp only [h1, h2]
    rw [List.take_left' h3, List.drop_append, h3, List.drop_eq_nil_of_le (by omega)]
    simp [hstart, hfrac, hfl]
  · simp only [List.length_append, List.length_cons, hsl, hfl, if_neg hno, if_neg h9]
    have h1 : (ascii start).take 9 = ascii start := List.take_of_length_le (by omega)
    rw [h1] at hstart
    rw [List.take_left' hsl, List.drop_append, hsl, List.drop_eq_nil_of_le (by omega)]
    simp [hstart, hfrac, hfl]

/-- The amounts that survive being written and read back. -/
theorem toTonLong_formatCurrency {x : ℤ} (h0 : 0 ≤ x) (h1 : x < 10 ^ 18) :
    toTonLong (formatCurrency x) = x := by
  rcases eq_or_ne x 0 with rfl | hx
  · decide
  obtain ⟨frac, hf, hlen, hval, he⟩ := formatCurrency_eq hx
  have hdiv : x.tdiv 1000000000 = x / 1000000000 := Int.tdiv_eq_ediv_of_nonneg h0
  have hmod : x.tmod 1000000000 = x % 1000000000 := Int.tmod_eq_emod_of_nonneg h0
  have hq : (x.tdiv 1000000000).natAbs < 10 ^ 9 := by omega
  have hdl := (Nat.length_toDigits_le_iff (b := 10) (by decide) (by decide : 0 < 9)).mpr hq
  rw [he, toTonLong_ascii (fun c hc => Nat.isDigit_of_mem_toDigits (by decide) (by decide) hc) hf
    hlen, List.take_of_length_le hdl, Nat.ofDigitChars_ten_toDigits, hval, hdiv, hmod]
  omega

/-- Nothing else is ever read back. -/
theorem toTonLong_formatCurrency_range (x : ℤ) :
    0 ≤ toTonLong (formatCurrency x) ∧ toTonLong (formatCurrency x) < 10 ^ 18 := by
  rcases eq_or_ne x 0 with rfl | hx
  · decide
  obtain ⟨frac, hf, hlen, hval, he⟩ := formatCurrency_eq hx
  have hd : ∀ c ∈ toDigits 10 (x.tdiv 1000000000).natAbs, c.isDigit :=
    fun c hc => Nat.isDigit_of_mem_toDigits (by decide) (by decide) hc
  have hlt := ofDigitChars_lt (fun c hc => hd c (List.mem_of_mem_take (i := 9) hc)) 0
  have hpow : 10 ^ ((toDigits 10 (x.tdiv 1000000000).natAbs).take 9).length ≤ 10 ^ 9 :=
    Nat.pow_le_pow_right (by omega) (List.length_take_le ..)
  have hmod : (x.tmod 1000000000).natAbs < 1000000000 := by
    rw [Int.natAbs_tmod]; exact Nat.mod_lt _ (by decide)
  rw [he, toTonLong_ascii hd hf hlen, hval]
  omega

/-- Exactly the amounts in this range are read back. -/
theorem toTonLong_formatCurrency_iff {x : ℤ} :
    toTonLong (formatCurrency x) = x ↔ 0 ≤ x ∧ x < 10 ^ 18 := by
  constructor
  · intro h
    rw [← h]
    exact toTonLong_formatCurrency_range x
  · rintro ⟨h0, h1⟩
    exact toTonLong_formatCurrency h0 h1

end TonWallet.Encoding
