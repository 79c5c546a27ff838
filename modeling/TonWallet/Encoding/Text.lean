import TonWallet.Encoding.Bytes
import Mathlib.Data.Int.Lemmas

/-!
# UTF-8 and numbers

The encoder and the decoder of UTF-8 replace what is malformed, by `?` and by
U+FFFD. The number parsers are those of the Java library: `Integer.parseInt`
and `Long.parseLong` accept an optional sign followed by at least one digit of
the radix, where a digit is anything `Character.digit` recognises, and refuse
values out of range.

* `decodeToString_toByteArray`: decoding inverts encoding on ASCII strings.
-/

namespace TonWallet.Encoding

/-! ## UTF-8 -/

/-- The UTF-8 bytes of a code point. -/
def utf8 (n : ℕ) : Bytes :=
  if n < 0x80 then [BitVec.ofNat 8 n]
  else if n < 0x800 then [BitVec.ofNat 8 (0xC0 + n / 0x40), BitVec.ofNat 8 (0x80 + n % 0x40)]
  else if n < 0x10000 then
    [BitVec.ofNat 8 (0xE0 + n / 0x1000), BitVec.ofNat 8 (0x80 + n / 0x40 % 0x40),
      BitVec.ofNat 8 (0x80 + n % 0x40)]
  else
    [BitVec.ofNat 8 (0xF0 + n / 0x40000), BitVec.ofNat 8 (0x80 + n / 0x1000 % 0x40),
      BitVec.ofNat 8 (0x80 + n / 0x40 % 0x40), BitVec.ofNat 8 (0x80 + n % 0x40)]

/-- `String.toByteArray()`: UTF-8, with `?` for an unpaired surrogate. -/
def toByteArray : Text → Bytes
  | [] => []
  | c :: s =>
    if 0xD800 ≤ c.toNat ∧ c.toNat < 0xE000 then
      match s with
      | d :: s' =>
        if c.toNat < 0xDC00 ∧ 0xDC00 ≤ d.toNat ∧ d.toNat < 0xE000 then
          utf8 (0x10000 + (c.toNat - 0xD800) * 0x400 + (d.toNat - 0xDC00)) ++ toByteArray s'
        else 0x3F :: toByteArray (d :: s')
      | [] => [0x3F]
    else utf8 c.toNat ++ toByteArray s

/-- A UTF-8 sequence that has been begun: the bits so far, the number of bytes
still to come, and the bounds of the next one. -/
structure Utf8State where
  code : ℕ
  needed : ℕ
  lower : ℕ := 0x80
  upper : ℕ := 0xBF

/-- The first byte of a sequence. -/
def utf8Lead (b : ℕ) : Text × Option Utf8State :=
  if b < 0x80 then (codeUnits b, none)
  else if 0xC2 ≤ b ∧ b ≤ 0xDF then ([], some { code := b - 0xC0, needed := 1 })
  else if 0xE0 ≤ b ∧ b ≤ 0xEF then
    ([], some { code := b - 0xE0, needed := 2, lower := if b = 0xE0 then 0xA0 else 0x80,
                upper := if b = 0xED then 0x9F else 0xBF })
  else if 0xF0 ≤ b ∧ b ≤ 0xF4 then
    ([], some { code := b - 0xF0, needed := 3, lower := if b = 0xF0 then 0x90 else 0x80,
                upper := if b = 0xF4 then 0x8F else 0xBF })
  else ([0xFFFD], none)

/-- UTF-8 decoding from within a sequence. A byte that cannot continue the
sequence ends it with U+FFFD and is then read as a first byte. -/
def utf8Decode : Option Utf8State → Bytes → Text
  | none, [] => []
  | some _, [] => [0xFFFD]
  | none, b :: s => (utf8Lead b.toNat).1 ++ utf8Decode (utf8Lead b.toNat).2 s
  | some st, b :: s =>
    if st.lower ≤ b.toNat ∧ b.toNat ≤ st.upper then
      let code := st.code * 0x40 + b.toNat % 0x40
      if st.needed = 1 then codeUnits code ++ utf8Decode none s
      else utf8Decode (some { code := code, needed := st.needed - 1 }) s
    else 0xFFFD :: (utf8Lead b.toNat).1 ++ utf8Decode (utf8Lead b.toNat).2 s

/-- `ByteArray.decodeToString()`. -/
def decodeToString (bytes : Bytes) : Text := utf8Decode none bytes

theorem decodeToString_ascii {bytes : Bytes} (h : ∀ b ∈ bytes, b.toNat < 0x80) :
    decodeToString bytes = bytes.map fun b => b.setWidth 16 := by
  induction bytes with
  | nil => rfl
  | cons b bytes ih =>
    have hb := h b (by simp)
    have ih : utf8Decode none bytes = _ := ih fun c hc => h c (List.mem_cons_of_mem _ hc)
    have hunit : codeUnits b.toNat = [b.setWidth 16] := by
      rw [codeUnits, if_pos (by omega), BitVec.ofNat_toNat]
    rw [decodeToString, utf8Decode, utf8Lead, if_pos hb, hunit, ih]
    rfl

/-- ASCII strings survive encoding and decoding. -/
theorem decodeToString_toByteArray {s : Text} (h : ∀ c ∈ s, c.toNat < 0x80) :
    decodeToString (toByteArray s) = s := by
  have hbytes : toByteArray s = s.map fun c => c.setWidth 8 := by
    induction s with
    | nil => rfl
    | cons c s ih =>
      have hc := h c (by simp)
      rw [toByteArray.eq_def]
      simp only [if_neg (show ¬ (0xD800 ≤ c.toNat ∧ c.toNat < 0xE000) by omega), utf8, if_pos hc,
        BitVec.ofNat_toNat, ih fun d hd => h d (List.mem_cons_of_mem _ hd)]
      rfl
  rw [hbytes, decodeToString_ascii, List.map_map]
  · conv_rhs => rw [← List.map_id s]
    refine List.map_congr_left fun c hc => BitVec.eq_of_toNat_eq ?_
    have := h c hc
    simp only [Function.comp_apply, BitVec.toNat_setWidth, id_eq]
    omega
  · intro b hb
    obtain ⟨c, hc, rfl⟩ := List.mem_map.mp hb
    have := h c hc
    simp only [BitVec.toNat_setWidth]
    omega

/-! ## Numbers -/

/-- The code units of the decimal digits zero of the Basic Multilingual Plane,
each followed by the other nine digits of its script. -/
def decimalZeros : List ℕ :=
  [0x30, 0x660, 0x6F0, 0x7C0, 0x966, 0x9E6, 0xA66, 0xAE6, 0xB66, 0xBE6, 0xC66, 0xCE6, 0xD66,
    0xDE6, 0xE50, 0xED0, 0xF20, 0x1040, 0x1090, 0x17E0, 0x1810, 0x1946, 0x19D0, 0x1A80, 0x1A90,
    0x1B50, 0x1BB0, 0x1C40, 0x1C50, 0xA620, 0xA8D0, 0xA900, 0xA9D0, 0xA9F0, 0xAA50, 0xABF0,
    0xFF10]

/-- The value `Character.digit` gives a code unit in the largest radix: decimal
digits of any script, Latin letters and full-width Latin letters. -/
def digitValue (c : Char16) : Option ℕ :=
  match decimalZeros.find? fun z => decide (z ≤ c.toNat ∧ c.toNat < z + 10) with
  | some z => some (c.toNat - z)
  | none =>
    ([0x41, 0x61, 0xFF21, 0xFF41].find? fun a => decide (a ≤ c.toNat ∧ c.toNat < a + 26)).map
      fun a => c.toNat - a + 10

/-- `Character.digit(c, radix)`, `none` for `-1`. -/
def digit (radix : ℕ) (c : Char16) : Option ℕ :=
  (digitValue c).filter (· < radix)

/-- The digits of ASCII. -/
def isDigitUnit (c : Char16) : Bool := 0x30 ≤ c.toNat ∧ c.toNat ≤ 0x39

def isHexDigitUnit (c : Char16) : Bool :=
  isDigitUnit c ∨ 0x41 ≤ c.toNat ∧ c.toNat ≤ 0x46 ∨ 0x61 ≤ c.toNat ∧ c.toNat ≤ 0x66

/-- The value of a string of digits, after the value `acc` of those before it. -/
def digits (radix acc : ℕ) : Text → Option ℕ
  | [] => some acc
  | c :: s => (digit radix c).bind fun d => digits radix (acc * radix + d) s

/-- `parseInt`/`parseLong` for numbers between `lo` and `hi`. -/
def parse (lo hi : ℤ) (radix : ℕ) (s : Text) : Option ℤ :=
  match s with
  | [] => none
  | c :: s' =>
    if c = 0x2D then
      if s' = [] then none
      else ((digits radix 0 s').map fun n => -(n : ℤ)).filter fun v => lo ≤ v
    else if c = 0x2B then
      if s' = [] then none
      else ((digits radix 0 s').map fun n => (n : ℤ)).filter fun v => v ≤ hi
    else ((digits radix 0 s).map fun n => (n : ℤ)).filter fun v => v ≤ hi

/-- `Int.MIN_VALUE`. -/
def intMin : ℤ := -0x80000000

/-- `Int.MAX_VALUE`. -/
def intMax : ℤ := 0x7FFFFFFF

/-- `Long.MIN_VALUE`. -/
def longMin : ℤ := -0x8000000000000000

/-- `Long.MAX_VALUE`. -/
def longMax : ℤ := 0x7FFFFFFFFFFFFFFF

/-- `String.toInt(radix)`. -/
def toInt (radix : ℕ) (s : Text) : Option ℤ := parse intMin intMax radix s

/-- `String.toLong()`. -/
def toLong (s : Text) : Option ℤ := parse longMin longMax 10 s

/-- A non-empty string of digits is the number it spells. -/
theorem parse_of_digits {lo hi : ℤ} {radix n : ℕ} {s : Text} (hs : s ≠ [])
    (hd : digits radix 0 s = some n) (hm : digit radix 0x2D = none)
    (hp : digit radix 0x2B = none) (hn : (n : ℤ) ≤ hi) : parse lo hi radix s = some (n : ℤ) := by
  cases s with
  | nil => exact absurd rfl hs
  | cons c s =>
    have hc1 : c ≠ 0x2D := by rintro rfl; rw [digits, hm] at hd; cases hd
    have hc2 : c ≠ 0x2B := by rintro rfl; rw [digits, hp] at hd; cases hd
    rw [parse, if_neg hc1, if_neg hc2, hd]
    simp [hn]

example : toLong (text "-42") = some (-42) := by decide
example : toLong (text "9223372036854775808") = none := by decide

end TonWallet.Encoding
