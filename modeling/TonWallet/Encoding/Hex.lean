import TonWallet.Encoding.Text

/-!
# Hexadecimal strings

The two functions `hex` of `SignatureUtil.kt`. Decoding reads two characters at
a time, each through `toInt(16)`, and ignores the last character of a string of
odd length.

* `hexDecode_hexEncode`: decoding inverts encoding.
* `length_hexEncode`, `mem_hexEncode`: how long an encoding is, and what it is made of.
* `hexDecode_ok_iff`: the texts that are decoded.
* `hex_codec_iff`: the texts that are decoded as hexadecimal texts should be.
-/

namespace TonWallet.Encoding

/-- `DIGITS` (`SignatureUtil.kt` line 68). -/
def hexDigits : Text := text "0123456789abcdef"

/-- `hex(bytes: ByteArray): String` (`SignatureUtil.kt` lines 70–76). -/
def hexEncode (bytes : Bytes) : Text :=
  bytes.flatMap fun byte =>
    [hexDigits.getD (byte.toNat / 16) 0, hexDigits.getD (byte.toNat % 16) 0]

/-- The value of one character, `s[i].toString().toInt(16)`. -/
def hexDigit (c : Char16) : Except Throwable (BitVec 32) :=
  match toInt 16 [c] with
  | some v => .ok (BitVec.ofInt 32 v)
  | none => .error .numberFormat

/-- `hex(s: String): ByteArray` (`SignatureUtil.kt` lines 81–90). -/
def hexDecode : Text → Except Throwable Bytes
  | c :: d :: s => do
    let high ← hexDigit c
    let low ← hexDigit d
    let rest ← hexDecode s
    return ((high <<< 4) ||| low).setWidth 8 :: rest
  | _ => .ok []

theorem hexDigit_hexDigits :
    ∀ n < 16, hexDigit (hexDigits.getD n 0) = .ok (BitVec.ofNat 32 n) := by decide

/-- The two halves of a byte, put together again. -/
theorem join_halves (n : ℕ) (h : n < 256) :
    ((BitVec.ofNat 32 (n / 16) <<< 4) ||| BitVec.ofNat 32 (n % 16)).setWidth 8
      = BitVec.ofNat 8 n := by
  have key : ∀ hi < 16, ∀ lo < 16, ((BitVec.ofNat 32 hi <<< 4) ||| BitVec.ofNat 32 lo).setWidth 8
      = BitVec.ofNat 8 (16 * hi + lo) := by decide
  have := key (n / 16) (by omega) (n % 16) (by omega)
  rwa [Nat.div_add_mod] at this

theorem hexDecode_hexEncode (bytes : Bytes) : hexDecode (hexEncode bytes) = .ok bytes := by
  induction bytes with
  | nil => rfl
  | cons b bytes ih =>
    have hb := b.isLt
    have hhigh := hexDigit_hexDigits (b.toNat / 16) (by omega)
    have hlow := hexDigit_hexDigits (b.toNat % 16) (by omega)
    have hcons : hexEncode (b :: bytes)
        = hexDigits.getD (b.toNat / 16) 0 :: hexDigits.getD (b.toNat % 16) 0
          :: hexEncode bytes := rfl
    rw [hcons, hexDecode, hhigh, hlow, ih]
    have hj := join_halves b.toNat hb
    rw [BitVec.ofNat_toNat, BitVec.setWidth_eq] at hj
    exact congrArg (fun x => Except.ok (x :: bytes)) hj

theorem length_hexEncode (bytes : Bytes) : (hexEncode bytes).length = 2 * bytes.length := by
  induction bytes with
  | nil => rfl
  | cons b bytes ih =>
    show (hexEncode bytes).length + 2 = _
    rw [ih, List.length_cons]
    omega

theorem mem_hexDigits : ∀ n < 16, hexDigits.getD n 0 ∈ hexDigits := by decide

theorem mem_hexEncode {bytes : Bytes} {c : Char16} (h : c ∈ hexEncode bytes) : c ∈ hexDigits := by
  obtain ⟨b, -, hc⟩ := List.mem_flatMap.mp h
  have hb := b.isLt
  obtain rfl | hc := List.mem_cons.mp hc
  · exact mem_hexDigits _ (by omega)
  · rw [List.mem_singleton.mp hc]
    exact mem_hexDigits _ (by omega)

/-! ## What is decoded -/

/-- A hexadecimal text: two digits of ASCII for each byte. -/
def IsHex (s : Text) : Prop := s.length % 2 = 0 ∧ ∀ c ∈ s, isHexDigitUnit c = true

/-- A hexadecimal digit in lower case. -/
def lowerHex (c : Char16) : Char16 := if 0x41 ≤ c.toNat ∧ c.toNat ≤ 0x46 then c + 0x20 else c

/-- The characters that are read: all but the last one of an odd number. -/
def pairs (s : Text) : Text := s.take (s.length / 2 * 2)

theorem pairs_cons_cons (c d : Char16) (s : Text) : pairs (c :: d :: s) = c :: d :: pairs s := by
  have hlen : (c :: d :: s).length / 2 * 2 = s.length / 2 * 2 + 2 := by
    rw [List.length_cons, List.length_cons]
    omega
  rw [pairs, hlen]
  rfl

/-- A character alone is its digit; a sign alone is no number. -/
theorem toInt_single (c : Char16) : toInt 16 [c] = (digit 16 c).map fun n => (n : ℤ) := by
  have hone : digits 16 0 [c] = digit 16 c := by
    rw [digits]
    cases digit 16 c <;> simp [digits]
  have hlt : ∀ n ∈ digit 16 c, (n : ℤ) ≤ intMax := by
    intro n hn
    have := of_decide_eq_true (Option.mem_filter_iff.mp hn).2
    rw [intMax]
    omega
  rw [toInt, parse]
  split
  · rename_i hc
    subst hc
    rfl
  · split
    · rename_i hc
      subst hc
      rfl
    · rw [hone]
      cases hd : digit 16 c with
      | none => rfl
      | some n => exact if_pos (decide_eq_true (hlt n hd))

/-- A character is read if it is a digit in some script. -/
theorem hexDigit_eq_ok {c : Char16} {v : BitVec 32} :
    hexDigit c = .ok v ↔ ∃ n ∈ digit 16 c, BitVec.ofNat 32 n = v := by
  rw [hexDigit, toInt_single]
  cases digit 16 c <;> simp [BitVec.ofInt_natCast]

theorem hexDecode_ok_iff {s : Text} :
    (∃ b, hexDecode s = .ok b) ↔ ∀ c ∈ pairs s, (digit 16 c).isSome := by
  have hdigit : ∀ c, (∃ v, hexDigit c = .ok v) ↔ (digit 16 c).isSome := by
    intro c
    simp only [hexDigit_eq_ok]
    cases digit 16 c <;> simp
  induction s using hexDecode.induct with
  | case1 c d s ih =>
    rw [pairs_cons_cons, List.forall_mem_cons, List.forall_mem_cons, ← hdigit, ← hdigit, hexDecode]
    simp only [bind_eq_ok]
    constructor
    · rintro ⟨b, high, hhigh, low, hlow, rest, hrest, -⟩
      exact ⟨⟨high, hhigh⟩, ⟨low, hlow⟩, ih.mp ⟨rest, hrest⟩⟩
    · rintro ⟨⟨high, hhigh⟩, ⟨low, hlow⟩, hs⟩
      obtain ⟨rest, hrest⟩ := ih.mpr hs
      exact ⟨_, high, hhigh, low, hlow, rest, hrest, rfl⟩
  | case2 s hs =>
    have hlen : s.length < 2 := by
      rcases s with _ | ⟨c, _ | ⟨d, s⟩⟩
      · exact Nat.zero_lt_two
      · exact Nat.one_lt_two
      · exact absurd rfl (hs c d s)
    have hnone : pairs s = [] := by
      rw [pairs, Nat.div_eq_of_lt hlen]
      rfl
    rw [hnone, hexDecode.eq_2 s hs]
    simp

/-- A digit of ASCII is read as the digit that is written in its place. -/
theorem digit_of_isHexDigitUnit {c : Char16} (h : isHexDigitUnit c = true) :
    ∃ n < 16, digit 16 c = some n ∧ hexDigits.getD n 0 = lowerHex c := by
  have hall : ∀ m < 128, isHexDigitUnit (BitVec.ofNat 16 m) = true → ∃ n < 16,
      digit 16 (BitVec.ofNat 16 m) = some n ∧
        hexDigits.getD n 0 = lowerHex (BitVec.ofNat 16 m) := by decide +kernel
  have hlt : c.toNat < 128 := by
    simp only [isHexDigitUnit, isDigitUnit, decide_eq_true_eq] at h
    omega
  have hc := hall c.toNat hlt
  rw [BitVec.ofNat_toNat, BitVec.setWidth_eq] at hc
  exact hc h

/-- A hexadecimal text is decoded, and what is decoded is encoded as the text in lower case. -/
theorem IsHex.hexEncode_hexDecode {s : Text} (h : IsHex s) :
    ∃ b, hexDecode s = .ok b ∧ hexEncode b = s.map lowerHex := by
  obtain ⟨heven, hdigits⟩ := h
  induction s using hexDecode.induct with
  | case1 c d s ih =>
    obtain ⟨hc, hd, hs⟩ := List.forall_mem_cons.mp hdigits |>.imp_right List.forall_mem_cons.mp
    obtain ⟨high, hhigh, hchigh, hlc⟩ := digit_of_isHexDigitUnit hc
    obtain ⟨low, hlow, hdlow, hld⟩ := digit_of_isHexDigitUnit hd
    rw [List.length_cons, List.length_cons] at heven
    obtain ⟨rest, hrest, hencode⟩ := ih (by omega) hs
    have hjoin := join_halves (high * 16 + low) (by omega)
    rw [show (high * 16 + low) / 16 = high by omega,
      show (high * 16 + low) % 16 = low by omega] at hjoin
    have hbyte : (BitVec.ofNat 8 (high * 16 + low)).toNat = high * 16 + low := by
      rw [BitVec.toNat_ofNat, Nat.mod_eq_of_lt (by omega)]
    refine ⟨BitVec.ofNat 8 (high * 16 + low) :: rest, ?_, ?_⟩
    · rw [hexDecode, hexDigit_eq_ok.mpr ⟨high, hchigh, rfl⟩, hexDigit_eq_ok.mpr ⟨low, hdlow, rfl⟩,
        hrest, ok_bind, ok_bind, ok_bind, hjoin]
      rfl
    · rw [hexEncode, List.flatMap_cons, hbyte, show (high * 16 + low) / 16 = high by omega,
        show (high * 16 + low) % 16 = low by omega, hlc, hld, List.map_cons, List.map_cons,
        ← hencode]
      rfl
  | case2 s hs =>
    have hnil : s = [] := by
      rcases s with _ | ⟨c, _ | ⟨d, s⟩⟩
      · rfl
      · simp at heven
      · exact absurd rfl (hs c d s)
    subst hnil
    exact ⟨[], rfl, rfl⟩

/-- A text is decoded if and only if it is hexadecimal, its bytes are encoded as the text in lower
case, and no hexadecimal text that is another one in lower case has its bytes. -/
structure HexExact (s : Text) : Prop where
  decodes : (∃ b, hexDecode s = .ok b) ↔ IsHex s
  encodes : ∀ b, hexDecode s = .ok b → hexEncode b = s.map lowerHex
  unique : ∀ b t, hexDecode s = .ok b → hexDecode t = .ok b → IsHex t →
    t.map lowerHex = s.map lowerHex

/-- **The hexadecimal codec.** Bytes are encoded and decoded again. A text is decoded as it should
exactly if it is hexadecimal, or if one of the characters that are read is no digit. -/
theorem hex_codec_iff (s : Text) : (∀ b, hexDecode (hexEncode b) = .ok b) ∧
    (HexExact s ↔ IsHex s ∨ ∃ c ∈ pairs s, digit 16 c = none) := by
  refine ⟨hexDecode_hexEncode, ⟨fun h => ?_, ?_⟩⟩
  · by_contra hnot
    obtain ⟨hhex, hdigits⟩ := not_or.mp hnot
    refine hhex (h.decodes.mp (hexDecode_ok_iff.mpr fun c hc => ?_))
    rw [← Option.ne_none_iff_isSome]
    exact fun hnone => hdigits ⟨c, hc, hnone⟩
  · rintro (h | ⟨c, hc, hnone⟩)
    · obtain ⟨b, hb, hencode⟩ := h.hexEncode_hexDecode
      have hencodes : ∀ b, hexDecode s = .ok b → hexEncode b = s.map lowerHex := by
        intro b' hb'
        rw [← hencode, Except.ok.inj (hb'.symm.trans hb)]
      refine ⟨iff_of_true ⟨b, hb⟩ h, hencodes, fun b' t hs ht hhex => ?_⟩
      obtain ⟨b'', hb'', hencode''⟩ := hhex.hexEncode_hexDecode
      rw [← hencode'', ← hencodes b' hs, Except.ok.inj (ht.symm.trans hb'')]
    · have hfails : ¬ ∃ b, hexDecode s = .ok b := by
        rw [hexDecode_ok_iff]
        intro h
        have := h c hc
        rw [hnone] at this
        cases this
      have hhex : ¬ IsHex s := fun h => hfails (h.hexEncode_hexDecode.imp fun _ hb => hb.1)
      exact ⟨iff_of_false hfails hhex, fun b hb => absurd ⟨b, hb⟩ hfails,
        fun b _ hb => absurd ⟨b, hb⟩ hfails⟩

/-- The last of three digits is ignored, and digits of other scripts are read. -/
theorem odd_length_decoded : hexDecode (text "abc") = hexDecode (text "ab") ∧
    hexDecode (text "\u0661\u0662") = hexDecode (text "12") ∧ ¬ ∀ s, HexExact s := by
  refine ⟨by decide +kernel, by decide +kernel, fun h => ?_⟩
  have hodd := ((h (text "abc")).decodes.mp ⟨[0xAB], by decide +kernel⟩).1
  revert hodd
  decide

end TonWallet.Encoding
