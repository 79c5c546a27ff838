import TonWallet.Encoding.Text

/-!
# Base64

`Base64.Default` of the Kotlin standard library, which the two functions
`base64` of `SignatureUtil.kt` call. The encoder always pads. The decoder
accepts missing padding, but refuses wrong padding, a dangling symbol and any
character outside the alphabet.

The functions `base64Url` do the same with `-` and `_` for `+` and `/`.

* `base64Decode_base64Encode`, `base64UrlDecode_base64UrlEncode`: decoding inverts
  encoding.
* `base64UrlEncode_of_base64UrlDecode`: only one text is decoded to given bytes, if
  they need no padding.
-/

namespace TonWallet.Encoding

/-- The standard alphabet. -/
def base64Alphabet : Text :=
  text "ABCDEFGHIJKLMNOPQRSTUVWXYZabcdefghijklmnopqrstuvwxyz0123456789+/"

/-- The symbol of a six-bit value. -/
def base64Symbol (v : ℕ) : Char16 := base64Alphabet.getD v 0

/-- The six-bit value of a symbol. -/
def base64Value (c : Char16) : Option ℕ := base64Alphabet.idxOf? c

/-- The character that fills up the last unit. -/
def padSymbol : Char16 := 0x3D

/-- `base64(byteArray)`, i.e. `Base64.Default.encode` (`SignatureUtil.kt` line 93). -/
def base64Encode : Bytes → Text
  | a :: b :: c :: bytes =>
    base64Symbol (a.toNat / 4) :: base64Symbol (a.toNat % 4 * 16 + b.toNat / 16)
      :: base64Symbol (b.toNat % 16 * 4 + c.toNat / 64) :: base64Symbol (c.toNat % 64)
      :: base64Encode bytes
  | [a, b] =>
    [base64Symbol (a.toNat / 4), base64Symbol (a.toNat % 4 * 16 + b.toNat / 16),
      base64Symbol (b.toNat % 16 * 4), padSymbol]
  | [a] => [base64Symbol (a.toNat / 4), base64Symbol (a.toNat % 4 * 16), padSymbol, padSymbol]
  | [] => []

/-- The end of the input after a pad symbol, when `bits` bits are left over. -/
def handlePaddingSymbol (bits : ℕ) (rest : Text) : Except Throwable Bytes :=
  if bits = 4 ∧ rest = [padSymbol] ∨ bits = 2 ∧ rest = [] then .ok []
  else .error .illegalArgument

/-- The decoding loop: `payload` holds the `bits` bits read and not yet written.
The loop's fast path for four symbols does what four turns of this one do. -/
def decodeImpl (payload bits : ℕ) : Text → Except Throwable Bytes
  | [] => if bits = 6 then .error .illegalArgument else .ok []
  | c :: s =>
    match base64Value c with
    | some v =>
      let payload := payload * 64 + v
      if bits + 6 < 8 then decodeImpl payload (bits + 6) s
      else do
        let rest ← decodeImpl (payload % 2 ^ (bits - 2)) (bits - 2) s
        return BitVec.ofNat 8 (payload / 2 ^ (bits - 2)) :: rest
    | none => if c = padSymbol then handlePaddingSymbol bits s else .error .illegalArgument

/-- `base64(string)`, i.e. `Base64.Default.decode` (`SignatureUtil.kt` line 95). -/
def base64Decode (s : Text) : Except Throwable Bytes :=
  if s.length = 1 then .error .illegalArgument else decodeImpl 0 0 s

theorem base64Value_base64Symbol : ∀ v < 64, base64Value (base64Symbol v) = some v := by
  decide +kernel

theorem base64Value_padSymbol : base64Value padSymbol = none := by decide

section
variable {payload v : ℕ} {s : Text}

/-- One symbol of the loop that completes no byte. -/
theorem decodeImpl_first (hv : v < 64) :
    decodeImpl payload 0 (base64Symbol v :: s) = decodeImpl (payload * 64 + v) 6 s := by
  rw [decodeImpl, base64Value_base64Symbol v hv]
  rfl

/-- One symbol of the loop that completes a byte. -/
theorem decodeImpl_next {bits : ℕ} (hv : v < 64) (hb : 2 ≤ bits) :
    decodeImpl payload bits (base64Symbol v :: s)
      = (decodeImpl ((payload * 64 + v) % 2 ^ (bits - 2)) (bits - 2) s).map
          (BitVec.ofNat 8 ((payload * 64 + v) / 2 ^ (bits - 2)) :: ·) := by
  rw [decodeImpl, base64Value_base64Symbol v hv]
  simp only [if_neg (show ¬ bits + 6 < 8 by omega)]
  cases decodeImpl ((payload * 64 + v) % 2 ^ (bits - 2)) (bits - 2) s <;> rfl

theorem decodeImpl_pad {bits : ℕ} :
    decodeImpl payload bits (padSymbol :: s) = handlePaddingSymbol bits s := by
  rw [decodeImpl, base64Value_padSymbol]
  rfl

end

theorem ofNat_of_eq {n : ℕ} {b : Byte} (h : n = b.toNat) : BitVec.ofNat 8 n = b := by
  rw [h, BitVec.ofNat_toNat, BitVec.setWidth_eq]

theorem decodeImpl_base64Encode (bytes : Bytes) :
    decodeImpl 0 0 (base64Encode bytes) = .ok bytes := by
  induction bytes using base64Encode.induct with
  | case1 a b c bytes ih =>
    have ha := a.isLt; have hb := b.isLt; have hc := c.isLt
    rw [base64Encode, decodeImpl_first (by omega), decodeImpl_next (by omega) (by omega),
      decodeImpl_next (by omega) (by omega), decodeImpl_next (by omega) (by omega)]
    simp only [Nat.reduceSub, Nat.reducePow, Nat.mod_one, Nat.div_one, ih, Except.map]
    rw [ofNat_of_eq (b := a) (by omega), ofNat_of_eq (b := b) (by omega),
      ofNat_of_eq (b := c) (by omega)]
  | case2 a b =>
    have ha := a.isLt; have hb := b.isLt
    rw [base64Encode, decodeImpl_first (by omega), decodeImpl_next (by omega) (by omega),
      decodeImpl_next (by omega) (by omega), decodeImpl_pad]
    rw [handlePaddingSymbol, if_pos (Or.inr ⟨rfl, rfl⟩)]
    simp only [Nat.reduceSub, Nat.reducePow, Except.map]
    rw [ofNat_of_eq (b := a) (by omega), ofNat_of_eq (b := b) (by omega)]
  | case3 a =>
    have ha := a.isLt
    rw [base64Encode, decodeImpl_first (by omega), decodeImpl_next (by omega) (by omega),
      decodeImpl_pad]
    rw [handlePaddingSymbol, if_pos (Or.inl ⟨rfl, rfl⟩)]
    simp only [Nat.reduceSub, Nat.reducePow, Except.map]
    rw [ofNat_of_eq (b := a) (by omega)]
  | case4 => rfl

theorem base64Decode_base64Encode (bytes : Bytes) :
    base64Decode (base64Encode bytes) = .ok bytes := by
  have hlen : (base64Encode bytes).length ≠ 1 := by
    cases bytes using base64Encode.induct <;> simp [base64Encode]
  rw [base64Decode, if_neg hlen, decodeImpl_base64Encode]

/-! ## Texts that are decoded -/

theorem base64Symbol_of_base64Value {c : Char16} {v : ℕ} (h : base64Value c = some v) :
    v < 64 ∧ base64Symbol v = c := by
  obtain ⟨hv, hc, -⟩ := List.idxOf?_eq_some_iff.mp h
  exact ⟨hv, by rw [base64Symbol, List.getD_eq_getElem _ _ hv, hc]⟩

/-- A character that is read is a symbol, or it begins the padding, and nothing comes after that. -/
theorem decodeImpl_cons_ok {payload bits : ℕ} {c : Char16} {s : Text} {bytes : Bytes}
    (h : decodeImpl payload bits (c :: s) = .ok bytes) :
    (∃ v < 64, c = base64Symbol v) ∨ (bytes = [] ∧ (bits = 4 ∨ bits = 2)) := by
  rw [decodeImpl] at h
  split at h
  · rename_i v hv
    obtain ⟨hlt, rfl⟩ := base64Symbol_of_base64Value hv
    exact .inl ⟨v, hlt, rfl⟩
  · split at h
    · rw [handlePaddingSymbol] at h
      split at h
      · rename_i hbits
        exact .inr ⟨(Except.ok.inj h).symm, hbits.imp And.left And.left⟩
      · cases h
    · cases h

/-- The next symbol, in the middle of a unit: the byte that it completes comes before the others,
and without a symbol there are no others. -/
theorem decodeImpl_more {payload bits : ℕ} {s : Text} {bytes : Bytes} (hbits : bits = 4 ∨ bits = 2)
    (h : decodeImpl payload bits s = .ok bytes) (hne : bytes ≠ []) :
    ∃ v < 64, ∃ s' bytes', s = base64Symbol v :: s' ∧
      decodeImpl ((payload * 64 + v) % 2 ^ (bits - 2)) (bits - 2) s' = .ok bytes' ∧
      bytes = BitVec.ofNat 8 ((payload * 64 + v) / 2 ^ (bits - 2)) :: bytes' := by
  cases s with
  | nil =>
    rw [decodeImpl, if_neg (by omega)] at h
    exact absurd (Except.ok.inj h).symm hne
  | cons c s =>
    obtain ⟨v, hv, rfl⟩ | ⟨hnil, -⟩ := decodeImpl_cons_ok h
    · rw [decodeImpl_next hv (by omega)] at h
      cases hs : decodeImpl ((payload * 64 + v) % 2 ^ (bits - 2)) (bits - 2) s with
      | error e =>
        rw [hs] at h
        cases h
      | ok bytes' =>
        rw [hs] at h
        exact ⟨v, hv, s, bytes', rfl, hs, (Except.ok.inj h).symm⟩
    · exact absurd hnil hne

/-- The first byte of a unit takes two symbols. -/
theorem decodeImpl_unit {s : Text} {bytes : Bytes} (h : decodeImpl 0 0 s = .ok bytes)
    (hne : s ≠ []) :
    ∃ v < 64, ∃ w < 64, ∃ s' bytes', s = base64Symbol v :: base64Symbol w :: s' ∧
      decodeImpl ((v * 64 + w) % 2 ^ 4) 4 s' = .ok bytes' ∧
      bytes = BitVec.ofNat 8 ((v * 64 + w) / 2 ^ 4) :: bytes' := by
  obtain ⟨c, s, rfl⟩ := List.exists_cons_of_ne_nil hne
  obtain ⟨v, hv, rfl⟩ | ⟨-, hbits⟩ := decodeImpl_cons_ok h
  · rw [decodeImpl_first hv, Nat.zero_mul, Nat.zero_add] at h
    cases s with
    | nil => cases h
    | cons d s =>
      obtain ⟨w, hw, rfl⟩ | ⟨-, hbits⟩ := decodeImpl_cons_ok h
      · rw [decodeImpl_next hw (by omega)] at h
        cases hs : decodeImpl ((v * 64 + w) % 2 ^ (6 - 2)) (6 - 2) s with
        | error e =>
          rw [hs] at h
          cases h
        | ok bytes' =>
          rw [hs] at h
          exact ⟨v, hv, w, hw, s, bytes', rfl, hs, (Except.ok.inj h).symm⟩
      · omega
  · omega

/-- A text that is decoded to whole units is what they are encoded as. -/
theorem base64Encode_of_decodeImpl {s : Text} {bytes : Bytes} (h : decodeImpl 0 0 s = .ok bytes)
    (hlen : bytes.length % 3 = 0) : s = base64Encode bytes := by
  induction hn : s.length using Nat.strong_induction_on generalizing s bytes with
  | _ n ih =>
    subst hn
    rcases eq_or_ne s [] with rfl | hne
    · obtain rfl : [] = bytes := Except.ok.inj h
      rfl
    · obtain ⟨v, hv, w, hw, s₁, bytes₁, rfl, h₁, rfl⟩ := decodeImpl_unit h hne
      have hne₁ : bytes₁ ≠ [] := by
        rintro rfl
        cases hlen
      obtain ⟨x, hx, s₂, bytes₂, rfl, h₂, rfl⟩ := decodeImpl_more (.inl rfl) h₁ hne₁
      have hne₂ : bytes₂ ≠ [] := by
        rintro rfl
        cases hlen
      obtain ⟨y, hy, s₃, bytes₃, rfl, h₃, rfl⟩ := decodeImpl_more (.inr rfl) h₂ hne₂
      simp only [Nat.reduceSub, Nat.reducePow, Nat.mod_one, Nat.div_one] at h₃ ⊢
      simp only [List.length_cons] at hlen
      have hs := ih s₃.length (by simp only [List.length_cons]; omega) h₃ (by omega) rfl
      rw [base64Encode, ← hs]
      simp only [BitVec.toNat_ofNat, Nat.reducePow]
      have hsymbols : v = (v * 64 + w) / 16 % 256 / 4 ∧
          w = (v * 64 + w) / 16 % 256 % 4 * 16 + ((v * 64 + w) % 16 * 64 + x) / 4 % 256 / 16 ∧
          x = ((v * 64 + w) % 16 * 64 + x) / 4 % 256 % 16 * 4
            + (((v * 64 + w) % 16 * 64 + x) % 4 * 64 + y) % 256 / 64 ∧
          y = (((v * 64 + w) % 16 * 64 + x) % 4 * 64 + y) % 256 % 64 := by omega
      rw [← hsymbols.1, ← hsymbols.2.1, ← hsymbols.2.2.1, ← hsymbols.2.2.2]

/-! ## The url-safe alphabet -/

/-- A symbol in the url-safe alphabet, and in the standard one again. -/
def toUrlSafe (c : Char16) : Char16 := if c = 0x2B then 0x2D else if c = 0x2F then 0x5F else c
def ofUrlSafe (c : Char16) : Char16 := if c = 0x2D then 0x2B else if c = 0x5F then 0x2F else c

/-- `base64Url(byteArray)`, i.e. `Base64.UrlSafe.encode` (`SignatureUtil.kt` line 98). -/
def base64UrlEncode (bytes : Bytes) : Text := (base64Encode bytes).map toUrlSafe

/-- `base64Url(string)`, i.e. `Base64.UrlSafe.decode` (`SignatureUtil.kt` line 100). -/
def base64UrlDecode (s : Text) : Except Throwable Bytes :=
  if 0x2B ∈ s ∨ 0x2F ∈ s then .error .illegalArgument else base64Decode (s.map ofUrlSafe)

theorem length_base64Encode (bytes : Bytes) :
    (base64Encode bytes).length = (bytes.length + 2) / 3 * 4 := by
  induction bytes using base64Encode.induct with
  | case1 a b c bytes ih =>
    rw [base64Encode]
    simp only [List.length_cons, ih]
    omega
  | case2 a b => simp [base64Encode]
  | case3 a => simp [base64Encode]
  | case4 => simp [base64Encode]

/-- What is encoded consists of symbols and padding. -/
theorem forall_mem_base64Encode {P : Char16 → Prop} (hsymbol : ∀ v < 64, P (base64Symbol v))
    (hpad : P padSymbol) (bytes : Bytes) : ∀ c ∈ base64Encode bytes, P c := by
  induction bytes using base64Encode.induct with
  | case1 a b c bytes ih =>
    have ha := a.isLt; have hb := b.isLt; have hc := c.isLt
    simp only [base64Encode, List.forall_mem_cons]
    exact ⟨hsymbol _ (by omega), hsymbol _ (by omega), hsymbol _ (by omega), hsymbol _ (by omega),
      ih⟩
  | case2 a b =>
    have ha := a.isLt; have hb := b.isLt
    simp only [base64Encode, List.forall_mem_cons]
    exact ⟨hsymbol _ (by omega), hsymbol _ (by omega), hsymbol _ (by omega), hpad,
      List.forall_mem_nil _⟩
  | case3 a =>
    have ha := a.isLt
    simp only [base64Encode, List.forall_mem_cons]
    exact ⟨hsymbol _ (by omega), hsymbol _ (by omega), hpad, hpad, List.forall_mem_nil _⟩
  | case4 => exact List.forall_mem_nil _

theorem ofUrlSafe_toUrlSafe : ∀ v < 64,
    ofUrlSafe (toUrlSafe (base64Symbol v)) = base64Symbol v ∧
      toUrlSafe (base64Symbol v) ≠ 0x2B ∧ toUrlSafe (base64Symbol v) ≠ 0x2F := by decide +kernel

theorem base64UrlDecode_base64UrlEncode (bytes : Bytes) :
    base64UrlDecode (base64UrlEncode bytes) = .ok bytes := by
  have hsafe : ∀ c ∈ base64Encode bytes,
      ofUrlSafe (toUrlSafe c) = c ∧ toUrlSafe c ≠ 0x2B ∧ toUrlSafe c ≠ 0x2F :=
    forall_mem_base64Encode ofUrlSafe_toUrlSafe (by decide) bytes
  have hnot : ¬ (0x2B ∈ base64UrlEncode bytes ∨ 0x2F ∈ base64UrlEncode bytes) := by
    rintro (h | h)
    · obtain ⟨c, hc, he⟩ := List.mem_map.mp h
      exact (hsafe c hc).2.1 he
    · obtain ⟨c, hc, he⟩ := List.mem_map.mp h
      exact (hsafe c hc).2.2 he
  have hback : (base64UrlEncode bytes).map ofUrlSafe = base64Encode bytes := by
    rw [base64UrlEncode, List.map_map]
    exact (List.map_congr_left fun c hc => (hsafe c hc).1).trans (List.map_id _)
  rw [base64UrlDecode, if_neg hnot, hback, base64Decode_base64Encode]

/-- A text that is decoded to whole units is what they are encoded as. -/
theorem base64UrlEncode_of_base64UrlDecode {s : Text} {bytes : Bytes}
    (h : base64UrlDecode s = .ok bytes) (hlen : bytes.length % 3 = 0) :
    s = base64UrlEncode bytes := by
  rw [base64UrlDecode] at h
  split at h
  · cases h
  · rename_i hsafe
    obtain ⟨hplus, hslash⟩ := not_or.mp hsafe
    rw [base64Decode] at h
    split at h
    · cases h
    · rw [base64UrlEncode, ← base64Encode_of_decodeImpl h hlen, List.map_map]
      conv_lhs => rw [← List.map_id s]
      refine List.map_congr_left fun c hc => ?_
      have hplus : c ≠ 0x2B := fun he => hplus (he ▸ hc)
      have hslash : c ≠ 0x2F := fun he => hslash (he ▸ hc)
      simp only [Function.comp_apply, ofUrlSafe, toUrlSafe, id_eq]
      split_ifs <;> simp_all

end TonWallet.Encoding
