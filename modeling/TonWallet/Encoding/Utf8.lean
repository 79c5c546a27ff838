import TonWallet.Encoding.Text

/-!
# Texts without unpaired surrogates

A text in which every surrogate is one of a pair is a list of code points. Its
UTF-8 bytes are those of the code points one after the other, and they are
decoded to the same text.

* `flatMap_codePoints`, `codePoints_flatMap`: a text is made of its code points,
  and scalar values are the code points of the text they make.
* `Paired.decodeToString_toByteArray`: decoding inverts encoding.
-/

namespace TonWallet.Encoding

/-- A code point that is no surrogate. -/
def Scalar (n : ℕ) : Prop := n < 0xD800 ∨ 0xE000 ≤ n ∧ n < 0x110000

instance (n : ℕ) : Decidable (Scalar n) := inferInstanceAs (Decidable (_ ∨ _))

/-- The code points of a text. An unpaired surrogate is one of its own. -/
def codePoints : Text → List ℕ
  | [] => []
  | c :: s =>
    match s with
    | [] => [c.toNat]
    | d :: s' =>
      if (0xD800 ≤ c.toNat ∧ c.toNat < 0xDC00) ∧ 0xDC00 ≤ d.toNat ∧ d.toNat < 0xE000 then
        (0x10000 + (c.toNat - 0xD800) * 0x400 + (d.toNat - 0xDC00)) :: codePoints s'
      else c.toNat :: codePoints (d :: s')

/-- A text without unpaired surrogates. -/
def Paired (s : Text) : Prop := ∀ n ∈ codePoints s, Scalar n

instance (s : Text) : Decidable (Paired s) := inferInstanceAs (Decidable (∀ n ∈ codePoints s, _))

/-- The two code units of a pair. -/
theorem codeUnits_pair {c d : Char16} (hc : 0xD800 ≤ c.toNat ∧ c.toNat < 0xDC00)
    (hd : 0xDC00 ≤ d.toNat ∧ d.toNat < 0xE000) :
    codeUnits (0x10000 + (c.toNat - 0xD800) * 0x400 + (d.toNat - 0xDC00)) = [c, d] := by
  have hhigh : BitVec.ofNat 16 (0xD800 + (0x10000 + (c.toNat - 0xD800) * 0x400
      + (d.toNat - 0xDC00) - 0x10000) / 0x400) = c := by
    apply BitVec.eq_of_toNat_eq
    rw [BitVec.toNat_ofNat]
    omega
  have hlow : BitVec.ofNat 16 (0xDC00 + (0x10000 + (c.toNat - 0xD800) * 0x400
      + (d.toNat - 0xDC00) - 0x10000) % 0x400) = d := by
    apply BitVec.eq_of_toNat_eq
    rw [BitVec.toNat_ofNat]
    omega
  rw [codeUnits, if_neg (by omega), hhigh, hlow]

/-- A unit that is no surrogate is a code point of its own. -/
theorem codeUnits_single (c : Char16) : codeUnits c.toNat = [c] := by
  rw [codeUnits, if_pos c.isLt, BitVec.ofNat_toNat, BitVec.setWidth_eq]

/-- A text consists of its code points. -/
theorem flatMap_codePoints (s : Text) : (codePoints s).flatMap codeUnits = s := by
  induction s using codePoints.induct with
  | case1 => rfl
  | case2 c =>
    show codeUnits c.toNat ++ [] = _
    rw [codeUnits_single, List.append_nil]
  | case3 c d s hpair ih =>
    rw [codePoints, if_pos hpair, List.flatMap_cons, codeUnits_pair hpair.1 hpair.2, ih]
    rfl
  | case4 c d s hpair ih =>
    rw [codePoints, if_neg hpair, List.flatMap_cons, codeUnits_single, ih]
    rfl

/-- A function of texts that treats a pair and a unit that is no surrogate alike treats code
points so. -/
theorem codeUnits_append {α : Type} {f : Text → α} {g : ℕ → α → α}
    (hsingle : ∀ (c : Char16) s, ¬ (0xD800 ≤ c.toNat ∧ c.toNat < 0xE000) →
      f (c :: s) = g c.toNat (f s))
    (hpair : ∀ (c d : Char16) s, 0xD800 ≤ c.toNat ∧ c.toNat < 0xDC00 →
      0xDC00 ≤ d.toNat ∧ d.toNat < 0xE000 →
      f (c :: d :: s) = g (0x10000 + (c.toNat - 0xD800) * 0x400 + (d.toNat - 0xDC00)) (f s))
    {n : ℕ} (hn : Scalar n) (s : Text) : f (codeUnits n ++ s) = g n (f s) := by
  rw [Scalar] at hn
  rw [codeUnits]
  split
  · rename_i hlt
    have hunit : (BitVec.ofNat 16 n).toNat = n := by
      rw [BitVec.toNat_ofNat, Nat.mod_eq_of_lt hlt]
    rw [List.singleton_append, hsingle _ _ (by omega), hunit]
  · rename_i hlt
    have hhigh : (BitVec.ofNat 16 (0xD800 + (n - 0x10000) / 0x400)).toNat
        = 0xD800 + (n - 0x10000) / 0x400 := by
      rw [BitVec.toNat_ofNat]
      omega
    have hlow : (BitVec.ofNat 16 (0xDC00 + (n - 0x10000) % 0x400)).toNat
        = 0xDC00 + (n - 0x10000) % 0x400 := by
      rw [BitVec.toNat_ofNat]
      omega
    have hcode : 0x10000 + (0xD800 + (n - 0x10000) / 0x400 - 0xD800) * 0x400
        + (0xDC00 + (n - 0x10000) % 0x400 - 0xDC00) = n := by omega
    rw [List.cons_append, List.singleton_append, hpair _ _ _ (by omega) (by omega), hhigh, hlow,
      hcode]

theorem codePoints_cons {c : Char16} (hc : ¬ (0xD800 ≤ c.toNat ∧ c.toNat < 0xE000)) (s : Text) :
    codePoints (c :: s) = c.toNat :: codePoints s := by
  cases s with
  | nil => rfl
  | cons d s => exact if_neg fun h => hc ⟨h.1.1, by omega⟩

/-- Scalar values are the code points of the text they make. -/
theorem codePoints_flatMap {ns : List ℕ} (h : ∀ n ∈ ns, Scalar n) :
    codePoints (ns.flatMap codeUnits) = ns := by
  induction ns with
  | nil => rfl
  | cons n ns ih =>
    obtain ⟨hn, hns⟩ := List.forall_mem_cons.mp h
    have happend := codeUnits_append (f := codePoints) (g := List.cons)
      (fun c s hc => codePoints_cons hc s) (fun c d s hc hd => if_pos ⟨hc, hd⟩) hn
    rw [List.flatMap_cons, happend, ih hns]

theorem paired_flatMap {ns : List ℕ} (h : ∀ n ∈ ns, Scalar n) : Paired (ns.flatMap codeUnits) := by
  rw [Paired, codePoints_flatMap h]
  exact h

/-- A unit that is no surrogate parts a text. -/
theorem codePoints_append_cons {c : Char16} (hc : ¬ (0xD800 ≤ c.toNat ∧ c.toNat < 0xE000))
    (s t : Text) : codePoints (s ++ c :: t) = codePoints s ++ c.toNat :: codePoints t := by
  induction s using codePoints.induct with
  | case1 => exact codePoints_cons hc t
  | case2 d =>
    have hstep : codePoints (d :: c :: t) = d.toNat :: codePoints (c :: t) :=
      if_neg fun h => hc ⟨by omega, h.2.2⟩
    show codePoints (d :: c :: t) = _
    rw [hstep, codePoints_cons hc]
    rfl
  | case3 d e s hpair ih =>
    show codePoints (d :: e :: (s ++ c :: t)) = _
    rw [codePoints, if_pos hpair, ih, codePoints, if_pos hpair]
    rfl
  | case4 d e s hpair ih =>
    show codePoints (d :: e :: (s ++ c :: t)) = _
    rw [codePoints, if_neg hpair, codePoints, if_neg hpair]
    exact congrArg _ ih

theorem paired_append_cons {c : Char16} (hc : ¬ (0xD800 ≤ c.toNat ∧ c.toNat < 0xE000))
    {s t : Text} : Paired (s ++ c :: t) ↔ Paired s ∧ Paired t := by
  have hscalar : Scalar c.toNat := by
    have := c.isLt
    rw [Scalar]
    omega
  rw [Paired, codePoints_append_cons hc, List.forall_mem_append, List.forall_mem_cons]
  exact and_congr_right fun _ => and_iff_right hscalar

/-! ## UTF-8 -/

theorem toByteArray_append {n : ℕ} (hn : Scalar n) (s : Text) :
    toByteArray (codeUnits n ++ s) = utf8 n ++ toByteArray s := by
  refine codeUnits_append (f := toByteArray) (g := fun n r => utf8 n ++ r) (fun c s hc => ?_)
    (fun c d s hc hd => ?_) hn s
  · rw [toByteArray.eq_def]
    exact if_neg hc
  · rw [toByteArray.eq_def]
    exact (if_pos ⟨hc.1, by omega⟩).trans (if_pos ⟨hc.2, hd⟩)

/-- The bytes of a text are those of its code points. -/
theorem toByteArray_flatMap {ns : List ℕ} (h : ∀ n ∈ ns, Scalar n) :
    toByteArray (ns.flatMap codeUnits) = ns.flatMap utf8 := by
  induction ns with
  | nil => rfl
  | cons n ns ih =>
    obtain ⟨hn, hns⟩ := List.forall_mem_cons.mp h
    rw [List.flatMap_cons, toByteArray_append hn, ih hns, List.flatMap_cons]

/-- A byte that continues a sequence without ending it. -/
theorem utf8Decode_next {st : Utf8State} {b : ℕ} {s : Bytes} (hb : b < 256)
    (hlo : st.lower ≤ b) (hhi : b ≤ st.upper) (hmore : st.needed ≠ 1) :
    utf8Decode (some st) (BitVec.ofNat 8 b :: s)
      = utf8Decode (some { code := st.code * 0x40 + b % 0x40, needed := st.needed - 1 }) s := by
  have hbyte : (BitVec.ofNat 8 b).toNat = b := by rw [BitVec.toNat_ofNat, Nat.mod_eq_of_lt hb]
  rw [utf8Decode, hbyte, if_pos ⟨hlo, hhi⟩]
  exact if_neg hmore

/-- The byte that ends a sequence. -/
theorem utf8Decode_last {st : Utf8State} {b : ℕ} {s : Bytes} (hb : b < 256)
    (hlo : st.lower ≤ b) (hhi : b ≤ st.upper) (hlast : st.needed = 1) :
    utf8Decode (some st) (BitVec.ofNat 8 b :: s)
      = codeUnits (st.code * 0x40 + b % 0x40) ++ utf8Decode none s := by
  have hbyte : (BitVec.ofNat 8 b).toNat = b := by rw [BitVec.toNat_ofNat, Nat.mod_eq_of_lt hb]
  rw [utf8Decode, hbyte, if_pos ⟨hlo, hhi⟩]
  exact if_pos hlast

/-- The first byte of a sequence of more than one. -/
theorem utf8Decode_lead {st : Utf8State} {b : ℕ} {s : Bytes} (hb : b < 256)
    (hst : utf8Lead b = ([], some st)) :
    utf8Decode none (BitVec.ofNat 8 b :: s) = utf8Decode (some st) s := by
  have hbyte : (BitVec.ofNat 8 b).toNat = b := by rw [BitVec.toNat_ofNat, Nat.mod_eq_of_lt hb]
  rw [utf8Decode, hbyte, hst]
  rfl

/-- A sequence of two bytes. -/
theorem utf8Decode_two {n : ℕ} (hlo : 0x80 ≤ n) (hhi : n < 0x800) (s : Bytes) :
    utf8Decode none (BitVec.ofNat 8 (0xC0 + n / 0x40) :: BitVec.ofNat 8 (0x80 + n % 0x40) :: s)
      = codeUnits n ++ utf8Decode none s := by
  have hlead : utf8Lead (0xC0 + n / 0x40) = ([], some { code := n / 0x40, needed := 1 }) := by
    rw [utf8Lead, if_neg (by omega), if_pos (by omega), Nat.add_sub_cancel_left]
  have hcode : n / 0x40 * 0x40 + (0x80 + n % 0x40) % 0x40 = n := by omega
  rw [utf8Decode_lead (by omega) hlead, utf8Decode_last (by omega) (by dsimp; omega)
    (by dsimp; omega) rfl]
  exact congrArg (fun k => codeUnits k ++ _) hcode

/-- A sequence of three bytes; the second one has no surrogates in its range. -/
theorem utf8Decode_three {n : ℕ} (hlo : 0x800 ≤ n) (hhi : n < 0x10000) (hn : Scalar n)
    (s : Bytes) : utf8Decode none (BitVec.ofNat 8 (0xE0 + n / 0x1000)
      :: BitVec.ofNat 8 (0x80 + n / 0x40 % 0x40) :: BitVec.ofNat 8 (0x80 + n % 0x40) :: s)
      = codeUnits n ++ utf8Decode none s := by
  rw [Scalar] at hn
  have hlead : utf8Lead (0xE0 + n / 0x1000) = ([], some
      { code := n / 0x1000, needed := 2, lower := if 0xE0 + n / 0x1000 = 0xE0 then 0xA0 else 0x80,
        upper := if 0xE0 + n / 0x1000 = 0xED then 0x9F else 0xBF }) := by
    rw [utf8Lead, if_neg (by omega), if_neg (by omega), if_pos (by omega), Nat.add_sub_cancel_left]
  have hcode : (n / 0x1000 * 0x40 + (0x80 + n / 0x40 % 0x40) % 0x40) * 0x40
      + (0x80 + n % 0x40) % 0x40 = n := by omega
  rw [utf8Decode_lead (by omega) hlead,
    utf8Decode_next (by omega) (by dsimp; split <;> omega) (by dsimp; split <;> omega)
      (Nat.succ_ne_self 1),
    utf8Decode_last (by omega) (by dsimp; omega) (by dsimp; omega) rfl]
  exact congrArg (fun k => codeUnits k ++ _) hcode

/-- A sequence of four bytes; the second one keeps it in the range of the code points. -/
theorem utf8Decode_four {n : ℕ} (hlo : 0x10000 ≤ n) (hhi : n < 0x110000) (s : Bytes) :
    utf8Decode none (BitVec.ofNat 8 (0xF0 + n / 0x40000)
      :: BitVec.ofNat 8 (0x80 + n / 0x1000 % 0x40) :: BitVec.ofNat 8 (0x80 + n / 0x40 % 0x40)
      :: BitVec.ofNat 8 (0x80 + n % 0x40) :: s) = codeUnits n ++ utf8Decode none s := by
  have hlead : utf8Lead (0xF0 + n / 0x40000) = ([], some
      { code := n / 0x40000, needed := 3,
        lower := if 0xF0 + n / 0x40000 = 0xF0 then 0x90 else 0x80,
        upper := if 0xF0 + n / 0x40000 = 0xF4 then 0x8F else 0xBF }) := by
    rw [utf8Lead, if_neg (by omega), if_neg (by omega), if_neg (by omega), if_pos (by omega),
      Nat.add_sub_cancel_left]
  have hcode : ((n / 0x40000 * 0x40 + (0x80 + n / 0x1000 % 0x40) % 0x40) * 0x40
      + (0x80 + n / 0x40 % 0x40) % 0x40) * 0x40 + (0x80 + n % 0x40) % 0x40 = n := by omega
  rw [utf8Decode_lead (by omega) hlead,
    utf8Decode_next (by omega) (by dsimp; split <;> omega) (by dsimp; split <;> omega)
      (Nat.succ_succ_ne_one 1),
    utf8Decode_next (by omega) (by dsimp; omega) (by dsimp; omega) (Nat.succ_ne_self 1),
    utf8Decode_last (by omega) (by dsimp; omega) (by dsimp; omega) rfl]
  exact congrArg (fun k => codeUnits k ++ _) hcode

/-- A code point is decoded from its bytes, whatever follows them. -/
theorem utf8Decode_append {n : ℕ} (hn : Scalar n) (s : Bytes) :
    utf8Decode none (utf8 n ++ s) = codeUnits n ++ utf8Decode none s := by
  by_cases h1 : n < 0x80
  · have hbyte : (BitVec.ofNat 8 n).toNat = n := by
      rw [BitVec.toNat_ofNat]
      omega
    rw [utf8, if_pos h1, List.singleton_append, utf8Decode, hbyte, utf8Lead, if_pos h1]
  by_cases h2 : n < 0x800
  · rw [utf8, if_neg h1, if_pos h2]
    exact utf8Decode_two (not_lt.mp h1) h2 s
  by_cases h3 : n < 0x10000
  · rw [utf8, if_neg h1, if_neg h2, if_pos h3]
    exact utf8Decode_three (not_lt.mp h2) h3 hn s
  · rw [utf8, if_neg h1, if_neg h2, if_neg h3]
    rw [Scalar] at hn
    exact utf8Decode_four (not_lt.mp h3) (by omega) s

/-- **UTF-8.** A text without unpaired surrogates is decoded from its bytes. -/
theorem Paired.decodeToString_toByteArray {s : Text} (h : Paired s) :
    decodeToString (toByteArray s) = s := by
  rw [Paired] at h
  rw [← flatMap_codePoints s, toByteArray_flatMap h]
  generalize codePoints s = ns at h
  induction ns with
  | nil => rfl
  | cons n ns ih =>
    obtain ⟨hn, hns⟩ := List.forall_mem_cons.mp h
    rw [List.flatMap_cons, decodeToString, utf8Decode_append hn, List.flatMap_cons]
    exact congrArg _ (ih hns)

end TonWallet.Encoding
