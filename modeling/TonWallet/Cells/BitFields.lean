import TonWallet.Cells.BitString

/-!
# Numbers, amounts and addresses in bit strings

The writers and the readers of `BitString.java`. A writer refuses a value that
does not fit into its width, and appends the bits of any other.

* `writeUint_eq`, `writeInt_eq`, `writeBytes_eq`, `writeCoins_eq`, `writeAddress_eq`,
  `writeBitString_eq`: the bits that are appended.
* `writeUint_eq_ok`, `writeCoins_eq_ok`: the values that are written.
* `readBits_ok`, `readUint_ok`, `readInt_ok`: what the readers take from the bits
  that remain.
-/

namespace TonWallet.Cells

open TonWallet.Encoding
open BitList (unpack)

namespace BitString

/-! ## Writers -/

/-- The binary digits that `writeUint` writes one by one. -/
def binary (number bitLength : ℕ) : List Char :=
  let s := Nat.toDigits 2 number
  if s.length ≠ bitLength then List.replicate (bitLength - s.length) '0' ++ s else s

/-- `writeUint` (`BitString.java` lines 165–185). -/
def writeUint (bs : BitString) (number : ℤ) (bitLength : ℕ) : Except Fault BitString :=
  if number < 0 then .error (.error (text "Unsigned number cannot be less than 0"))
  else if bitLength = 0 ∨ bitLength < number.toNat.size then
    if number = 0 then .ok bs
    else .error (.error (text "bitLength is too small for number, got number=" ++ intText number
      ++ text ", bitLength=" ++ intText bitLength))
  else bs.writeBitArray (((binary number.toNat bitLength).take bitLength).map (· == '1'))

/-- `writeInt` (`BitString.java` lines 203–225), for a positive length. -/
def writeInt (bs : BitString) (number : ℤ) (bitLength : ℕ) : Except Fault BitString :=
  if bitLength = 1 then
    if number = -1 then bs.writeBit true
    else if number = 0 then bs.writeBit false
    else .error (.error (text "bitLength is too small for number"))
  else if number < 0 then do
    let bs ← bs.writeBit true
    bs.writeUint (2 ^ (bitLength - 1) + number) (bitLength - 1)
  else do
    let bs ← bs.writeBit false
    bs.writeUint number (bitLength - 1)

/-- `writeUint8` (`BitString.java` lines 232–234). -/
def writeUint8 (bs : BitString) (ui8 : ℤ) : Except Fault BitString := bs.writeUint ui8 8

/-- `writeBytes` (`BitString.java` lines 241–245). -/
def writeBytes (bs : BitString) (ui8 : Bytes) : Except Fault BitString :=
  ui8.foldlM (fun bs b => bs.writeUint8 (b.toNat : ℤ)) bs

/-- `writeString` (`BitString.java` lines 252–254). -/
def writeString (bs : BitString) (value : Text) : Except Fault BitString :=
  bs.writeBytes (toByteArray value)

/-- `writeCoins` (`BitString.java` lines 259–274). -/
def writeCoins (bs : BitString) (amount : ℤ) : Except Fault BitString :=
  if amount < 0 then .error (.error (text "Coins value must be positive."))
  else if amount = 0 then bs.writeUint 0 4
  else
    let bytesSize := (amount.toNat.size + 7) / 8
    if 16 ≤ bytesSize then
      .error (.error (text "Amount is too big. Maximum amount 2^120-1"))
    else do
      let bs ← bs.writeUint bytesSize 4
      bs.writeUint amount (bytesSize * 8)

/-- `writeAddress` (`BitString.java` lines 286–295). -/
def writeAddress (bs : BitString) (address : Option Address) : Except Fault BitString :=
  match address with
  | none => bs.writeUint 0 2
  | some address => do
    let bs ← bs.writeUint 2 2
    let bs ← bs.writeUint 0 1
    let bs ← bs.writeInt address.wc.toInt 8
    bs.writeBytes address.hashPart

/-- `writeBitString` (`BitString.java` lines 302–306). -/
def writeBitString (bs anotherBitString : BitString) : Except Fault BitString :=
  (List.range' anotherBitString.readCursor
    (anotherBitString.writeCursor - anotherBitString.readCursor)).foldlM
    (fun bs i => do bs.writeBit (← anotherBitString.get i)) bs

theorem size_le {n w : ℕ} : ¬ w < n.size ↔ n < 2 ^ w := by
  rw [Nat.not_lt, Nat.size_le]

/-- The digits are the bits. -/
theorem map_binary {n w : ℕ} (hw : w ≠ 0) (hn : n < 2 ^ w) :
    ((binary n w).take w).map (· == '1') = BitList.ofNat w n := by
  have hpad : binary n w = (BitList.ofNat w n).map BitList.digit := by
    rw [binary, ← BitList.fixed_two,
      ← Digits.pad_toDigits Nat.one_lt_two (Nat.pos_of_ne_zero hw) hn]
    split
    · rfl
    · rename_i h
      rw [not_not.mp h, Nat.sub_self]
      rfl
  rw [hpad, List.take_of_length_le (by simp), List.map_map]
  exact (List.map_congr_left fun b _ => by cases b <;> rfl).trans (List.map_id _)

/-- A number that fits is written as its bits. -/
theorem writeUint_eq {bs : BitString} {n w : ℕ} (h : n < 2 ^ w) :
    bs.writeUint n w = bs.writeBitArray (BitList.ofNat w n) := by
  rw [writeUint, if_neg (by omega), Int.toNat_natCast]
  rcases Nat.eq_zero_or_pos w with rfl | hw
  · rw [if_pos (.inl rfl), if_pos (by simpa using h)]
    rfl
  · rw [if_neg (by rw [not_or, size_le]; exact ⟨by omega, h⟩), map_binary (by omega) h]

/-- A number is written only if it fits. -/
theorem writeUint_eq_ok {bs bs' : BitString} {z : ℤ} {w : ℕ} (h : bs.writeUint z w = .ok bs') :
    ∃ n : ℕ, z = n ∧ n < 2 ^ w ∧ bs.writeBitArray (BitList.ofNat w n) = .ok bs' := by
  rw [writeUint] at h
  split at h
  · cases h
  · obtain ⟨n, rfl⟩ := Int.eq_ofNat_of_zero_le (show 0 ≤ z by omega)
    rw [Int.toNat_natCast] at h
    have hfits : n < 2 ^ w := by
      split at h
      · split at h
        · rename_i hz
          rw [Int.natCast_eq_zero.mp hz]
          exact Nat.two_pow_pos w
        · cases h
      · rename_i hw
        exact size_le.mp fun hlt => hw (.inr hlt)
    refine ⟨n, rfl, hfits, ?_⟩
    rw [← writeUint_eq hfits, writeUint, if_neg (by omega), Int.toNat_natCast]
    exact h

/-- The bits of a signed number, in two's complement. -/
def intBits (w : ℕ) (z : ℤ) : List Bool := BitList.ofNat w (z % 2 ^ w).toNat

/-- The numbers of `w` bits with a sign. -/
def IntFits (w : ℕ) (z : ℤ) : Prop := 0 < w ∧ -2 ^ (w - 1) ≤ z ∧ z < 2 ^ (w - 1)

instance (w : ℕ) (z : ℤ) : Decidable (IntFits w z) := inferInstanceAs (Decidable (_ ∧ _))

/-- A signed number is its sign and the remaining bits. -/
theorem intBits_eq {w : ℕ} {z : ℤ} (h : IntFits (w + 1) z) : intBits (w + 1) z
    = decide (z < 0) :: BitList.ofNat w (if z < 0 then 2 ^ w + z else z).toNat := by
  obtain ⟨-, hlo, hhi⟩ := h
  rw [Nat.add_sub_cancel] at hlo hhi
  have hpow : (2 : ℤ) ^ (w + 1) = 2 * 2 ^ w := by ring
  have hcast : ((2 ^ w : ℕ) : ℤ) = 2 ^ w := by push_cast; rfl
  have hmod : (z % 2 ^ (w + 1)).toNat
      = (if z < 0 then 2 ^ w else 0) + (if z < 0 then 2 ^ w + z else z).toNat := by
    split
    · rw [← Int.add_emod_right, Int.emod_eq_of_lt (by omega) (by omega)]
      omega
    · rw [Int.emod_eq_of_lt (by omega) (by omega), Nat.zero_add]
  set n := (if z < 0 then 2 ^ w + z else z).toNat with hn
  have hlt : n < 2 ^ w := by
    rw [hn]
    split <;> omega
  rw [intBits, hmod, BitList.ofNat_succ]
  congr 1
  · by_cases hz : z < 0
    · rw [if_pos hz, Nat.testBit_two_pow_add_eq, Nat.testBit_lt_two_pow hlt, decide_eq_true hz]
      rfl
    · rw [if_neg hz, Nat.zero_add, Nat.testBit_lt_two_pow hlt, decide_eq_false hz]
  · rw [← BitList.ofNat_mod (Nat.le_refl w)]
    split
    · rw [Nat.add_mod_left, BitList.ofNat_mod (Nat.le_refl w)]
    · rw [Nat.zero_add, BitList.ofNat_mod (Nat.le_refl w)]

/-- A signed number that fits is written in two's complement. -/
theorem writeInt_eq {bs : BitString} {w : ℕ} {z : ℤ} (h : IntFits w z) :
    bs.writeInt z w = bs.writeBitArray (intBits w z) := by
  obtain _ | w := w
  · exact absurd h.1 (Nat.lt_irrefl 0)
  obtain ⟨-, hlo, hhi⟩ := id h
  rw [Nat.add_sub_cancel] at hlo hhi
  have hcast : ((2 ^ w : ℕ) : ℤ) = 2 ^ w := by push_cast; rfl
  rw [intBits_eq h, writeBitArray_cons, writeInt]
  by_cases hw : w = 0
  · subst hw
    obtain rfl | rfl : z = -1 ∨ z = 0 := by omega
    · exact (bind_pure _).symm
    · exact (bind_pure _).symm
  · rw [if_neg (by omega), Nat.add_sub_cancel]
    split
    · rename_i hz
      obtain ⟨n, hn⟩ := Int.eq_ofNat_of_zero_le (show 0 ≤ 2 ^ w + z by omega)
      rw [decide_eq_true hz, hn, Int.toNat_natCast]
      simp only [writeUint_eq (show n < 2 ^ w by omega)]
    · rename_i hz
      obtain ⟨n, rfl⟩ := Int.eq_ofNat_of_zero_le (show 0 ≤ z by omega)
      rw [decide_eq_false hz, Int.toNat_natCast]
      simp only [writeUint_eq (show n < 2 ^ w by omega)]

theorem writeBytes_eq (bs : BitString) (ui8 : Bytes) :
    bs.writeBytes ui8 = bs.writeBitArray (unpack ui8) := by
  induction ui8 generalizing bs with
  | nil => rfl
  | cons b ui8 ih =>
    have hstep : bs.writeBytes (b :: ui8)
        = bs.writeUint8 (b.toNat : ℤ) >>= fun bs => bs.writeBytes ui8 := rfl
    rw [hstep, BitList.unpack_cons, writeBitArray_append, writeUint8, writeUint_eq b.isLt]
    simp only [ih]

/-- The bits of an amount: the number of its bytes, and the bytes. -/
def coinsBits (n : ℕ) : List Bool :=
  BitList.ofNat 4 ((n.size + 7) / 8) ++ BitList.ofNat ((n.size + 7) / 8 * 8) n

theorem lt_two_pow_size (n : ℕ) : n < 2 ^ ((n.size + 7) / 8 * 8) :=
  (Nat.lt_size_self n).trans_le (Nat.pow_le_pow_right Nat.two_pos (by omega))

theorem writeCoins_eq {bs : BitString} {n : ℕ} (h : n < 2 ^ 120) :
    bs.writeCoins n = bs.writeBitArray (coinsBits n) := by
  have hsize : n.size ≤ 120 := Nat.size_le.mpr h
  rw [writeCoins, if_neg (by omega), coinsBits, writeBitArray_append]
  split
  · rename_i hz
    rw [Int.natCast_eq_zero.mp hz]
    exact (writeUint_eq (n := 0) (w := 4) (by decide)).trans (bind_pure _).symm
  · simp only [Int.toNat_natCast]
    rw [if_neg (by omega), ← writeUint_eq (show (n.size + 7) / 8 < 2 ^ 4 by omega)]
    simp only [writeUint_eq (lt_two_pow_size n)]

/-- The amounts that are written. -/
theorem writeCoins_eq_ok {bs bs' : BitString} {z : ℤ} (h : bs.writeCoins z = .ok bs') :
    ∃ n : ℕ, z = n ∧ n < 2 ^ 120 := by
  rw [writeCoins] at h
  split at h
  · cases h
  · obtain ⟨n, rfl⟩ := Int.eq_ofNat_of_zero_le (show 0 ≤ z by omega)
    refine ⟨n, rfl, ?_⟩
    split at h
    · rename_i hz
      rw [Int.natCast_eq_zero.mp hz]
      exact Nat.two_pow_pos _
    · simp only [Int.toNat_natCast] at h
      split at h
      · cases h
      · exact Nat.size_le.mp (by omega)

/-- The bits of an address. -/
def addressBits : Option Address → List Bool
  | none => [false, false]
  | some a => [true, false, false] ++ intBits 8 a.wc.toInt ++ unpack a.hashPart

theorem intFits_byte (b : Byte) : IntFits 8 b.toInt :=
  ⟨by decide, BitVec.le_toInt b, BitVec.toInt_lt⟩

theorem writeAddress_eq (bs : BitString) (address : Option Address) :
    bs.writeAddress address = bs.writeBitArray (addressBits address) := by
  cases address with
  | none => exact writeUint_eq (n := 0) (w := 2) (by decide)
  | some a =>
    have htag : ∀ bs : BitString, bs.writeUint 2 2 = bs.writeBitArray [true, false] :=
      fun bs => writeUint_eq (n := 2) (w := 2) (by decide)
    have hzero : ∀ bs : BitString, bs.writeUint 0 1 = bs.writeBitArray [false] :=
      fun bs => writeUint_eq (n := 0) (w := 1) (by decide)
    simp only [writeAddress, htag, hzero, writeInt_eq (intFits_byte a.wc), writeBytes_eq]
    rw [addressBits, writeBitArray_append, writeBitArray_append,
      show [true, false, false] = [true, false] ++ [false] from rfl, writeBitArray_append]
    simp only [bind_assoc]

/-- The bits between the cursors. -/
def remaining (bs : BitString) : List Bool := bs.bits.drop bs.readCursor

/-- The bits that stand in the array from position `r` on. -/
theorem get_cons (bs : BitString) {r : ℕ} (h : r < 8 * bs.array.length) : ∃ v,
    bs.get r = .ok v ∧ (unpack bs.array).drop r = v :: (unpack bs.array).drop (r + 1) := by
  have hlt : r < (unpack bs.array).length := by rwa [BitList.length_unpack]
  exact ⟨_, get_eq.mpr (List.getElem?_eq_getElem hlt), List.drop_eq_getElem_cons hlt⟩

theorem writeBitString_eq {bs bs₂ : BitString} (hf : bs₂.Fits) :
    bs.writeBitString bs₂ = bs.writeBitArray bs₂.remaining := by
  have hcopy : ∀ k r (bs : BitString), r + k ≤ 8 * bs₂.array.length →
      (List.range' r k).foldlM (fun bs i => do bs.writeBit (← bs₂.get i)) bs
        = bs.writeBitArray (((unpack bs₂.array).drop r).take k) := by
    intro k
    induction k with
    | zero => exact fun _ _ _ => rfl
    | succ k ih =>
      intro r bs hr
      obtain ⟨v, hget, hdrop⟩ := get_cons bs₂ (r := r) (by omega)
      rw [List.range'_succ, List.foldlM_cons, hget, hdrop, List.take_succ_cons,
        writeBitArray_cons]
      exact bind_congr fun bs => ih (r + 1) bs (by omega)
  have hle : bs₂.writeCursor ≤ 8 * bs₂.array.length := hf.trans (Nat.min_le_right _ _)
  rw [remaining, bits, List.drop_take]
  rcases Nat.le_or_le bs₂.readCursor bs₂.writeCursor with h | h
  · exact hcopy _ _ bs (by omega)
  · rw [writeBitString, Nat.sub_eq_zero_of_le h]
    rfl

/-! ## Readers -/

/-- `readBit` (`BitString.java` lines 322–329). It does not look at the write cursor. -/
def readBit (bs : BitString) : Except Fault (Bool × BitString) := do
  let result ← bs.get bs.readCursor
  return (result, { bs with readCursor := bs.readCursor + 1 })

/-- `readBit` called `n` times. -/
def readBitTimes : ℕ → BitString → Except Fault (List Bool × BitString)
  | 0, bs => .ok ([], bs)
  | n + 1, bs => do
    let (b, bs) ← bs.readBit
    let (ba, bs) ← readBitTimes n bs
    return (b :: ba, bs)

/-- `readBits` (`BitString.java` lines 353–359). -/
def readBits (bs : BitString) (n : ℕ) : Except Fault (BitString × BitString) := do
  let (ba, bs) ← readBitTimes n bs
  let result ← (ofLength n).writeBitArray ba
  return (result, bs)

/-- `readUint` (`BitString.java` lines 392–406). -/
def readUint (bs : BitString) (bitLength : ℕ) : Except Fault (ℤ × BitString) := do
  Fault.throwIf (bitLength < 1) (.error (text "Incorrect bitLength"))
  let (ba, bs) ← readBitTimes bitLength bs
  let s := ba.map BitList.digit
  return ((Nat.ofDigitChars 2 s 0 : ℕ), bs)

/-- `readInt` (`BitString.java` lines 414–431). -/
def readInt (bs : BitString) (bitLength : ℕ) : Except Fault (ℤ × BitString) := do
  Fault.throwIf (bitLength < 1) (.error (text "Incorrect bitLength"))
  let (sign, bs) ← bs.readBit
  if bitLength = 1 then
    return (if sign then -1 else 0, bs)
  else
    let (number, bs) ← bs.readUint (bitLength - 1)
    return (if sign then number - 2 ^ (bitLength - 1) else number, bs)

/-- The bits `ba` are read: the cursor moves over them. -/
def skip (bs : BitString) (n : ℕ) : BitString := { bs with readCursor := bs.readCursor + n }

theorem remaining_skip {bs : BitString} (as : List Bool) {rest : List Bool}
    (h : bs.remaining = as ++ rest) :
    (bs.skip as.length).remaining = rest := by
  have hdrop : (bs.skip as.length).remaining = bs.remaining.drop as.length := by
    rw [remaining, remaining, List.drop_drop]
    rfl
  rw [hdrop, h, List.drop_left]

/-- The bits that remain are those the array has from the read cursor on. -/
theorem remaining_cons {bs : BitString} {b : Bool} {rest : List Bool}
    (h : bs.remaining = b :: rest) : bs.readBit = .ok (b, bs.skip 1) := by
  have hbit : (unpack bs.array)[bs.readCursor]? = some b := by
    have hget : bs.bits[bs.readCursor]? = some b := by
      have hhead := congrArg (fun l => l[0]?) h
      rwa [remaining, List.getElem?_drop, Nat.add_zero] at hhead
    rw [bits, List.getElem?_take] at hget
    split at hget
    · exact hget
    · cases hget
  rw [readBit, get_eq.mpr hbit]
  rfl

theorem readBitTimes_ok {bs : BitString} {as rest : List Bool} (h : bs.remaining = as ++ rest) :
    readBitTimes as.length bs = .ok (as, bs.skip as.length) := by
  induction as generalizing bs with
  | nil => rfl
  | cons b as ih =>
    have hskip : (bs.skip 1).remaining = as ++ rest := remaining_skip [b] h
    have hmove : (bs.skip 1).skip as.length = bs.skip (as.length + 1) := by
      rw [skip, skip, skip, Nat.add_assoc, Nat.add_comm 1]
    rw [List.length_cons, readBitTimes, remaining_cons h]
    simp only [Fault.ok_bind, ih hskip, hmove]
    rfl

theorem capacity_ofLength (n : ℕ) : n ≤ (ofLength n).capacity := by
  simp only [capacity, ofLength, List.length_replicate]
  omega

theorem fits_ofLength (n : ℕ) : (ofLength n).Fits := Nat.zero_le _

@[simp] theorem bits_ofLength (n : ℕ) : (ofLength n).bits = [] := rfl

/-- Bits are read into a bit string of their own. -/
theorem readBits_ok {bs : BitString} {as rest : List Bool} (h : bs.remaining = as ++ rest) :
    ∃ result, bs.readBits as.length = .ok (result, bs.skip as.length) ∧
      Appends (ofLength as.length) as result := by
  obtain ⟨result, hwrite, hresult⟩ := writeBitArray_ok (ofLength as.length) as
    (by simpa [ofLength] using capacity_ofLength as.length)
  refine ⟨result, ?_, hresult⟩
  rw [readBits, readBitTimes_ok h]
  simp only [Fault.ok_bind, hwrite]
  rfl

/-- The number that is read from digits is the number of the bits. -/
theorem ofDigitChars_digit (bs : List Bool) :
    Nat.ofDigitChars 2 (bs.map BitList.digit) 0 = BitList.value bs := by
  have hrun : ∀ acc, Nat.ofDigitChars 2 (bs.map BitList.digit) acc
      = acc * 2 ^ bs.length + BitList.value bs := by
    induction bs with
    | nil => simp
    | cons b bs ih =>
      intro acc
      rw [List.map_cons, Nat.ofDigitChars_cons, ih, BitList.value_cons, List.length_cons]
      cases b
      · simp [BitList.digit]
        ring
      · simp [BitList.digit]
        ring
  rw [hrun, Nat.zero_mul, Nat.zero_add]

theorem readUint_ok {bs : BitString} {as rest : List Bool} (hne : as ≠ [])
    (h : bs.remaining = as ++ rest) :
    bs.readUint as.length = .ok ((BitList.value as : ℕ), bs.skip as.length) := by
  have hpos := List.length_pos_iff.mpr hne
  rw [readUint, Fault.throwIf_bind (by omega), readBitTimes_ok h]
  simp only [Fault.ok_bind, ofDigitChars_digit]
  rfl

/-- A number in two's complement is read again. -/
theorem readInt_ok {bs : BitString} {w : ℕ} {z : ℤ} {rest : List Bool} (hz : IntFits w z)
    (h : bs.remaining = intBits w z ++ rest) : bs.readInt w = .ok (z, bs.skip w) := by
  obtain _ | w := w
  · exact absurd hz.1 (Nat.lt_irrefl 0)
  rw [intBits_eq hz, List.cons_append] at h
  obtain ⟨-, hlo, hhi⟩ := hz
  rw [Nat.add_sub_cancel] at hlo hhi
  have hcast : ((2 ^ w : ℕ) : ℤ) = 2 ^ w := by push_cast; rfl
  rw [readInt, Fault.throwIf_bind (by omega), remaining_cons h]
  simp only [Fault.ok_bind]
  by_cases hw : w = 0
  · subst hw
    obtain rfl | rfl : z = -1 ∨ z = 0 := by omega
    · rfl
    · rfl
  · set n := (if z < 0 then 2 ^ w + z else z).toNat with hn
    have hlt : n < 2 ^ w := by
      rw [hn]
      split <;> omega
    have hne : BitList.ofNat w n ≠ [] := by
      rw [ne_eq, ← List.length_eq_zero_iff, BitList.length_ofNat]
      exact hw
    have hread := readUint_ok hne (remaining_skip [decide (z < 0)] h)
    rw [BitList.length_ofNat, BitList.value_ofNat_of_lt hlt] at hread
    rw [if_neg (by omega), Nat.add_sub_cancel,
      show bs.skip 1 = bs.skip [decide (z < 0)].length from rfl,
      hread]
    have hvalue : (if decide (z < 0) = true then ((n : ℕ) : ℤ) - 2 ^ w else (n : ℕ)) = z := by
      by_cases hz : z < 0
      · simp only [decide_eq_true hz, if_true]
        rw [hn, if_pos hz]
        omega
      · simp only [decide_eq_false hz, Bool.false_eq_true, if_false]
        rw [hn, if_neg hz]
        omega
    simp only [Fault.ok_bind, hvalue]
    rw [skip, skip, skip, List.length_singleton, Nat.add_assoc, Nat.add_comm 1]
    rfl

end BitString

end TonWallet.Cells
