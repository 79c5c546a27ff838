import TonWallet.Cells.BitString

/-!
# Whole bytes

A cell is hashed and stored as whole bytes: bits that do not fill the last byte
are followed by a one and zeros, which are taken off again when it is read.

* `getTopUppedArray_eq_ok`: the array, if there is room to fill it up.
* `setTopUppedArray_topUp`: the bits are found again.
-/

namespace TonWallet.Cells

open TonWallet.Encoding
open BitList (unpack)

namespace BitString

/-- The size of the array for `n` bits, `ceil(n / 8)`. -/
def bytesFor (n : ℕ) : ℕ := (n + 7) / 8

/-- `getTopUppedArray` (`BitString.java` lines 618–631). -/
def getTopUppedArray (bs : BitString) : Except Fault Bytes := do
  let tu := bytesFor bs.writeCursor * 8 - bs.writeCursor
  let ret ← bs.writeBitArray (if 0 < tu then true :: List.replicate (tu - 1) false else [])
  copyOfRange ret.array 0 (bytesFor ret.writeCursor)

/-- The loop that looks for the end bit. -/
def findEndBit : ℕ → BitString → Except Fault BitString
  | 0, _ => .error (.error (text "Incorrect TopUppedArray"))
  | c + 1, bs => do
    let bs := { bs with writeCursor := bs.writeCursor - 1 }
    if ← bs.get bs.writeCursor then bs.off bs.writeCursor else findEndBit c bs

/-- `setTopUppedArray` (`BitString.java` lines 596–616). -/
def setTopUppedArray (bs : BitString) (arr : Bytes) (fulfilledBytes : Bool) :
    Except Fault BitString :=
  let length := arr.length * 8
  let bs := { bs with length, array := arr, writeCursor := length }
  if fulfilledBytes ∨ length = 0 then .ok bs else findEndBit 7 bs

/-- Bits that are filled up to whole bytes: a one, and zeros. -/
def topUp (ba : List Bool) : List Bool :=
  if ba.length % 8 = 0 then ba else ba ++ true :: List.replicate (7 - ba.length % 8) false

theorem length_topUp (ba : List Bool) : (topUp ba).length = bytesFor ba.length * 8 := by
  rw [topUp, bytesFor]
  split
  · omega
  · rw [List.length_append, List.length_cons, List.length_replicate]
    omega

theorem topUp_dvd (ba : List Bool) : 8 ∣ (topUp ba).length := ⟨bytesFor ba.length, by
  rw [length_topUp, Nat.mul_comm]⟩

/-- The array is filled up if there is room for it. -/
theorem getTopUppedArray_eq_ok {bs : BitString} (hf : bs.Fits) {arr : Bytes} :
    bs.getTopUppedArray = .ok arr ↔
      bytesFor bs.writeCursor * 8 ≤ bs.capacity ∧ unpack arr = topUp bs.bits := by
  have hlen := length_bits hf
  set pad := if 0 < bytesFor bs.writeCursor * 8 - bs.writeCursor
    then true :: List.replicate (bytesFor bs.writeCursor * 8 - bs.writeCursor - 1) false
    else [] with hpad
  have htop : topUp bs.bits = bs.bits ++ pad := by
    rw [topUp, hlen, hpad, bytesFor]
    split
    · rw [if_neg (by omega), List.append_nil]
    · rw [if_pos (by omega)]
      congr 3
      omega
  have hpadlen : bs.writeCursor + pad.length = bytesFor bs.writeCursor * 8 := by
    have h := length_topUp bs.bits
    rwa [htop, List.length_append, hlen] at h
  have hbytes : ∀ ret, Appends bs pad ret → copyOfRange ret.array 0 (bytesFor ret.writeCursor)
      = .ok (ret.array.take (bytesFor bs.writeCursor)) ∧
        unpack (ret.array.take (bytesFor bs.writeCursor)) = topUp bs.bits := by
    intro ret ha
    have hcursor : ret.writeCursor = 8 * bytesFor bs.writeCursor := by
      rw [ha.writeCursor, hpadlen, Nat.mul_comm]
    have hfor : bytesFor ret.writeCursor = bytesFor bs.writeCursor := by
      rw [hcursor, bytesFor, bytesFor]
      omega
    have hbits := ha.bits
    rw [← htop] at hbits
    have htake : unpack (ret.array.take (bytesFor bs.writeCursor)) = topUp bs.bits := by
      rw [BitList.unpack_take, ← hcursor]
      exact hbits
    have hsize : bytesFor bs.writeCursor ≤ ret.array.length := by
      have h := congrArg List.length htake
      rw [BitList.length_unpack, List.length_take, length_topUp, hlen] at h
      omega
    rw [hfor, copyOfRange_prefix _ hsize]
    exact ⟨rfl, htake⟩
  rw [getTopUppedArray]
  simp only [← hpad]
  rw [Fault.bind_eq_ok, ← hpadlen, ← writeBitArray_ok_iff hf]
  constructor
  · rintro ⟨ret, hret, hcopy⟩
    obtain ⟨he, hunpack⟩ := hbytes ret (writeBitArray_appends hret)
    obtain rfl := Except.ok.inj (he.symm.trans hcopy)
    exact ⟨⟨ret, hret⟩, hunpack⟩
  · rintro ⟨⟨ret, hret⟩, harr⟩
    obtain ⟨he, hunpack⟩ := hbytes ret (writeBitArray_appends hret)
    rw [← hunpack] at harr
    exact ⟨ret, hret, he.trans (congrArg _ (BitList.unpack_injective harr).symm)⟩

/-- A bit that was written is read. -/
theorem get_of_bits (bs : BitString) {n : ℕ} {v : Bool} (h : bs.bits[n]? = some v) :
    bs.get n = .ok v := by
  rw [bits, List.getElem?_take] at h
  split at h
  · exact get_eq.mpr h
  · cases h

theorem off_eq_ok {bs bs' : BitString} {n : ℕ} : bs.off n = .ok bs' ↔
    n < bs.capacity ∧ ∃ array, array.length = bs.array.length ∧
      unpack array = (unpack bs.array).set n false ∧ bs' = { bs with array } :=
  setByte_eq_ok fun b k hk => (on_off_byte n b k hk).2

/-- The cursor before the last bit. -/
def back (bs : BitString) : BitString := { bs with writeCursor := bs.writeCursor - 1 }

theorem back_spec {bs : BitString} (hf : bs.Fits) {ba : List Bool} {v : Bool}
    (h : bs.bits = ba ++ [v]) : bs.back.bits = ba ∧ bs.back.Fits ∧
      bs.back.writeCursor < bs.capacity ∧ bs.back.get bs.back.writeCursor = .ok v := by
  have hlen := length_bits hf
  rw [h, List.length_append, List.length_singleton] at hlen
  have hcursor : bs.back.writeCursor = ba.length := by
    rw [back, ← hlen]
    rfl
  rw [Fits] at hf ⊢
  refine ⟨?_, ?_, by omega, ?_⟩
  · have htake : bs.back.bits = bs.bits.take bs.back.writeCursor := by
      rw [bits, bits, List.take_take, Nat.min_eq_left (by omega)]
      rfl
    rw [htake, h, hcursor, List.take_left]
  · rw [hcursor]
    exact (Nat.le_succ _).trans (hlen.le.trans hf)
  · refine get_of_bits bs ?_
    rw [h, hcursor]
    simp

/-- The end bit is cleared. -/
theorem off_back {bs : BitString} (hf : bs.Fits) (h : bs.writeCursor < bs.capacity) :
    ∃ bs', bs.off bs.writeCursor = .ok bs' ∧ bs'.Fits ∧ bs'.bits = bs.bits ∧
      bs'.readCursor = bs.readCursor := by
  have hdvd : 8 ∣ ((unpack bs.array).set bs.writeCursor false).length := by
    rw [List.length_set, BitList.length_unpack]
    exact Dvd.intro _ rfl
  have hsize := BitList.length_pack hdvd
  rw [List.length_set, BitList.length_unpack] at hsize
  refine ⟨_, off_eq_ok.mpr ⟨h, _, by omega, BitList.unpack_pack hdvd, rfl⟩, ?_, ?_, rfl⟩
  · rw [Fits, capacity] at hf ⊢
    simp only
    omega
  · rw [bits, bits]
    simp only [BitList.unpack_pack hdvd, List.take_set_of_le (Nat.le_refl _)]

/-- The end bit is found behind fewer than `c` zeros. -/
theorem findEndBit_ok {c k : ℕ} (hk : k < c) {bs : BitString} (hf : bs.Fits) {ba : List Bool}
    (h : bs.bits = ba ++ true :: List.replicate k false) : ∃ bs', findEndBit c bs = .ok bs' ∧
      bs'.Fits ∧ bs'.bits = ba ∧ bs'.readCursor = bs.readCursor := by
  induction k generalizing c bs with
  | zero =>
    obtain ⟨c, rfl⟩ := Nat.exists_eq_succ_of_ne_zero (Nat.ne_zero_of_lt hk)
    obtain ⟨hbits, hf', hroom, hget⟩ := back_spec hf h
    obtain ⟨bs', hoff, hfits, hsame, hread⟩ := off_back hf' hroom
    refine ⟨bs', ?_, hfits, hsame.trans hbits, hread⟩
    rw [findEndBit]
    show bs.back.get bs.back.writeCursor >>= _ = _
    rw [hget]
    exact hoff
  | succ k ih =>
    obtain ⟨c, rfl⟩ := Nat.exists_eq_succ_of_ne_zero (Nat.ne_zero_of_lt hk)
    rw [List.replicate_succ', ← List.cons_append, ← List.append_assoc] at h
    obtain ⟨hbits, hf', -, hget⟩ := back_spec hf h
    obtain ⟨bs', hfind, hfits, hba, hread⟩ := ih (Nat.lt_of_succ_lt_succ hk) hf' hbits
    refine ⟨bs', ?_, hfits, hba, hread⟩
    rw [findEndBit]
    show bs.back.get bs.back.writeCursor >>= _ = _
    rw [hget]
    exact hfind

/-- What was filled up to whole bytes is found again. -/
theorem setTopUppedArray_topUp (bs : BitString) {arr : Bytes} {ba : List Bool}
    (h : unpack arr = topUp ba) : ∃ bs',
      bs.setTopUppedArray arr (ba.length % 8 = 0) = .ok bs' ∧ bs'.Fits ∧ bs'.bits = ba ∧
        bs'.readCursor = bs.readCursor := by
  have hlen : arr.length * 8 = (topUp ba).length := by rw [← h, BitList.length_unpack, Nat.mul_comm]
  set full : BitString := { bs with
    length := arr.length * 8, array := arr, writeCursor := arr.length * 8 } with hfull
  have hf : full.Fits := by
    simp only [hfull, Fits, capacity]
    omega
  have hbits : full.bits = topUp ba := by
    rw [← h, bits]
    exact List.take_of_length_le (by rw [BitList.length_unpack, Nat.mul_comm])
  rw [setTopUppedArray]
  simp only [← hfull, decide_eq_true_eq]
  by_cases hwhole : ba.length % 8 = 0
  · rw [if_pos (.inl hwhole)]
    rw [topUp, if_pos hwhole] at hbits
    exact ⟨full, rfl, hf, hbits, rfl⟩
  · have hlen' := length_topUp ba
    rw [bytesFor] at hlen'
    rw [if_neg (by omega)]
    rw [topUp, if_neg hwhole] at hbits
    exact findEndBit_ok (by omega) hf hbits

end BitString

end TonWallet.Cells
