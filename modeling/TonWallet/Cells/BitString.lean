import TonWallet.Cells.Address

/-!
# Bit strings

`BitString.java`: an array of bytes that bits are written to and read from, with
a cursor for each. Bit `n` is bit `7 - n % 8` of byte `n / 8`.

A write checks its position against the length, but the check lets the position
`length` itself pass, so as many bits fit as the length says, and one more where
the array has a byte for it (`capacity`).

* `writeBit_eq_ok`: a bit is written if and only if there is room for it.
* `Appends`, `writeBitArray_appends`: what is written stands behind what was there.
* `writeBitArray_ok_iff`: as many bits are written as there is room for.
-/

namespace TonWallet.Cells

open TonWallet.Encoding
open BitList (unpack)

/-- `BitString` (`BitString.java` lines 12–17). -/
structure BitString where
  array : Bytes
  writeCursor : ℕ
  readCursor : ℕ
  length : ℕ
deriving DecidableEq, Repr

namespace BitString

/-! ## The array -/

/-- `new BitString(length)` (`BitString.java` lines 30–35). -/
def ofLength (length : ℕ) : BitString where
  array := List.replicate ((length + 7) / 8) 0
  writeCursor := 0
  readCursor := 0
  length := length

/-- `getFreeBits` (`BitString.java` lines 42–44). -/
def getFreeBits (bs : BitString) : ℤ := bs.length - bs.writeCursor

/-- `1 << (7 - (n % 8))`. -/
def mask (n : ℕ) : BitVec 32 := 1#32 <<< (7 - n % 8)

/-- `get` (`BitString.java` lines 68–70). -/
def get (bs : BitString) (n : ℕ) : Except Fault Bool :=
  match bs.array[n / 8]? with
  | some b => .ok (decide (0 < (b.signExtend 32 &&& mask n).toInt))
  | none => .error (.thrown .indexOutOfBounds)

/-- `checkRange` (`BitString.java` lines 77–81). -/
def checkRange (bs : BitString) (n : ℕ) : Except Fault Unit :=
  Fault.throwIf (bs.length < n) (.error (text "BitString overflow"))

/-- What `on` and `off` do with the byte of bit `n`. -/
def setByte (bs : BitString) (n : ℕ) (f : BitVec 32 → BitVec 32) : Except Fault BitString := do
  bs.checkRange n
  match bs.array[n / 8]? with
  | some b => .ok { bs with array := bs.array.set (n / 8) ((f (b.signExtend 32)).setWidth 8) }
  | none => .error (.thrown .indexOutOfBounds)

/-- `on` and `off` (`BitString.java` lines 88–101). -/
def on (bs : BitString) (n : ℕ) : Except Fault BitString := bs.setByte n fun b => b ||| mask n
def off (bs : BitString) (n : ℕ) : Except Fault BitString := bs.setByte n fun b => b &&& ~~~mask n

def setBit (bs : BitString) (n : ℕ) (b : Bool) : Except Fault BitString :=
  if b then bs.on n else bs.off n

/-- `writeBit` (`BitString.java` lines 118–125). -/
def writeBit (bs : BitString) (b : Bool) : Except Fault BitString := do
  let bs ← bs.setBit bs.writeCursor b
  return { bs with writeCursor := bs.writeCursor + 1 }

/-- `writeBitArray` (`BitString.java` lines 144–148). -/
def writeBitArray (bs : BitString) (ba : List Bool) : Except Fault BitString :=
  ba.foldlM writeBit bs

/-- The bits between the beginning and the write cursor. -/
def bits (bs : BitString) : List Bool := (unpack bs.array).take bs.writeCursor

/-- How many bits fit. -/
def capacity (bs : BitString) : ℕ := min (bs.length + 1) (8 * bs.array.length)

/-- Not more bits were written than fit. -/
def Fits (bs : BitString) : Prop := bs.writeCursor ≤ bs.capacity

/-- The bits `ba` have been written behind those of `bs`. -/
structure Appends (bs : BitString) (ba : List Bool) (bs' : BitString) : Prop where
  bits : bs'.bits = bs.bits ++ ba
  writeCursor : bs'.writeCursor = bs.writeCursor + ba.length
  readCursor : bs'.readCursor = bs.readCursor
  length : bs'.length = bs.length
  size : bs'.array.length = bs.array.length

theorem Appends.refl (bs : BitString) : Appends bs [] bs where
  bits := by simp
  writeCursor := rfl
  readCursor := rfl
  length := rfl
  size := rfl

theorem Appends.trans {bs bs' bs'' : BitString} {as ba : List Bool} (h : Appends bs as bs')
    (h' : Appends bs' ba bs'') : Appends bs (as ++ ba) bs'' where
  bits := by rw [h'.bits, h.bits, List.append_assoc]
  writeCursor := by rw [h'.writeCursor, h.writeCursor, List.length_append, Nat.add_assoc]
  readCursor := h'.readCursor.trans h.readCursor
  length := h'.length.trans h.length
  size := h'.size.trans h.size

theorem Appends.capacity {bs bs' : BitString} {ba : List Bool} (h : Appends bs ba bs') :
    bs'.capacity = bs.capacity := by
  rw [BitString.capacity, BitString.capacity, h.length, h.size]

theorem length_bits {bs : BitString} (h : bs.Fits) : bs.bits.length = bs.writeCursor := by
  rw [bits, List.length_take, BitList.length_unpack]
  exact Nat.min_eq_left (h.trans (Nat.min_le_right _ _))

/-- A bit of a byte, taken by a mask. -/
theorem masked_eq (b : Byte) (n : ℕ) :
    decide (0 < (b.signExtend 32 &&& mask n).toInt) = b.getLsbD (7 - n % 8) := by
  have hpos : ∀ k < 8, 0 < (BitVec.twoPow 32 k).toInt := by decide
  have hk : 7 - n % 8 < 8 := by omega
  have hbit : (b.signExtend 32).getLsbD (7 - n % 8) = b.getLsbD (7 - n % 8) := by
    rw [BitVec.getLsbD_signExtend]
    simp [show 7 - n % 8 < 32 by omega, hk]
  rw [mask, ← BitVec.twoPow_eq, BitVec.and_twoPow, hbit]
  cases b.getLsbD (7 - n % 8) with
  | false => rfl
  | true => exact decide_eq_true (hpos _ hk)

theorem get_eq {bs : BitString} {n : ℕ} {v : Bool} : bs.get n = .ok v ↔
    (unpack bs.array)[n]? = some v := by
  rw [BitList.getElem?_unpack, get]
  cases h : bs.array[n / 8]? with
  | none => simp
  | some b =>
    simp only [masked_eq, Option.map_some, Except.ok.injEq, Option.some.injEq]

/-- A byte is written: its bit is set, the others stay. -/
theorem setByte_eq_ok {bs bs' : BitString} {n : ℕ} {v : Bool} {f : BitVec 32 → BitVec 32}
    (hf : ∀ b : Byte, ∀ k < 8, ((f (b.signExtend 32)).setWidth 8).getLsbD k
      = if k = 7 - n % 8 then v else b.getLsbD k) :
    bs.setByte n f = .ok bs' ↔ n < bs.capacity ∧ ∃ array, array.length = bs.array.length ∧
      unpack array = (unpack bs.array).set n v ∧ bs' = { bs with array } := by
  rw [setByte, Fault.bind_eq_ok]
  simp only [checkRange, Fault.throwIf_eq_ok, exists_const, capacity]
  cases h : bs.array[n / 8]? with
  | none =>
    have hlen := List.getElem?_eq_none_iff.mp h
    refine iff_of_false (fun h => by cases h.2) fun h => ?_
    have := (Nat.lt_min.mp h.1).2
    omega
  | some b =>
    obtain ⟨hlt, -⟩ := List.getElem?_eq_some_iff.mp h
    have hset := BitList.unpack_set h (hf b)
    constructor
    · rintro ⟨hn, he⟩
      exact ⟨by omega, _, by simp, hset, (Except.ok.inj he).symm⟩
    · rintro ⟨hn, array, -, harray, rfl⟩
      rw [← hset] at harray
      rw [BitList.unpack_injective harray]
      exact ⟨by omega, rfl⟩

/-- A bit of a byte that is set, or cleared. -/
theorem on_off_byte (n : ℕ) (b : Byte) (k : ℕ) (hk : k < 8) :
    ((b.signExtend 32 ||| mask n).setWidth 8).getLsbD k
      = (if k = 7 - n % 8 then true else b.getLsbD k) ∧
    ((b.signExtend 32 &&& ~~~mask n).setWidth 8).getLsbD k
      = (if k = 7 - n % 8 then false else b.getLsbD k) := by
  have hmask : (mask n).getLsbD k = decide (k = 7 - n % 8) := by
    rw [mask, BitVec.getLsbD_shiftLeft, BitVec.getLsbD_one]
    by_cases h : k = 7 - n % 8
    · simp [h]
      omega
    · have : ¬ (7 - n % 8 ≤ k ∧ k - (7 - n % 8) = 0) := by omega
      simp [h]
      omega
  have hsign : (b.signExtend 32).getLsbD k = b.getLsbD k := by
    rw [BitVec.getLsbD_signExtend]
    simp [show k < 32 by omega, hk]
  rw [BitVec.getLsbD_setWidth, BitVec.getLsbD_setWidth, BitVec.getLsbD_or, BitVec.getLsbD_and,
    BitVec.getLsbD_not, hmask, hsign]
  by_cases h : k = 7 - n % 8
  · simp [h]
    omega
  · simp [hk, h, show k < 32 by omega]

/-- A bit is appended if and only if there is room for it. -/
theorem writeBit_eq_ok {bs bs' : BitString} {b : Bool} : bs.writeBit b = .ok bs' ↔
    bs.writeCursor < bs.capacity ∧ ∃ array, array.length = bs.array.length ∧
      unpack array = (unpack bs.array).set bs.writeCursor b ∧
      bs' = { bs with array, writeCursor := bs.writeCursor + 1 } := by
  have hset : bs.setBit bs.writeCursor b = bs.setByte bs.writeCursor
        (if b then fun x => x ||| mask bs.writeCursor
          else fun x => x &&& ~~~mask bs.writeCursor) := by
    cases b <;> rfl
  have hbyte : ∀ x : Byte, ∀ k < 8, (((if b then fun x => x ||| mask bs.writeCursor
      else fun x => x &&& ~~~mask bs.writeCursor) (x.signExtend 32)).setWidth 8).getLsbD k
      = if k = 7 - bs.writeCursor % 8 then b else x.getLsbD k := by
    intro x k hk
    cases b
    · exact (on_off_byte bs.writeCursor x k hk).2
    · exact (on_off_byte bs.writeCursor x k hk).1
  rw [writeBit, hset, Fault.bind_eq_ok]
  simp only [setByte_eq_ok hbyte]
  constructor
  · rintro ⟨bs₁, ⟨hroom, array, hsize, harray, rfl⟩, he⟩
    exact ⟨hroom, array, hsize, harray, (Except.ok.inj he).symm⟩
  · rintro ⟨hroom, array, hsize, harray, rfl⟩
    exact ⟨_, ⟨hroom, array, hsize, harray, rfl⟩, rfl⟩

theorem writeBit_ok (bs : BitString) (h : bs.writeCursor < bs.capacity) (b : Bool) :
    ∃ bs', bs.writeBit b = .ok bs' := by
  have hlen : 8 ∣ ((unpack bs.array).set bs.writeCursor b).length := by
    rw [List.length_set, BitList.length_unpack]
    exact Dvd.intro _ rfl
  refine ⟨_, writeBit_eq_ok.mpr ⟨h, _, ?_, BitList.unpack_pack hlen, rfl⟩⟩
  have := BitList.length_pack hlen
  rw [List.length_set, BitList.length_unpack] at this
  omega

theorem writeBit_appends {bs bs' : BitString} {b : Bool} (h : bs.writeBit b = .ok bs') :
    Appends bs [b] bs' := by
  obtain ⟨hroom, array, hsize, harray, rfl⟩ := writeBit_eq_ok.mp h
  have hlt : bs.writeCursor < (unpack bs.array).length := by
    rw [BitList.length_unpack]
    exact hroom.trans_le (Nat.min_le_right _ _)
  refine ⟨?_, rfl, rfl, rfl, hsize⟩
  rw [bits, bits, harray, List.take_add_one, List.take_set_of_le (Nat.le_refl _),
    List.getElem?_set_self hlt]
  rfl

@[simp] theorem writeBitArray_nil (bs : BitString) : bs.writeBitArray [] = .ok bs := rfl

theorem writeBitArray_cons (bs : BitString) (b : Bool) (ba : List Bool) :
    bs.writeBitArray (b :: ba) = bs.writeBit b >>= fun bs => bs.writeBitArray ba := rfl

theorem writeBitArray_append (bs : BitString) (as ba : List Bool) :
    bs.writeBitArray (as ++ ba) = bs.writeBitArray as >>= fun bs => bs.writeBitArray ba :=
  List.foldlM_append

theorem writeBitArray_appends {bs bs' : BitString} {ba : List Bool}
    (h : bs.writeBitArray ba = .ok bs') : Appends bs ba bs' := by
  induction ba generalizing bs with
  | nil =>
    obtain rfl := Except.ok.inj h
    exact Appends.refl _
  | cons b ba ih =>
    rw [writeBitArray_cons] at h
    obtain ⟨bs₁, h₁, h⟩ := Fault.bind_eq_ok.mp h
    exact (writeBit_appends h₁).trans (ih h)

/-- As many bits are written as there is room for. -/
theorem writeBitArray_ok_iff {bs : BitString} (hf : bs.Fits) {ba : List Bool} :
    (∃ bs', bs.writeBitArray ba = .ok bs') ↔ bs.writeCursor + ba.length ≤ bs.capacity := by
  induction ba generalizing bs with
  | nil => exact iff_of_true ⟨bs, rfl⟩ hf
  | cons b ba ih =>
    rw [writeBitArray_cons]
    constructor
    · rintro ⟨bs', h⟩
      obtain ⟨bs₁, h₁, h⟩ := Fault.bind_eq_ok.mp h
      have ha := writeBit_appends h₁
      have hroom := (writeBit_eq_ok.mp h₁).1
      have hf₁ : bs₁.Fits := by
        rw [Fits, ha.writeCursor, ha.capacity]
        exact hroom
      have := (ih hf₁).mp ⟨bs', h⟩
      rw [ha.writeCursor, ha.capacity] at this
      simpa [Nat.add_comm, Nat.add_left_comm] using this
    · intro h
      rw [List.length_cons] at h
      obtain ⟨bs₁, h₁⟩ := writeBit_ok bs (by omega) b
      have ha := writeBit_appends h₁
      have hw : bs₁.writeCursor = bs.writeCursor + 1 := ha.writeCursor
      have hf₁ : bs₁.Fits := by
        rw [Fits, hw, ha.capacity]
        omega
      obtain ⟨bs', h'⟩ := (ih hf₁).mpr (by rw [hw, ha.capacity]; omega)
      exact ⟨bs', Fault.bind_eq_ok.mpr ⟨bs₁, h₁, h'⟩⟩

theorem writeBitArray_ok (bs : BitString) (ba : List Bool)
    (h : bs.writeCursor + ba.length ≤ bs.capacity) :
    ∃ bs', bs.writeBitArray ba = .ok bs' ∧ Appends bs ba bs' := by
  obtain ⟨bs', h'⟩ := (writeBitArray_ok_iff (Nat.le_of_add_right_le h : bs.Fits)).mpr h
  exact ⟨bs', h', writeBitArray_appends h'⟩

theorem fits_of_writeBitArray {bs bs' : BitString} {ba : List Bool} (hf : bs.Fits)
    (h : bs.writeBitArray ba = .ok bs') : bs'.Fits := by
  have ha := writeBitArray_appends h
  rw [Fits, ha.writeCursor, ha.capacity]
  exact (writeBitArray_ok_iff hf).mp ⟨bs', h⟩

end BitString

end TonWallet.Cells
