import TonWallet.Cells.BitFields

/-!
# Cells, built and parsed

A `Cell` has bits and references to other cells. `CellBuilder` stores values in a
cell, `CellSlice` loads them.

* `Stored`: what a builder appended to a cell. Nothing else of the cell changes.
* `CellSlice.Holds`: what a slice has not loaded yet. Each loader takes its part
  from the front (`Holds.loadBits`, `Holds.loadUint`, `Holds.loadInt`,
  `Holds.loadBytes`).
-/

namespace TonWallet.Cells

open TonWallet.Encoding
open BitList (unpack)

/-- `Cell` (`Cell.java` lines 19–23). -/
inductive Cell where
  | mk (bits : BitString) (refs : List Cell) (isExotic : Bool)

namespace Cell

def bits : Cell → BitString
  | mk bits _ _ => bits

def refs : Cell → List Cell
  | mk _ refs _ => refs

def isExotic : Cell → Bool
  | mk _ _ isExotic => isExotic

@[simp] theorem bits_mk (b : BitString) (r : List Cell) (e : Bool) : (mk b r e).bits = b := rfl
@[simp] theorem refs_mk (b : BitString) (r : List Cell) (e : Bool) : (mk b r e).refs = r := rfl
@[simp] theorem isExotic_mk (b : BitString) (r : List Cell) (e : Bool) :
    (mk b r e).isExotic = e := rfl

/-- `new Cell()` (`Cell.java` lines 25–31). -/
def empty : Cell := mk (.ofLength 1023) [] false

end Cell

/-! ## Builder -/

namespace CellBuilder

/-- `checkBitsOverflow` (`CellBuilder.java` lines 200–204). -/
def checkBitsOverflow (c : Cell) (length : ℕ) : Except Fault Unit :=
  Fault.throwIf (c.bits.getFreeBits < length)
    (.error (text "Bits overflow. Can't add " ++ intText length ++ text " bits. "
      ++ intText c.bits.getFreeBits ++ text " bits left."))

/-- `checkSign` (`CellBuilder.java` lines 206–210). -/
def checkSign (i : ℤ) : Except Fault Unit :=
  Fault.throwIf (i < 0) (.error (text "Integer " ++ intText i ++ text " must be unsigned"))

/-- `checkRefsOverflow` (`CellBuilder.java` lines 212–216). -/
def checkRefsOverflow (c : Cell) (count : ℕ) : Except Fault Unit :=
  Fault.throwIf ((4 : ℤ) - c.refs.length < count)
    (.error (text "Refs overflow. Can't add " ++ intText count ++ text " refs. "
      ++ intText (4 - c.refs.length) ++ text " refs left."))

/-- What a writer of the bits does to the cell. -/
def withBits (c : Cell) (write : BitString → Except Fault BitString) : Except Fault Cell := do
  return .mk (← write c.bits) c.refs c.isExotic

/-- `storeBit` (`CellBuilder.java` lines 35–39). -/
def storeBit (c : Cell) (bit : Bool) : Except Fault Cell := do
  checkBitsOverflow c 1
  withBits c fun bits => bits.writeBit bit

/-- `storeBits` (`CellBuilder.java` lines 41–53). -/
def storeBits (c : Cell) (arrayBits : List Bool) : Except Fault Cell := do
  checkBitsOverflow c arrayBits.length
  withBits c fun bits => bits.writeBitArray arrayBits

/-- `storeUint` (`CellBuilder.java` lines 75–80). -/
def storeUint (c : Cell) (number : ℤ) (bitLength : ℕ) : Except Fault Cell := do
  checkBitsOverflow c bitLength
  checkSign number
  withBits c fun bits => bits.writeUint number bitLength

/-- `BigInteger.ONE.shiftLeft(bitLength - 1)`. -/
def sint (bitLength : ℕ) : ℤ := if bitLength = 0 then 0 else 2 ^ (bitLength - 1)

/-- `storeInt` (`CellBuilder.java` lines 98–106), without a check of the room. -/
def storeInt (c : Cell) (number : ℤ) (bitLength : ℕ) : Except Fault Cell :=
  if -sint bitLength ≤ number ∧ number < sint bitLength then
    withBits c fun bits => bits.writeInt number bitLength
  else .error (.error
    (text "Can't store an Int, because its value allocates more space than provided."))

/-- `storeBitString` (`CellBuilder.java` lines 108–113). -/
def storeBitString (c : Cell) (bitString : BitString) : Except Fault Cell := do
  checkBitsOverflow c bitString.writeCursor
  withBits c fun bits => bits.writeBitString bitString

/-- `storeString` (`CellBuilder.java` lines 115–119). The check counts the characters of the text,
not the bytes that are written. -/
def storeString (c : Cell) (str : Text) : Except Fault Cell := do
  checkBitsOverflow c (str.length * 8)
  withBits c fun bits => bits.writeString str

/-- `storeAddress` (`CellBuilder.java` lines 121–125). -/
def storeAddress (c : Cell) (address : Option Address) : Except Fault Cell := do
  checkBitsOverflow c 267
  withBits c fun bits => bits.writeAddress address

/-- `storeBytes` (`CellBuilder.java` lines 127–131). -/
def storeBytes (c : Cell) (number : Bytes) : Except Fault Cell := do
  checkBitsOverflow c (number.length * 8)
  withBits c fun bits => bits.writeBytes number

/-- `storeRef` (`CellBuilder.java` lines 148–152). -/
def storeRef (c : Cell) (ref : Cell) : Except Fault Cell := do
  checkRefsOverflow c 1
  return .mk c.bits (c.refs ++ [ref]) c.isExotic

/-- `storeRefs` (`CellBuilder.java` lines 154–164). -/
def storeRefs (c : Cell) (cells : List Cell) : Except Fault Cell := do
  checkRefsOverflow c cells.length
  return .mk c.bits (c.refs ++ cells) c.isExotic

/-- `storeCoins` (`CellBuilder.java` lines 187–190), without a check of the room. -/
def storeCoins (c : Cell) (coins : ℤ) : Except Fault Cell :=
  withBits c fun bits => bits.writeCoins coins

end CellBuilder

/-- The bits `ba` and the references `cells` have been stored in `c`, behind what it had. -/
structure Stored (c : Cell) (ba : List Bool) (cells : List Cell) (c' : Cell) : Prop where
  bits : c.bits.writeBitArray ba = .ok c'.bits
  refs : c'.refs = c.refs ++ cells
  isExotic : c'.isExotic = c.isExotic

theorem Stored.refl (c : Cell) : Stored c [] [] c where
  bits := rfl
  refs := (List.append_nil _).symm
  isExotic := rfl

theorem Stored.trans {c c' c'' : Cell} {as ba : List Bool} {xs ys : List Cell}
    (h : Stored c as xs c') (h' : Stored c' ba ys c'') : Stored c (as ++ ba) (xs ++ ys) c'' where
  bits := by
    rw [BitString.writeBitArray_append, h.bits]
    exact h'.bits
  refs := by rw [h'.refs, h.refs, List.append_assoc]
  isExotic := h'.isExotic.trans h.isExotic

namespace CellBuilder

theorem of_checkBitsOverflow {c c' : Cell} {n : ℕ} {f : Unit → Except Fault Cell}
    (h : (checkBitsOverflow c n >>= f) = .ok c') : f () = .ok c' := by
  obtain ⟨_, -, h⟩ := Fault.bind_eq_ok.mp h
  exact h

theorem withBits_eq_ok {c c' : Cell} {write : BitString → Except Fault BitString} :
    withBits c write = .ok c' ↔
      ∃ bits, write c.bits = .ok bits ∧ c' = .mk bits c.refs c.isExotic := by
  rw [withBits, Fault.bind_eq_ok]
  refine exists_congr fun bits => and_congr_right fun _ => ?_
  exact ⟨fun h => (Except.ok.inj h).symm, fun h => h ▸ rfl⟩

/-- A writer that appends bits stores them. -/
theorem stored_withBits {c c' : Cell} {write : BitString → Except Fault BitString}
    {ba : List Bool} (hw : write c.bits = c.bits.writeBitArray ba) (h : withBits c write = .ok c') :
    Stored c ba [] c' := by
  obtain ⟨bits, hbits, rfl⟩ := withBits_eq_ok.mp h
  rw [hw] at hbits
  exact ⟨hbits, (List.append_nil _).symm, rfl⟩

end CellBuilder

/-! ## Slice -/

/-- `CellSlice` (`CellSlice.java` lines 15–16). -/
structure CellSlice where
  bits : BitString
  refs : List Cell

namespace CellSlice

/-- `beginParse` (`CellSlice.java` lines 26–28). -/
def beginParse (cell : Cell) : CellSlice := ⟨cell.bits, cell.refs⟩

/-- `endParse` (`CellSlice.java` lines 39–43). -/
def endParse (s : CellSlice) : Except Fault Unit :=
  Fault.throwIf (s.bits.readCursor ≠ s.bits.writeCursor)
    (.error (text "readCursor: " ++ intText s.bits.readCursor ++ text " != bits.length: "
      ++ intText s.bits.writeCursor))

/-- `checkBitsOverflow` (`CellSlice.java` lines 409–413). -/
def checkBitsOverflow (s : CellSlice) (length : ℕ) : Except Fault Unit :=
  Fault.throwIf (s.bits.writeCursor < s.bits.readCursor + length)
    (.error (text "Bits overflow. Can't load " ++ intText length ++ text " bits. "
      ++ intText s.bits.getFreeBits ++ text " bits left."))

/-- `loadBit` (`CellSlice.java` lines 257–260). -/
def loadBit (s : CellSlice) : Except Fault (Bool × CellSlice) := do
  s.checkBitsOverflow 1
  let (b, bits) ← s.bits.readBit
  return (b, { s with bits })

/-- `skipBits` (`CellSlice.java` lines 267–271). -/
def skipBits (s : CellSlice) (length : ℕ) : Except Fault CellSlice := do
  s.checkBitsOverflow length
  return { s with bits := s.bits.skip length }

/-- `loadBits` (`CellSlice.java` lines 303–306). -/
def loadBits (s : CellSlice) (length : ℕ) : Except Fault (BitString × CellSlice) := do
  s.checkBitsOverflow length
  let (result, bits) ← s.bits.readBits length
  return (result, { s with bits })

/-- `loadBytes` (`CellSlice.java` lines 291–295). -/
def loadBytes (s : CellSlice) (length : ℕ) : Except Fault (Bytes × CellSlice) := do
  let (bitString, s) ← s.loadBits length
  return (bitString.array, s)

/-- `loadString` (`CellSlice.java` lines 297–301). -/
def loadString (s : CellSlice) (length : ℕ) : Except Fault (Text × CellSlice) := do
  let (bitString, s) ← s.loadBits length
  return (decodeToString bitString.array, s)

/-- `loadUint` (`CellSlice.java` lines 322–327). -/
def loadUint (s : CellSlice) (length : ℕ) : Except Fault (ℤ × CellSlice) := do
  s.checkBitsOverflow length
  if length = 0 then .ok (0, s)
  else
    let (i, s) ← s.loadBits length
    return ((Nat.ofDigitChars 2 (i.bits.map BitList.digit) 0 : ℕ), s)

/-- `loadInt` (`CellSlice.java` lines 318–320), without a check of what remains. -/
def loadInt (s : CellSlice) (length : ℕ) : Except Fault (ℤ × CellSlice) := do
  let (i, bits) ← s.bits.readInt length
  return (i, { s with bits })

/-- `loadUintLEQ` (`CellSlice.java` lines 353–359). -/
def loadUintLEQ (s : CellSlice) (n : ℕ) : Except Fault (ℤ × CellSlice) := do
  let (result, s) ← s.loadUint n.size
  Fault.throwIf ((n : ℤ) < result)
    (.error (text "Cannot load \x7b<= x\x7d: encoded number is too high"))
  return (result, s)

/-- `loadVarUInteger` (`CellSlice.java` lines 375–382), with `loadUintLess`. -/
def loadVarUInteger (s : CellSlice) (n : ℕ) : Except Fault (ℤ × CellSlice) := do
  let (len, s) ← s.loadUintLEQ (n - 1)
  if len = 0 then .ok (0, s) else s.loadUint (len * 8).toNat

/-- `loadCoins` (`CellSlice.java` lines 389–391). -/
def loadCoins (s : CellSlice) : Except Fault (ℤ × CellSlice) := s.loadVarUInteger 16

/-- The parts of an address that is not missing. -/
def loadAddressParts (s : CellSlice) : Except Fault (Address × CellSlice) := do
  let (_, s) ← s.loadBits 2
  let (_, s) ← s.loadBits 1
  let (workchain, s) ← s.loadInt 8
  let (hashPart, s) ← s.loadUint 256
  let hex := Nat.toDigits 16 hashPart.toNat
  let address ← Address.ofText (intText workchain ++ text ":"
    ++ ascii (List.replicate (64 - hex.length) '0' ++ hex))
  return (address, s)

/-- `loadAddress` (`CellSlice.java` lines 425–438). -/
def loadAddress (s : CellSlice) : Except Fault (Option Address × CellSlice) := do
  let (i, _) ← s.loadUint 2
  if i = 0 then return (none, ← s.skipBits 2)
  else
    let (address, s) ← s.loadAddressParts
    return (some address, s)

/-- `loadRef` (`CellSlice.java` lines 111–117). -/
def loadRef (s : CellSlice) : Except Fault (Cell × CellSlice) :=
  match s.refs with
  | [] => .error (.error (text "Refs overflow."))
  | cell :: refs => .ok (cell, { s with refs })

/-- `loadRefs` (`CellSlice.java` lines 100–106). -/
def loadRefs (s : CellSlice) : ℕ → Except Fault (List Cell × CellSlice)
  | 0 => .ok ([], s)
  | count + 1 => do
    let (cell, s) ← s.loadRef
    let (result, s) ← s.loadRefs count
    return (cell :: result, s)

/-! ## What a slice holds -/

/-- The bits and the references that have not been loaded yet. -/
structure Holds (s : CellSlice) (ba : List Bool) (cells : List Cell) : Prop where
  fits : s.bits.Fits
  cursor : s.bits.readCursor + ba.length = s.bits.writeCursor
  remaining : s.bits.remaining = ba
  refs : s.refs = cells

variable {s : CellSlice} {as rest : List Bool} {cells : List Cell}

theorem Holds.skip (h : s.Holds (as ++ rest) cells) :
    CellSlice.Holds { s with bits := s.bits.skip as.length } rest cells where
  fits := h.fits
  cursor := by
    have hcursor := h.cursor
    rw [List.length_append] at hcursor
    show s.bits.readCursor + as.length + rest.length = s.bits.writeCursor
    omega
  remaining := BitString.remaining_skip as h.remaining
  refs := h.refs

/-- There is no overflow when what is loaded is there. -/
theorem Holds.check (h : s.Holds (as ++ rest) cells) {β : Type} (f : Unit → Except Fault β) :
    (s.checkBitsOverflow as.length >>= f) = f () := by
  have hcursor := h.cursor
  rw [List.length_append] at hcursor
  exact Fault.throwIf_bind (by omega) _ _

/-- The bit string that is loaded: its bits, in an array of their size. -/
theorem Holds.loadBits (h : s.Holds (as ++ rest) cells) : ∃ r, s.loadBits as.length
      = .ok (r, { s with bits := s.bits.skip as.length }) ∧ r.bits = as ∧
        r.array.length = (as.length + 7) / 8 := by
  obtain ⟨r, hread, hr⟩ := BitString.readBits_ok h.remaining
  refine ⟨r, ?_, hr.bits, ?_⟩
  · rw [CellSlice.loadBits, h.check, hread]
    rfl
  · rw [hr.size]
    exact List.length_replicate

theorem Holds.loadUint {w n : ℕ} (hn : n < 2 ^ w)
    (h : s.Holds (BitList.ofNat w n ++ rest) cells) :
    s.loadUint w = .ok ((n : ℤ), { s with bits := s.bits.skip w }) := by
  obtain ⟨r, hload, hr, -⟩ := h.loadBits
  have hcheck := h.check (β := ℤ × CellSlice)
  rw [BitList.length_ofNat] at hload hcheck
  rw [CellSlice.loadUint, hcheck]
  split
  · rename_i hw
    subst hw
    rw [show n = 0 by simpa using hn]
    rfl
  · rw [hload]
    simp only [Fault.ok_bind, hr, BitString.ofDigitChars_digit, BitList.value_ofNat_of_lt hn]
    rfl

theorem Holds.loadInt {w : ℕ} {z : ℤ} (hz : BitString.IntFits w z)
    (h : s.Holds (BitString.intBits w z ++ rest) cells) :
    s.loadInt w = .ok (z, { s with bits := s.bits.skip w }) := by
  rw [CellSlice.loadInt, BitString.readInt_ok hz h.remaining]
  rfl

/-- An array of whole bytes is loaded as it was. -/
theorem Holds.loadBytes {bytes : Bytes} (h : s.Holds (unpack bytes ++ rest) cells) :
    ∃ r, s.loadBits (8 * bytes.length)
      = .ok (r, { s with bits := s.bits.skip (8 * bytes.length) }) ∧ r.array = bytes := by
  obtain ⟨r, hload, hr, hsize⟩ := h.loadBits
  rw [BitList.length_unpack] at hload hsize
  refine ⟨r, hload, BitList.unpack_injective ?_⟩
  have hlen := congrArg List.length hr
  rw [BitString.bits, List.length_take, BitList.length_unpack, BitList.length_unpack] at hlen
  rw [← hr, BitString.bits, List.take_of_length_le]
  rw [BitList.length_unpack]
  omega

end CellSlice

end TonWallet.Cells
