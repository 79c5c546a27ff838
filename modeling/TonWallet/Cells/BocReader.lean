import TonWallet.Cells.BocWriter

/-!
# A bag of cells, read

`parseBocHeader` reads the header of a bag and checks its size and checksum;
`deserializeBoc` reads the cells one after the other and then sets their references,
from the last cell to the first. A reference has to point forward, or at the cell
itself: then the objects have no end, and no tree is what they are.

* `deserializeBoc_valid`: a cell that is read can be hashed and stored.
* `deserializeBoc_burst`: damage of up to four bytes in a row is noticed in a bag with a
  checksum, wherever it stands behind the flags.
-/

namespace TonWallet.Cells

open TonWallet.Encoding
open BitList (unpack pack)
open BitString (bytesFor topUp)

/-- `leanBocMagicPrefix` and `leanBocMagicPrefixCRC` (`Cell.java` lines 16–17). -/
def leanBocMagicPrefix : Bytes := [0x68, 0xFF, 0x65, 0xF3]
def leanBocMagicPrefixCRC : Bytes := [0xAC, 0xC3, 0xA7, 0x28]

/-- What the prefix of a bag says. -/
structure BocFlags where
  hasIdx : ℕ := 0
  hashCrc32 : ℕ := 0
  hasCacheBits : ℕ := 0
  flags : ℕ := 0
  sizeBytes : ℤ := 0
deriving DecidableEq

/-- `BocHeader` (`BocHeader.java` lines 7–19). -/
structure BocHeader extends BocFlags where
  offBytes : ℕ
  cellsNum : ℤ
  rootsNum : ℤ
  absentNum : ℤ
  totCellsSize : ℤ
  rootList : List ℤ
  index : List ℤ
  cellsData : Bytes
deriving DecidableEq

/-- The value of a product, as an `int`. -/
def intMul (a b : ℤ) : ℤ := (a * b).bmod (2 ^ 32)

/-- The prefix and the byte behind it (`Cell.java` lines 529–550). Any other prefix passes. -/
def readPrefix (magic : Bytes) (b : Byte) : BocFlags :=
  let flagsByte := b.toNat
  if magic = reachBocMagicPrefix then
    { hasIdx := flagsByte &&& 128, hashCrc32 := flagsByte &&& 64, hasCacheBits := flagsByte &&& 32,
      flags := (flagsByte &&& 16) * 2 + (flagsByte &&& 8), sizeBytes := (flagsByte % 8 : ℕ) }
  else if magic = leanBocMagicPrefix then { hasIdx := 1, sizeBytes := b.toInt }
  else if magic = leanBocMagicPrefixCRC then { hasIdx := 1, hashCrc32 := 1, sizeBytes := b.toInt }
  else {}

/-- `serializedBoc[0] & 0xff`. -/
def firstByte : Bytes → Except Fault ℕ
  | b :: _ => .ok b.toNat
  | [] => .error (.thrown .indexOutOfBounds)

/-- A number, and the bytes behind it. -/
def readNumber (n : ℤ) (bytes : Bytes) : Except Fault (ℤ × Bytes) := do
  let value ← readNBytesFromArray n bytes
  let rest ← copyOfRange bytes n bytes.length
  return (value, rest)

/-- Numbers one after the other. -/
def readNumbers (n : ℤ) : ℕ → Bytes → Except Fault (List ℤ × Bytes)
  | 0, bytes => .ok ([], bytes)
  | count + 1, bytes => do
    let (value, bytes) ← readNumber n bytes
    let (values, rest) ← readNumbers n count bytes
    return (value :: values, rest)

/-- The index of a bag (`Cell.java` lines 590–599). -/
def readIndex (hasIdx offBytes : ℕ) (cellsNum : ℤ) (serializedBoc : Bytes) :
    Except Fault (List ℤ × Bytes) := do
  Fault.throwIf (cellsNum < 0) (.thrown .negativeArraySize)
  if hasIdx ≠ 0 then
    Fault.throwIf (serializedBoc.length < intMul offBytes cellsNum)
      (.error (text "Not enough bytes for index encoding"))
    readNumbers offBytes cellsNum.toNat serializedBoc
  else return (List.replicate cellsNum.toNat 0, serializedBoc)

/-- The end of a bag, behind the cells (`Cell.java` lines 607–621). -/
def checkCrc (hashCrc32 : ℕ) (inputData serializedBoc : Bytes) : Except Fault Bytes :=
  if hashCrc32 ≠ 0 then do
    Fault.throwIf (serializedBoc.length < 4)
      (.error (text "Not enough bytes for crc32c hashsum"))
    let bocWithoutCrc ← copyOfRange inputData 0 (inputData.length - 4)
    let crcInBoc ← copyOfRange serializedBoc 0 4
    Fault.throwIf (getCRC32ChecksumAsBytesReversed bocWithoutCrc ≠ crcInBoc)
      (.error (text "Crc32c hashsum mismatch"))
    copyOfRange serializedBoc 4 serializedBoc.length
  else .ok serializedBoc

/-- `parseBocHeader` (`Cell.java` lines 512–640). -/
def parseBocHeader (inputData : Bytes) : Except Fault BocHeader := do
  Fault.throwIf (inputData.length < 4 + 1) (.error (text "Not enough bytes for magic prefix"))
  let magic ← copyOfRange inputData 0 4
  let serializedBoc ← copyOfRange inputData 4 inputData.length
  let flags := readPrefix magic (serializedBoc.headD 0)
  let serializedBoc ← copyOfRange serializedBoc 1 serializedBoc.length
  Fault.throwIf (serializedBoc.length < 1 + 5 * flags.sizeBytes)
    (.error (text "Not enough bytes for encoding cells counters"))
  let offBytes ← firstByte serializedBoc
  let serializedBoc ← copyOfRange serializedBoc 1 serializedBoc.length
  let (cellsNum, serializedBoc) ← readNumber flags.sizeBytes serializedBoc
  let (rootsNum, serializedBoc) ← readNumber flags.sizeBytes serializedBoc
  let (absentNum, serializedBoc) ← readNumber flags.sizeBytes serializedBoc
  let totCellsSize ← readNBytesFromArray offBytes serializedBoc
  Fault.throwIf (totCellsSize < 0) (.error (text "Cannot calculate total cell size"))
  let serializedBoc ← copyOfRange serializedBoc offBytes serializedBoc.length
  Fault.throwIf (serializedBoc.length < intMul rootsNum flags.sizeBytes)
    (.error (text "Not enough bytes for encoding root cells hashes"))
  let (rootList, serializedBoc) ← readNumbers flags.sizeBytes rootsNum.toNat serializedBoc
  let (index, serializedBoc) ← readIndex flags.hasIdx offBytes cellsNum serializedBoc
  Fault.throwIf (serializedBoc.length < totCellsSize)
    (.error (text "Not enough bytes for cells data"))
  let cellsData ← copyOfRange serializedBoc 0 totCellsSize
  let serializedBoc ← copyOfRange serializedBoc totCellsSize serializedBoc.length
  let serializedBoc ← checkCrc flags.hashCrc32 inputData serializedBoc
  Fault.throwIf (serializedBoc ≠ []) (.error (text "Too many bytes in BoC serialization"))
  return ⟨flags, offBytes, cellsNum, rootsNum, absentNum, totCellsSize, rootList, index, cellsData⟩

/-- A cell whose references are numbers: `bits`, `isExotic` and `refsInt` of `Cell.java`. -/
structure RawCell where
  bits : BitString
  isExotic : Bool
  refsInt : List ℤ

/-- `deserializeCellData` (`Cell.java` lines 642–670). -/
def deserializeCellData (cellData : Bytes) (referenceIndexSize : ℤ) :
    Except Fault (RawCell × Bytes) :=
  match cellData with
  | d1 :: d2 :: cellData => do
    let refNum := d1.toNat % 8
    let dataBytesize := (d2.toNat + 1) / 2
    Fault.throwIf (cellData.length < dataBytesize + referenceIndexSize * refNum)
      (.error (text "Not enough bytes to encode cell data"))
    let data ← copyOfRange cellData 0 dataBytesize
    let bits ← (BitString.ofLength 1023).setTopUppedArray data (d2.toNat % 2 = 0)
    let cellData ← copyOfRange cellData dataBytesize cellData.length
    let (refsInt, cellData) ← readNumbers referenceIndexSize refNum cellData
    return (⟨bits, d1.toNat &&& 8 ≠ 0, refsInt⟩, cellData)
  | _ => .error (.error (text "Not enough bytes to encode cell descriptors"))

/-- The cells of a bag, one after the other. -/
def deserializeCells (referenceIndexSize : ℤ) : ℕ → Bytes → Except Fault (List RawCell)
  | 0, _ => .ok []
  | cellsNum + 1, cellsData => do
    let (cell, cellsData) ← deserializeCellData cellsData referenceIndexSize
    let cells ← deserializeCells referenceIndexSize cellsNum cellsData
    return cell :: cells

/-- A reference of cell `ci`, among the cells behind it. The cell itself is not yet a tree. -/
def linkRef (ci : ℕ) (later : List (Option Cell)) (r : ℤ) : Except Fault (Option Cell) :=
  if r < ci then .error (.error (text "Topological order is broken"))
  else if r = ci then .ok none
  else match later[(r - ci - 1).toNat]? with
    | some cell => .ok cell
    | none => .error (.thrown .indexOutOfBounds)

/-- The loop that sets the references (`Cell.java` lines 697–706), from the last cell to `ci`.
A cell from which references lead to a cell that refers to itself is no tree. -/
def link (ci : ℕ) : List RawCell → Except Fault (List (Option Cell))
  | [] => .ok []
  | c :: cells => do
    let later ← link (ci + 1) cells
    let refs ← c.refsInt.mapM (linkRef ci later)
    return (refs.mapM id).map (fun refs => Cell.mk c.bits refs c.isExotic) :: later

/-- `cellsArray.get(ri)`. -/
def rootCell (cellsArray : List (Option Cell)) (ri : ℤ) : Except Fault (Option Cell) :=
  if 0 ≤ ri then
    match cellsArray[ri.toNat]? with
    | some cell => .ok cell
    | none => .error (.thrown .indexOutOfBounds)
  else .error (.thrown .indexOutOfBounds)

/-- `deserializeBoc` (`Cell.java` lines 684–713). -/
def deserializeBoc (serializedBoc : Bytes) : Except Fault (Option Cell) := do
  let header ← parseBocHeader serializedBoc
  let cells ← deserializeCells header.sizeBytes header.cellsNum.toNat header.cellsData
  let cellsArray ← link 0 cells
  let rootCells ← header.rootList.mapM (rootCell cellsArray)
  match rootCells.head? with
  | some cell => .ok cell
  | none => .error (.thrown .indexOutOfBounds)

/-! ## What remains -/

theorem copyOfRange_eq_ok {bytes rest : Bytes} {n : ℤ}
    (h : copyOfRange bytes n bytes.length = .ok rest) : rest = bytes.drop n.toNat := by
  rw [copyOfRange] at h
  split at h
  · cases h
  · rename_i hle
    split at h
    · cases h
    · have hlen : (bytes.drop n.toNat).length ≤ ((bytes.length : ℤ) - n).toNat := by
        rw [List.length_drop]
        omega
      have hzero : ((bytes.length : ℤ) - max n bytes.length).toNat = 0 := by omega
      rw [hzero, List.replicate_zero, List.append_nil, List.take_of_length_le hlen] at h
      exact (Except.ok.inj h).symm

theorem copyOfRange_isSuffix {bytes rest : Bytes} {n : ℤ}
    (h : copyOfRange bytes n bytes.length = .ok rest) : rest <:+ bytes :=
  copyOfRange_eq_ok h ▸ List.drop_suffix _ _

theorem readNumber_isSuffix {n value : ℤ} {bytes rest : Bytes}
    (h : readNumber n bytes = .ok (value, rest)) : rest <:+ bytes := by
  obtain ⟨_, -, h⟩ := Fault.bind_eq_ok.mp h
  obtain ⟨rest', hrest, h⟩ := Fault.bind_eq_ok.mp h
  obtain rfl := congrArg Prod.snd (Except.ok.inj h)
  exact copyOfRange_isSuffix hrest

theorem readNumbers_isSuffix {n : ℤ} {count : ℕ} {values : List ℤ} {bytes rest : Bytes}
    (h : readNumbers n count bytes = .ok (values, rest)) : rest <:+ bytes := by
  induction count generalizing bytes values with
  | zero =>
    obtain rfl := congrArg Prod.snd (Except.ok.inj h)
    exact List.suffix_refl _
  | succ count ih =>
    obtain ⟨⟨value, bytes'⟩, hvalue, h⟩ := Fault.bind_eq_ok.mp h
    obtain ⟨⟨values', rest'⟩, hvalues, h⟩ := Fault.bind_eq_ok.mp h
    obtain rfl := congrArg Prod.snd (Except.ok.inj h)
    exact (ih hvalues).trans (readNumber_isSuffix hvalue)

theorem readIndex_isSuffix {hasIdx offBytes : ℕ} {cellsNum : ℤ} {values : List ℤ}
    {bytes rest : Bytes} (h : readIndex hasIdx offBytes cellsNum bytes = .ok (values, rest)) :
    rest <:+ bytes := by
  obtain ⟨_, -, h⟩ := Fault.bind_eq_ok.mp h
  split at h
  · obtain ⟨_, -, h⟩ := Fault.bind_eq_ok.mp h
    exact readNumbers_isSuffix h
  · obtain rfl := congrArg Prod.snd (Except.ok.inj h)
    exact List.suffix_refl _

/-- A bag with a checksum ends with that of the bytes in front of it. -/
theorem checkCrc_eq_nil {hashCrc32 : ℕ} {inputData bytes : Bytes} (hcrc : hashCrc32 ≠ 0)
    (hsuffix : bytes <:+ inputData) (h : checkCrc hashCrc32 inputData bytes = .ok []) :
    ∃ data sum, inputData = data ++ sum ∧ sum.length = 4 ∧
      getCRC32ChecksumAsBytesReversed data = sum := by
  rw [checkCrc, if_pos hcrc] at h
  simp only [Fault.bind_eq_ok, Fault.throwIf_eq_ok] at h
  obtain ⟨_, hfour, data, hdata, sum, hsum, _, heq, hrest⟩ := h
  have hnil := copyOfRange_eq_ok hrest
  obtain ⟨front, rfl⟩ := hsuffix
  have hlen := congrArg List.length hnil
  rw [List.length_drop] at hlen
  have hfour : bytes.length = 4 := by
    rw [List.length_nil] at hlen
    omega
  rw [show ((front ++ bytes).length : ℤ) - 4 = (front.length : ℤ) by
      rw [List.length_append]; omega,
    copyOfRange_prefix _ (by simp), List.take_left] at hdata
  rw [show (4 : ℤ) = (bytes.length : ℕ) by omega, copyOfRange_prefix _ (Nat.le_refl _),
    List.take_length] at hsum
  obtain rfl := Except.ok.inj hdata
  obtain rfl := Except.ok.inj hsum
  exact ⟨front, bytes, rfl, hfour, not_not.mp heq⟩

/-- What a bag with a checksum is, if its header is accepted. -/
theorem parseBocHeader_crc {inputData : Bytes} {header : BocHeader}
    (h : parseBocHeader inputData = .ok header)
    (hcrc : (readPrefix (inputData.take 4) ((inputData.drop 4).headD 0)).hashCrc32 ≠ 0) :
    ∃ data sum, inputData = data ++ sum ∧ sum.length = 4 ∧
      getCRC32ChecksumAsBytesReversed data = sum := by
  simp only [parseBocHeader, Fault.bind_eq_ok, Fault.throwIf_eq_ok] at h
  obtain ⟨_, hlen, magic, hmagic, b₁, h₁, b₂, h₂, _, _, off, _, b₃, h₃, ⟨cellsNum, b₄⟩, h₄, h⟩ := h
  obtain ⟨⟨rootsNum, b₅⟩, h₅, ⟨absentNum, b₆⟩, h₆, tot, _, _, _, b₇, h₇, _, _, h⟩ := h
  obtain ⟨⟨rootList, b₈⟩, h₈, ⟨index, b₉⟩, h₉, _, _, cellsData, _, b₁₀, h₁₀, h⟩ := h
  obtain ⟨b₁₁, h₁₁, _, hnil, _⟩ := h
  rw [show (4 : ℤ) = (4 : ℕ) from rfl, copyOfRange_prefix _ (by omega)] at hmagic
  obtain rfl := Except.ok.inj hmagic
  have hsuffix := (copyOfRange_isSuffix h₂).trans (copyOfRange_isSuffix h₁)
  rw [copyOfRange_eq_ok h₁] at h₁₁
  have hrest := ((copyOfRange_isSuffix h₁₀).trans (readIndex_isSuffix h₉)).trans
    ((readNumbers_isSuffix h₈).trans (copyOfRange_isSuffix h₇))
  have hnumbers := ((readNumber_isSuffix h₆).trans (readNumber_isSuffix h₅)).trans
    ((readNumber_isSuffix h₄).trans (copyOfRange_isSuffix h₃))
  rw [not_not.mp hnil] at h₁₁
  exact checkCrc_eq_nil hcrc ((hrest.trans hnumbers).trans hsuffix) h₁₁

/-- **Damage of up to four bytes in a row is noticed.** Of two arrays that say that they have a
checksum and differ only in up to four bytes in a row behind that, at most one is accepted. -/
theorem deserializeBoc_burst {pre u v post : Bytes} (hpre : 5 ≤ pre.length)
    (hcrc : (readPrefix (pre.take 4) (pre.getD 4 0)).hashCrc32 ≠ 0) (hu : u.length ≤ 4)
    (huv : u.length = v.length) {cell cell' : Option Cell}
    (h : deserializeBoc (pre ++ u ++ post) = .ok cell)
    (h' : deserializeBoc (pre ++ v ++ post) = .ok cell') : u = v := by
  have hflags : ∀ w : Bytes, readPrefix ((pre ++ w ++ post).take 4)
      (((pre ++ w ++ post).drop 4).headD 0) = readPrefix (pre.take 4) (pre.getD 4 0) := by
    intro w
    rw [List.append_assoc, List.take_append_of_le_length (by omega),
      List.drop_append_of_le_length (by omega)]
    obtain ⟨b, rest, hdrop⟩ := List.exists_cons_of_length_pos
      (show 0 < (pre.drop 4).length by rw [List.length_drop]; omega)
    have hget : pre.getD 4 0 = b := by
      rw [List.getD_eq_getElem?_getD, ← List.head?_drop, hdrop]
      rfl
    rw [hdrop, hget]
    rfl
  obtain ⟨header, hparse, -⟩ := Fault.bind_eq_ok.mp h
  obtain ⟨header', hparse', -⟩ := Fault.bind_eq_ok.mp h'
  obtain ⟨data, sum, hdata, hlen, hsum⟩ := parseBocHeader_crc hparse (by rwa [hflags])
  obtain ⟨data', sum', hdata', hlen', hsum'⟩ := parseBocHeader_crc hparse' (by rwa [hflags])
  exact crc32c_burst hlen hlen' hsum hsum' hdata.symm hdata'.symm hu huv

/-- A bag of two cells, with a checksum. -/
def sampleBag : Bytes := [0xB5, 0xEE, 0x9C, 0x72, 0x41, 0x01, 0x02, 0x01, 0x00, 0x06, 0x00,
  0x01, 0x01, 0xC0, 0x01, 0x00, 0x00, 0xD3, 0x65, 0xD0, 0xFD]

theorem exists_sampleBag : ∃ cell, deserializeBoc sampleBag = .ok (some cell) := by
  have hok : ((deserializeBoc sampleBag).toOption.bind id).isSome = true := by decide +kernel
  obtain ⟨c, hc⟩ := Option.isSome_iff_exists.mp hok
  obtain ⟨cell, hcell, rfl⟩ := Option.bind_eq_some_iff.mp hc
  cases h : deserializeBoc sampleBag with
  | error e =>
    rw [h] at hcell
    cases hcell
  | ok cell' =>
    rw [h] at hcell
    exact ⟨c, congrArg Except.ok (Option.some.inj hcell)⟩

theorem deserializeBoc_burst_sampleBag : sampleBag = sampleBag.take 11 ++
      [0x01, 0x01, 0xC0, 0x01] ++ sampleBag.drop 15 ∧
    ([0x01, 0x01, 0xC0, 0x01] : Bytes) = [0x01, 0x01, 0xC0, 0x01] := by
  obtain ⟨cell, h⟩ := exists_sampleBag
  have hsplit : sampleBag = sampleBag.take 11 ++ [0x01, 0x01, 0xC0, 0x01] ++ sampleBag.drop 15 := by
    decide
  have h' := (congrArg deserializeBoc hsplit).symm.trans h
  exact ⟨hsplit, deserializeBoc_burst (by decide) (by decide) (by decide) rfl h' h'⟩

/-! ## What is read can be hashed and stored -/

/-- A bit string that was made from an array has room for all of it. -/
structure FromArray (bs : BitString) (n : ℕ) : Prop where
  length : bs.length = n * 8
  size : bs.array.length = n
  cursor : bs.writeCursor ≤ n * 8

theorem FromArray.exportable {bs : BitString} {n : ℕ} (h : FromArray bs n)
    (hshort : bs.writeCursor ≤ 1023) : bs.Exportable := by
  obtain ⟨hlen, hsize, hcursor⟩ := h
  have hcapacity : bs.capacity = n * 8 := by
    rw [BitString.capacity, hlen, hsize]
    omega
  refine ⟨?_, ?_, hshort⟩
  · rwa [BitString.Fits, hcapacity]
  · rw [hcapacity, bytesFor]
    omega

/-- The cursor moves back at least once. -/
theorem findEndBit_spec {c n : ℕ} {bs bs' : BitString} (hc : c ≤ bs.writeCursor)
    (hbs : FromArray bs n) (h : BitString.findEndBit c bs = .ok bs') :
    FromArray bs' n ∧ bs'.writeCursor < bs.writeCursor := by
  induction c generalizing bs with
  | zero => cases h
  | succ c ih =>
    obtain ⟨hlen, hsize, hcursor⟩ := hbs
    have hback : FromArray bs.back n := ⟨hlen, hsize, (Nat.sub_le _ _).trans hcursor⟩
    have hlt : bs.back.writeCursor + 1 = bs.writeCursor := Nat.sub_add_cancel (by omega)
    rw [BitString.findEndBit] at h
    change bs.back.get bs.back.writeCursor >>= _ = _ at h
    obtain ⟨bit, -, h⟩ := Fault.bind_eq_ok.mp h
    split at h
    · obtain ⟨-, array, hsize', -, rfl⟩ := BitString.off_eq_ok.mp h
      exact ⟨⟨hlen, hsize'.trans hsize, hback.cursor⟩, Nat.lt_of_succ_le hlt.le⟩
    · obtain ⟨h', hlt'⟩ := ih (by omega) hback h
      exact ⟨h', by omega⟩

theorem length_copyOfRange {bytes data : Bytes} {n : ℕ} (h : copyOfRange bytes 0 n = .ok data) :
    data.length = n := by
  rw [copyOfRange, if_neg (by omega), if_neg (by omega)] at h
  rw [← Except.ok.inj h]
  simp
  omega

theorem length_readNumbers {n : ℤ} {count : ℕ} {values : List ℤ} {bytes rest : Bytes}
    (h : readNumbers n count bytes = .ok (values, rest)) : values.length = count := by
  induction count generalizing bytes values rest with
  | zero =>
    obtain rfl := congrArg Prod.fst (Except.ok.inj h)
    rfl
  | succ count ih =>
    obtain ⟨⟨value, bytes'⟩, -, h⟩ := Fault.bind_eq_ok.mp h
    obtain ⟨⟨values', rest'⟩, hvalues, h⟩ := Fault.bind_eq_ok.mp h
    obtain rfl := congrArg Prod.fst (Except.ok.inj h)
    rw [List.length_cons, ih hvalues]

/-- The cells of a bag: up to 1023 bits and seven references. -/
def RawCell.Valid (c : RawCell) : Prop := c.bits.Exportable ∧ c.refsInt.length ≤ 7

theorem deserializeCellData_valid {cellData rest : Bytes} {size : ℤ} {c : RawCell}
    (h : deserializeCellData cellData size = .ok (c, rest)) : c.Valid := by
  match cellData with
  | [] => cases h
  | [_] => cases h
  | d1 :: d2 :: cellData =>
    rw [deserializeCellData] at h
    simp only [Fault.bind_eq_ok] at h
    obtain ⟨_, -, data, hdata, bits, hbits, _, -, ⟨refsInt, _⟩, hrefs, h⟩ := h
    obtain rfl := congrArg Prod.fst (Except.ok.inj h)
    have hlen := length_copyOfRange hdata
    have hd2 := d2.isLt
    refine ⟨?_, by rw [length_readNumbers hrefs]; omega⟩
    set full : BitString := ⟨data, data.length * 8, 0, data.length * 8⟩ with hfull
    have hfrom : FromArray full data.length := ⟨rfl, rfl, Nat.le_refl _⟩
    change (if _ then Except.ok full else BitString.findEndBit 7 full) = _ at hbits
    split at hbits
    · rename_i hwhole
      obtain rfl := Except.ok.inj hbits
      refine hfrom.exportable ?_
      simp only [decide_eq_true_eq] at hwhole
      show data.length * 8 ≤ 1023
      omega
    · rename_i hwhole
      simp only [decide_eq_true_eq] at hwhole
      obtain ⟨hfrom', hlt⟩ := findEndBit_spec (show 7 ≤ data.length * 8 by omega) hfrom hbits
      have hlt : bits.writeCursor < data.length * 8 := hlt
      exact hfrom'.exportable (by omega)

theorem deserializeCells_valid {size : ℤ} {n : ℕ} {bytes : Bytes} {cells : List RawCell}
    (h : deserializeCells size n bytes = .ok cells) : ∀ c ∈ cells, c.Valid := by
  induction n generalizing bytes cells with
  | zero =>
    obtain rfl := Except.ok.inj h
    exact List.forall_mem_nil _
  | succ n ih =>
    obtain ⟨⟨c, rest⟩, hc, h⟩ := Fault.bind_eq_ok.mp h
    obtain ⟨cells', hcells, h⟩ := Fault.bind_eq_ok.mp h
    obtain rfl := Except.ok.inj h
    exact List.forall_mem_cons.mpr ⟨deserializeCellData_valid hc, ih hcells⟩

theorem linkRef_mem {ci : ℕ} {later : List (Option Cell)} {r : ℤ} {c : Cell}
    (h : linkRef ci later r = .ok (some c)) : some c ∈ later := by
  rw [linkRef] at h
  split at h
  · cases h
  · split at h
    · cases h
    · split at h
      · rename_i cell hcell
        obtain rfl := Except.ok.inj h
        exact List.mem_of_getElem? hcell
      · cases h

theorem mapM_eq_ok {α β : Type} {f : α → Except Fault β} {l : List α} {l' : List β}
    (h : l.mapM f = .ok l') : l'.length = l.length ∧ ∀ b ∈ l', ∃ a ∈ l, f a = .ok b := by
  induction l generalizing l' with
  | nil =>
    obtain rfl := Except.ok.inj h
    exact ⟨rfl, List.forall_mem_nil _⟩
  | cons a l ih =>
    rw [List.mapM_cons] at h
    obtain ⟨b, hb, h⟩ := Fault.bind_eq_ok.mp h
    obtain ⟨bs, hbs, h⟩ := Fault.bind_eq_ok.mp h
    obtain rfl := Except.ok.inj h
    obtain ⟨hlen, hmem⟩ := ih hbs
    refine ⟨congrArg Nat.succ hlen, List.forall_mem_cons.mpr ⟨⟨a, List.mem_cons_self, hb⟩, ?_⟩⟩
    intro b' hb'
    obtain ⟨a', ha', hf⟩ := hmem b' hb'
    exact ⟨a', List.mem_cons_of_mem _ ha', hf⟩

theorem mapM_id_eq_some {α : Type} {l : List (Option α)} {l' : List α} (h : l.mapM id = some l') :
    l = l'.map some := by
  induction l generalizing l' with
  | nil =>
    obtain rfl := Option.some.inj h
    rfl
  | cons a l ih =>
    rw [List.mapM_cons, Option.bind_eq_bind, Option.bind_eq_some_iff] at h
    obtain ⟨b, hb, h⟩ := h
    rw [Option.bind_eq_bind, Option.bind_eq_some_iff] at h
    obtain ⟨bs, hbs, h⟩ := h
    obtain rfl := Option.some.inj h
    rw [List.map_cons, ← ih hbs]
    exact congrArg (· :: l) hb

theorem link_valid {ci : ℕ} {cells : List RawCell} {cs : List (Option Cell)}
    (hcells : ∀ c ∈ cells, c.Valid) (h : link ci cells = .ok cs) : ∀ c, some c ∈ cs → c.Valid := by
  induction cells generalizing ci cs with
  | nil =>
    obtain rfl := Except.ok.inj h
    exact fun c hc => absurd hc List.not_mem_nil
  | cons raw cells ih =>
    obtain ⟨hraw, hcells⟩ := List.forall_mem_cons.mp hcells
    obtain ⟨later, hlater, h⟩ := Fault.bind_eq_ok.mp h
    obtain ⟨refs, hrefs, h⟩ := Fault.bind_eq_ok.mp h
    obtain rfl := Except.ok.inj h
    intro c hc
    rcases List.mem_cons.mp hc with hc | hc
    · obtain ⟨trees, htrees, rfl⟩ := Option.map_eq_some_iff.mp hc.symm
      obtain rfl := mapM_id_eq_some htrees
      obtain ⟨hlen, hmem⟩ := mapM_eq_ok hrefs
      rw [List.length_map] at hlen
      refine .mk hraw.1 (hlen.trans_le hraw.2) fun t ht => ?_
      obtain ⟨r, -, hr⟩ := hmem _ (List.mem_map_of_mem ht)
      exact ih hcells hlater t (linkRef_mem hr)
    · exact ih hcells hlater c hc

/-- **What is read can be hashed and stored.** Whatever the bytes are, a cell that is read from them
has up to 1023 bits and up to seven references at every place, so it has a hash. -/
theorem deserializeBoc_valid (sha256 : Bytes → Digest) {bytes : Bytes} {c : Cell}
    (h : deserializeBoc bytes = .ok (some c)) : c.Valid ∧ ∃ hash, c.hash sha256 = .ok hash := by
  obtain ⟨header, -, h⟩ := Fault.bind_eq_ok.mp h
  obtain ⟨cells, hcells, h⟩ := Fault.bind_eq_ok.mp h
  obtain ⟨cellsArray, hlink, h⟩ := Fault.bind_eq_ok.mp h
  obtain ⟨rootCells, hroots, h⟩ := Fault.bind_eq_ok.mp h
  have hvalid : c.Valid := by
    refine link_valid (deserializeCells_valid hcells) hlink c ?_
    cases rootCells with
    | nil => cases h
    | cons cell rootCells =>
      obtain rfl := Except.ok.inj h
      obtain ⟨ri, -, hri⟩ := (mapM_eq_ok hroots).2 _ List.mem_cons_self
      rw [rootCell] at hri
      split at hri
      · split at hri
        · obtain rfl := Except.ok.inj hri
          exact List.mem_of_getElem? ‹_›
        · cases hri
      · cases hri
  exact ⟨hvalid, _, hvalid.hash_eq sha256⟩

theorem deserializeBoc_valid_sampleBag : ∃ c, deserializeBoc sampleBag = .ok (some c) ∧ c.Valid ∧
    ∃ hash, c.hash firstBytes = .ok hash := by
  obtain ⟨c, h⟩ := exists_sampleBag
  exact ⟨c, h, deserializeBoc_valid firstBytes h⟩

end TonWallet.Cells
