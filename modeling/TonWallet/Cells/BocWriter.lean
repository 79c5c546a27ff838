import Mathlib.Data.Set.Card
import TonWallet.Cells.TreeWalk

/-!
# A bag of cells, written

`toBoc` writes the cells that `treeWalk` lists, each with the positions of what it
refers to, behind a header with their number and size.

* `toBoc_eq`: the bytes that are written.
* `toBoc_ok_iff`: a bag is written for at most 255 different cells. More do not fit:
  a number has one byte, however many there are.
-/

namespace TonWallet.Cells

open TonWallet.Encoding
open BitList (unpack pack)
open BitString (bytesFor topUp)
open Trees (Within)

/-- `reachBocMagicPrefix` (`Cell.java` line 15). -/
def reachBocMagicPrefix : Bytes := [0xB5, 0xEE, 0x9C, 0x72]

/-- The number of a cell, in `toString(16)` with a zero in front where the length is odd. -/
def indexBytes (refIndexInt : ℕ) : Except Fault Bytes :=
  let refIndexHex := ascii (Nat.toDigits 16 refIndexInt)
  hexToBytes (if refIndexHex.length % 2 ≠ 0 then 0x30 :: refIndexHex else refIndexHex)

section
variable (sha256 : Bytes → Digest)

/-- The loop of `serializeForBoc` over the references. -/
def serializeRef (cellsIndex : Text → Option ℕ) (cell : Cell) : Except Fault Bytes := do
  let hash ← cell.hash sha256
  match cellsIndex (bytesToHex hash) with
  | none => .error (.thrown .nullPointer)
  | some refIndexInt => indexBytes refIndexInt

/-- `serializeForBoc` (`Cell.java` lines 429–450). -/
def serializeForBoc (cellsIndex : Text → Option ℕ) (c : Cell) : Except Fault Bytes := do
  let data ← c.getDataWithDescriptors
  let references ← c.refs.mapM (serializeRef sha256 cellsIndex)
  return data ++ references.flatten

/-- `bocSerializationSize` (`Cell.java` lines 452–454). -/
def bocSerializationSize (cellsIndex : Text → Option ℕ) (c : Cell) : Except Fault ℕ := do
  let ser ← serializeForBoc sha256 cellsIndex c
  return ser.length

/-- The loop of `toBoc` that adds the sizes up. -/
def sizeLoop (cellsIndex : Text → Option ℕ) :
    List (Bytes × Cell) → List ℕ → ℕ → Except Fault (List ℕ × ℕ)
  | [], sizeIndex, fullSize => .ok (sizeIndex, fullSize)
  | cellInfo :: order, sizeIndex, fullSize => do
    let size ← bocSerializationSize sha256 cellsIndex cellInfo.2
    sizeLoop cellsIndex order (sizeIndex ++ [fullSize]) (fullSize + size)

/-- The header of `toBoc` (`Cell.java` lines 330–339). -/
def writeHeader (serialization : BitString) (hasIdx hashCrc32 hasCacheBits : Bool) (flags : ℤ)
    (sBytes offsetBytes cellsNum fullSize : ℕ) : Except Fault BitString := do
  let serialization ← serialization.writeBytes reachBocMagicPrefix
  let serialization ← serialization.writeBitArray [hasIdx, hashCrc32, hasCacheBits]
  let serialization ← serialization.writeUint flags 2
  let serialization ← serialization.writeUint sBytes 3
  let serialization ← serialization.writeUint8 offsetBytes
  let serialization ← serialization.writeUint cellsNum (sBytes * 8)
  let serialization ← serialization.writeUint 1 (sBytes * 8)
  let serialization ← serialization.writeUint 0 (sBytes * 8)
  let serialization ← serialization.writeUint fullSize (offsetBytes * 8)
  serialization.writeUint 0 (sBytes * 8)

/-- The index of `toBoc` (`Cell.java` lines 341–345). -/
def writeIndex (serialization : BitString) (hasIdx : Bool) (offsetBytes : ℕ)
    (sizeIndex : List ℕ) : Except Fault BitString :=
  if hasIdx then
    sizeIndex.foldlM (fun serialization (i : ℕ) => serialization.writeUint i (offsetBytes * 8))
      serialization
  else .ok serialization

/-- The cells of `toBoc` (`Cell.java` lines 347–350). -/
def writeCells (serialization : BitString) (cellsIndex : Text → Option ℕ)
    (order : List (Bytes × Cell)) : Except Fault BitString :=
  order.foldlM (fun serialization cellInfo => do
    let refcellSer ← serializeForBoc sha256 cellsIndex cellInfo.2
    serialization.writeBytes refcellSer) serialization

/-- `toBoc` (`Cell.java` lines 303–360). -/
def toBoc (frames : ℕ) (rootCell : Cell) (hasIdx hashCrc32 hasCacheBits : Bool) (flags : ℤ) :
    Except Fault Bytes := do
  let ⟨order, cellsIndex⟩ ← treeWalk sha256 frames rootCell ⟨[], fun _ => none⟩ none
  let cellsNum := order.length
  let s := (Nat.toDigits 2 cellsNum).length
  let sBytes := min (bytesFor s) 1
  let (sizeIndex, fullSize) ← sizeLoop sha256 cellsIndex order [] 0
  let offsetBits := (Nat.toDigits 2 fullSize).length
  let offsetBytes := max (bytesFor offsetBits) 1
  let serialization := BitString.ofLength ((1023 + 32 * 4 + 32 * 3) * order.length)
  let serialization ← writeHeader serialization hasIdx hashCrc32 hasCacheBits flags sBytes
    offsetBytes cellsNum fullSize
  let serialization ← writeIndex serialization hasIdx offsetBytes sizeIndex
  let serialization ← writeCells sha256 serialization cellsIndex order
  let serArr ← serialization.getTopUppedArray
  return if hashCrc32 then serArr ++ getCRC32ChecksumAsBytesReversed serArr else serArr

end

/-! ## Header and index -/

/-- The byte of the flags. -/
def flagsByte (hasIdx hashCrc32 hasCacheBits : Bool) (flags : ℕ) : Byte :=
  BitVec.ofNat 8 (hasIdx.toNat * 128 + hashCrc32.toNat * 64 + hasCacheBits.toNat * 32 + flags * 8
    + 1)

theorem flagsByte_bits : ∀ a b c : Bool, ∀ m < 4,
    [a, b, c] ++ BitList.ofNat 2 m ++ BitList.ofNat 3 1
      = BitList.ofNat 8 (flagsByte a b c m).toNat := by decide

/-- The bytes of a header. -/
def headerBytes (flag : Byte) (offsetBytes cellsNum fullSize : ℕ) : Bytes :=
  reachBocMagicPrefix ++ [flag] ++ bigEndian 1 offsetBytes ++ bigEndian 1 cellsNum ++ bigEndian 1 1
    ++ bigEndian 1 0 ++ bigEndian offsetBytes fullSize ++ bigEndian 1 0

/-- A number that fits is written as its bytes. -/
theorem writeUint_bytes {bs : BitString} {w n : ℕ} (h : n < 256 ^ w) :
    bs.writeUint n (w * 8) = bs.writeBitArray (unpack (bigEndian w n)) := by
  rw [unpack_bigEndian, Nat.mul_comm w, BitString.writeUint_eq]
  rwa [Nat.pow_mul]

theorem writeHeader_eq {bs : BitString} {a b c : Bool} {flags offsetBytes cellsNum fullSize : ℕ}
    (hflags : flags < 4) (hoff : offsetBytes < 256) (hnum : cellsNum < 256)
    (hsize : fullSize < 256 ^ offsetBytes) :
    writeHeader bs a b c flags 1 offsetBytes cellsNum fullSize = bs.writeBitArray
      (unpack (headerBytes (flagsByte a b c flags) offsetBytes cellsNum fullSize)) := by
  have hbyte : ∀ (bs : BitString) (n : ℕ), n < 256 →
      bs.writeUint n (1 * 8) = bs.writeBitArray (unpack (bigEndian 1 n)) :=
    fun bs n hn => writeUint_bytes (by simpa using hn)
  have hone : ∀ bs : BitString,
      bs.writeUint 1 (1 * 8) = bs.writeBitArray (unpack (bigEndian 1 1)) :=
    fun bs => hbyte bs 1 (by decide)
  have hzero : ∀ bs : BitString,
      bs.writeUint 0 (1 * 8) = bs.writeBitArray (unpack (bigEndian 1 0)) :=
    fun bs => hbyte bs 0 (by decide)
  have hflag : unpack [flagsByte a b c flags] = [a, b, c] ++ BitList.ofNat 2 flags
      ++ BitList.ofNat 3 1 := by
    rw [flagsByte_bits a b c flags hflags, BitList.unpack_cons, BitList.unpack_nil, List.append_nil]
  have hthree : ∀ bs : BitString,
      bs.writeUint ((1 : ℕ) : ℤ) 3 = bs.writeBitArray (BitList.ofNat 3 1) :=
    fun bs => BitString.writeUint_eq (by decide)
  simp only [headerBytes, BitList.unpack_append, hflag, BitString.writeBitArray_append, bind_assoc]
  simp only [writeHeader, BitString.writeBytes_eq,
    BitString.writeUint_eq (show flags < 2 ^ 2 from hflags), hthree, BitString.writeUint8,
    ← hbyte _ _ hoff,
    hbyte _ _ hnum, hone, hzero,
    writeUint_bytes hsize]

theorem writeIndex_eq {bs : BitString} {hasIdx : Bool} {offsetBytes : ℕ} {sizeIndex : List ℕ}
    (h : ∀ i ∈ sizeIndex, i < 256 ^ offsetBytes) :
    writeIndex bs hasIdx offsetBytes sizeIndex = bs.writeBitArray
      (unpack (if hasIdx then sizeIndex.flatMap (bigEndian offsetBytes) else [])) := by
  rw [writeIndex]
  cases hasIdx with
  | false => rfl
  | true =>
    rw [if_pos rfl, if_pos rfl]
    induction sizeIndex generalizing bs with
    | nil => rfl
    | cons i sizeIndex ih =>
      obtain ⟨hi, h⟩ := List.forall_mem_cons.mp h
      rw [List.foldlM_cons, writeUint_bytes hi, List.flatMap_cons, BitList.unpack_append,
        BitString.writeBitArray_append]
      exact bind_congr fun bs => ih h

/-! ## Cells -/

/-- The bytes of a cell that refers to the cells at these positions. -/
def cellBytes (a : CellData) (refs : List ℕ) : Bytes :=
  BitVec.ofNat 8 (refs.length + (if a.isExotic then 1 else 0) * 8)
    :: BitVec.ofNat 8 (bytesFor a.bits.length + a.bits.length / 8)
    :: pack (topUp a.bits) ++ refs.map (BitVec.ofNat 8)

theorem length_cellBytes {a : CellData} {refs : List ℕ} (ha : a.bits.length ≤ 1023)
    (hrefs : refs.length ≤ 7) : (cellBytes a refs).length ≤ 137 := by
  have hpack := BitList.length_pack (BitString.topUp_dvd a.bits)
  rw [BitString.length_topUp, bytesFor] at hpack
  rw [cellBytes, List.length_append, List.length_cons, List.length_cons, List.length_map]
  omega

theorem indexBytes_eq {i : ℕ} (h : i < 256) : indexBytes i = .ok [BitVec.ofNat 8 i] := by
  have htext := toDigits_byte h
  have hlen : (ascii (Nat.toDigits 16 i)).length % 2 ≠ 0 ↔
      (ascii (Nat.toDigits 16 i)).length = 1 := by
    have hle : (Nat.toDigits 16 i).length ≤ 2 :=
      (Nat.length_toDigits_le_iff (by decide) (by decide)).mpr h
    have hpos : 0 < (Nat.toDigits 16 i).length := Nat.length_toDigits_pos
    rw [ascii, List.length_map]
    omega
  have hencode : hexEncode [BitVec.ofNat 8 i]
      = [hexDigits.getD (i / 16) 0, hexDigits.getD (i % 16) 0] := by
    rw [hexEncode, List.flatMap_cons, BitVec.toNat_ofNat, Nat.mod_eq_of_lt h]
    rfl
  simp only [indexBytes, hlen]
  rw [htext, ← hencode, hexToBytes_hexEncode]

section
variable {sha256 : Bytes → Digest} {result : TreeWalkResult} {c : Cell}

/-- The position of a cell in a bag. -/
def position (sha256 : Bytes → Digest) (result : TreeWalkResult) (r : Cell) : ℕ :=
  (result.indexHashmap (key sha256 r.content)).getD 0

/-- The label and the references of a cell. -/
def Cell.data (c : Cell) : CellData := c.content.label

theorem Cell.data_mk (bits : BitString) (refs : List Cell) (isExotic : Bool) :
    (Cell.mk bits refs isExotic).data = ⟨bits.bits, isExotic⟩ := by
  rw [Cell.data, Cell.content_mk]
  rfl

theorem Cell.Valid.data_short (h : c.Valid) : c.data.bits.length ≤ 1023 ∧ c.refs.length ≤ 7 := by
  obtain ⟨hbits, hlen, -⟩ := h
  rw [Cell.data_mk]
  exact ⟨(BitString.length_bits hbits.fits).trans_le hbits.short, hlen⟩

/-- What is referred to stands behind the cell in the bag. -/
theorem TreeWalkResult.Lists.position_lt (h : result.Lists sha256 c) {i : ℕ} {e : Bytes × Cell}
    (he : result.topologicalOrderArray[i]? = some e) {r : Cell} (hr : r ∈ e.2.refs) :
    i < position sha256 result r ∧ ∃ e', result.topologicalOrderArray[position sha256 result r]?
      = some e' ∧ e'.2.content = r.content ∧
        result.indexHashmap (key sha256 r.content) = some (position sha256 result r) := by
  obtain ⟨hash, j, hhash, hj, hij⟩ := h.forward i e he r hr
  have hvalid := (h.hashes e (List.mem_of_getElem? he)).1
  obtain ⟨hash', hhash', hkey⟩ := (hvalid.refs r hr).key_eq sha256
  obtain rfl := Except.ok.inj (hhash.symm.trans hhash')
  rw [hkey] at hj
  have hpos : position sha256 result r = j := by
    rw [position, hj]
    rfl
  have hget := (h.index _ _).mp hj
  rw [List.getElem?_map, Option.map_eq_some_iff] at hget
  obtain ⟨e', he', hkey'⟩ := hget
  rw [hpos]
  refine ⟨hij, e', he', ?_, hj⟩
  -- the contents are told apart by their keys, which are told apart by their positions
  have hmem : r.content ∈ result.topologicalOrderArray.map fun e => e.2.content := by
    refine (h.contents _).mpr ?_
    have hwithin := (h.contents _).mp (List.mem_map_of_mem (List.mem_of_getElem? he))
    refine (Trees.Within.of_child ?_).trans hwithin
    rw [Cell.children_content]
    exact List.mem_map_of_mem hr
  obtain ⟨e'', he'', hcontent⟩ := List.mem_map.mp hmem
  obtain ⟨k, hk⟩ := List.mem_iff_getElem?.mp he''
  obtain ⟨hvalid'', hhash''⟩ := h.hashes e'' he''
  obtain ⟨x, hx, hkey''⟩ := hvalid''.key_eq sha256
  obtain rfl := Except.ok.inj (hhash''.symm.trans hx)
  have hindex : result.indexHashmap (key sha256 r.content) = some k := by
    rw [h.index, List.getElem?_map, hk, ← hcontent, ← hkey'']
    rfl
  obtain rfl := Option.some.inj (hj.symm.trans hindex)
  rw [he'] at hk
  rw [← hcontent, Option.some.inj hk]

theorem serializeForBoc_eq (h : result.Lists sha256 c)
    (hn : result.topologicalOrderArray.length < 256) {e : Bytes × Cell}
    (he : e ∈ result.topologicalOrderArray) :
    serializeForBoc sha256 result.indexHashmap e.2
      = .ok (cellBytes e.2.data (e.2.refs.map (position sha256 result))) := by
  obtain ⟨i, hi⟩ := List.mem_iff_getElem?.mp he
  have hvalid := (h.hashes e he).1
  have hrefs : ∀ r ∈ e.2.refs, serializeRef sha256 result.indexHashmap r
      = .ok [BitVec.ofNat 8 (position sha256 result r)] := by
    intro r hr
    obtain ⟨-, e', he', -, hindex⟩ := h.position_lt hi hr
    obtain ⟨hash, hhash, hkey⟩ := (hvalid.refs r hr).key_eq sha256
    have hlt := (List.getElem?_eq_some_iff.mp he').1
    rw [serializeRef, hhash]
    simp only [Fault.ok_bind, hkey, hindex]
    exact indexBytes_eq (by omega)
  obtain ⟨hash, bits, refs, isExotic⟩ := e
  have hlevel := hvalid.getMaxLevel_eq_zero
  rw [Cell.getMaxLevel] at hlevel
  obtain ⟨hbits, -, -⟩ := hvalid
  rw [serializeForBoc, getDataWithDescriptors_eq hbits hlevel]
  simp only [Fault.ok_bind, Cell.refs_mk] at hrefs ⊢
  have hflatten : (refs.map fun r => [BitVec.ofNat 8 (position sha256 result r)]).flatten
      = (refs.map (position sha256 result)).map (BitVec.ofNat 8) := by
    rw [List.map_map]
    exact List.map_eq_flatMap.symm
  rw [Fault.mapM_ok hrefs, Fault.ok_bind, hflatten, Cell.data_mk, cellBytes, List.length_map]
  rfl

/-! ## The bag -/

/-- Where the records of a bag begin. -/
def offsets : ℕ → List Bytes → List ℕ
  | _, [] => []
  | n, record :: records => n :: offsets (n + record.length) records

@[simp] theorem length_offsets (n : ℕ) (records : List Bytes) :
    (offsets n records).length = records.length := by
  induction records generalizing n with
  | nil => rfl
  | cons record records ih => rw [offsets, List.length_cons, ih, List.length_cons]

theorem offsets_le (n : ℕ) (records : List Bytes) :
    ∀ i ∈ offsets n records, i ≤ n + records.flatten.length := by
  induction records generalizing n with
  | nil => exact List.forall_mem_nil _
  | cons record records ih =>
    rw [offsets, List.flatten_cons, List.length_append]
    refine List.forall_mem_cons.mpr ⟨Nat.le_add_right _ _, fun i hi => ?_⟩
    have hle := ih _ i hi
    omega

theorem sizeLoop_eq {index : Text → Option ℕ} {order : List (Bytes × Cell)}
    {record : Bytes × Cell → Bytes}
    (h : ∀ e ∈ order, serializeForBoc sha256 index e.2 = .ok (record e)) (sizeIndex : List ℕ)
    (fullSize : ℕ) : sizeLoop sha256 index order sizeIndex fullSize
      = .ok (sizeIndex ++ offsets fullSize (order.map record),
        fullSize + (order.map record).flatten.length) := by
  induction order generalizing sizeIndex fullSize with
  | nil => simp [sizeLoop, offsets]
  | cons e order ih =>
    obtain ⟨he, h⟩ := List.forall_mem_cons.mp h
    rw [sizeLoop, bocSerializationSize, he]
    simp only [Fault.ok_bind, pure, Except.pure, ih h]
    rw [List.map_cons, offsets, List.append_assoc, List.flatten_cons, List.length_append,
      Nat.add_assoc]
    rfl

theorem writeCells_eq {index : Text → Option ℕ} {order : List (Bytes × Cell)}
    {record : Bytes × Cell → Bytes}
    (h : ∀ e ∈ order, serializeForBoc sha256 index e.2 = .ok (record e)) (bs : BitString) :
    writeCells sha256 bs index order = bs.writeBitArray (unpack (order.map record).flatten) := by
  rw [writeCells]
  induction order generalizing bs with
  | nil => rfl
  | cons e order ih =>
    obtain ⟨he, h⟩ := List.forall_mem_cons.mp h
    rw [List.foldlM_cons, he, Fault.ok_bind, List.map_cons, List.flatten_cons,
      BitList.unpack_append, BitString.writeBitArray_append, BitString.writeBytes_eq]
    exact bind_congr fun bs => ih h bs

/-- A number has one byte. -/
theorem sBytes_eq (n : ℕ) : min (bytesFor (Nat.toDigits 2 n).length) 1 = 1 := by
  have hdigits : 0 < (Nat.toDigits 2 n).length := Nat.length_toDigits_pos
  rw [bytesFor]
  omega

/-- How many bytes an offset has. -/
def offsetBytesFor (fullSize : ℕ) : ℕ := max (bytesFor (Nat.toDigits 2 fullSize).length) 1

theorem offsetBytesFor_le {n w : ℕ} (hw : 0 < w) : offsetBytesFor n ≤ w ↔ n < 256 ^ w := by
  have hdigits := Nat.length_toDigits_le_iff (b := 2) (n := n) (k := 8 * w) (by decide) (by omega)
  rw [Nat.pow_mul] at hdigits
  rw [← hdigits, offsetBytesFor, bytesFor]
  omega

theorem lt_offsetBytesFor (n : ℕ) : n < 256 ^ offsetBytesFor n :=
  (offsetBytesFor_le (Nat.le_max_right _ _)).mp (Nat.le_refl _)

/-- The bytes of a bag in front of its checksum. -/
def bagBytes (hasIdx hashCrc32 hasCacheBits : Bool) (flags : ℕ) (records : List Bytes) : Bytes :=
  let fullSize := records.flatten.length
  let offsetBytes := offsetBytesFor fullSize
  headerBytes (flagsByte hasIdx hashCrc32 hasCacheBits flags) offsetBytes records.length fullSize
    ++ (if hasIdx then (offsets 0 records).flatMap (bigEndian offsetBytes) else [])
    ++ records.flatten

/-- The bytes of a bag. -/
def bocBytes (hasIdx hashCrc32 hasCacheBits : Bool) (flags : ℕ) (records : List Bytes) : Bytes :=
  let serArr := bagBytes hasIdx hashCrc32 hasCacheBits flags records
  serArr ++ if hashCrc32 then getCRC32ChecksumAsBytesReversed serArr else []

/-- The records of the cells that the walk has listed. -/
def records (sha256 : Bytes → Digest) (result : TreeWalkResult) : List Bytes :=
  result.topologicalOrderArray.map fun e =>
    cellBytes e.2.data (e.2.refs.map (position sha256 result))

theorem TreeWalkResult.Lists.record_short (h : result.Lists sha256 c) :
    ∀ record ∈ records sha256 result, record.length ≤ 137 := by
  intro record hrecord
  obtain ⟨e, he, rfl⟩ := List.mem_map.mp hrecord
  obtain ⟨hbits, hrefs⟩ := (h.hashes e he).1.data_short
  exact length_cellBytes hbits (by rwa [List.length_map])

theorem length_flatten_le {n : ℕ} {l : List Bytes} (h : ∀ x ∈ l, x.length ≤ n) :
    l.flatten.length ≤ n * l.length := by
  induction l with
  | nil => exact Nat.zero_le _
  | cons x l ih =>
    obtain ⟨hx, h⟩ := List.forall_mem_cons.mp h
    have hle := ih h
    rw [List.flatten_cons, List.length_append, List.length_cons, Nat.mul_succ]
    omega

theorem length_headerBytes (flag : Byte) (offsetBytes cellsNum fullSize : ℕ) :
    (headerBytes flag offsetBytes cellsNum fullSize).length = 10 + offsetBytes := by
  simp only [headerBytes, List.length_append, length_bigEndian, List.length_cons, List.length_nil,
    reachBocMagicPrefix]
  omega

/-- A bag of up to 255 cells has room in the bit string that is made for it. -/
theorem length_bagBytes_le {records : List Bytes} (hpos : 0 < records.length)
    (hn : records.length < 256) (h : ∀ record ∈ records, record.length ≤ 137) (a b d : Bool)
    (flags : ℕ) : 8 * (bagBytes a b d flags records).length ≤ 1247 * records.length := by
  have hsize := length_flatten_le h
  have hoff : offsetBytesFor records.flatten.length ≤ 2 :=
    (offsetBytesFor_le (by decide)).mpr (show _ < 65536 by omega)
  have hindex : ∀ l : List ℕ, (l.flatMap (bigEndian (offsetBytesFor records.flatten.length))).length
      ≤ 2 * l.length := by
    intro l
    induction l with
    | nil => exact Nat.zero_le _
    | cons i l ih =>
      rw [List.flatMap_cons, List.length_append, length_bigEndian, List.length_cons, Nat.mul_succ]
      omega
  have hidx : (if a then (offsets 0 records).flatMap
      (bigEndian (offsetBytesFor records.flatten.length)) else []).length ≤ 2 * records.length := by
    split
    · simpa using hindex (offsets 0 records)
    · exact Nat.zero_le _
  simp only [bagBytes, List.length_append, length_headerBytes]
  omega

/-- Bits that fill whole bytes are exported as these. -/
theorem getTopUppedArray_unpack {bs bs' : BitString} {bytes : Bytes} (hf : bs.Fits)
    (hbits : bs.bits = []) (h : bs.writeBitArray (unpack bytes) = .ok bs') :
    bs'.getTopUppedArray = .ok bytes := by
  have ha := BitString.writeBitArray_appends h
  have hf' := BitString.fits_of_writeBitArray hf h
  have hlen := BitString.length_bits hf'
  have hmod : (unpack bytes).length % 8 = 0 := by
    rw [BitList.length_unpack]
    omega
  rw [ha.bits, hbits, List.nil_append] at hlen
  refine (BitString.getTopUppedArray_eq_ok hf').mpr ⟨?_, ?_⟩
  · rw [BitString.Fits] at hf'
    rw [bytesFor]
    omega
  · rw [ha.bits, hbits, List.nil_append, topUp, if_pos hmod]

/-- The bytes that are written for a bag of up to 255 cells. -/
theorem toBoc_eq {frames : ℕ}
    (hwalk : treeWalk sha256 frames c ⟨[], fun _ => none⟩ none = .ok result)
    (h : result.Lists sha256 c) (hn : result.topologicalOrderArray.length < 256)
    {hasIdx hashCrc32 hasCacheBits : Bool} {flags : ℕ} (hflags : flags < 4) :
    toBoc sha256 frames c hasIdx hashCrc32 hasCacheBits flags
      = .ok (bocBytes hasIdx hashCrc32 hasCacheBits flags (records sha256 result)) := by
  obtain ⟨order, index⟩ := result
  replace hn : order.length < 256 := hn
  have hserialize : ∀ e ∈ order, serializeForBoc sha256 index e.2 = .ok
      (cellBytes e.2.data (e.2.refs.map (position sha256 ⟨order, index⟩))) :=
    fun e he => serializeForBoc_eq h hn he
  have hlen : (records sha256 ⟨order, index⟩).length = order.length := List.length_map _
  have hpos : 0 < order.length := by
    have hfirst := h.first
    cases order with
    | nil => cases hfirst
    | cons e order => exact Nat.succ_pos _
  set rs := records sha256 ⟨order, index⟩ with hrs
  have hshort : ∀ record ∈ rs, record.length ≤ 137 := h.record_short
  have hsize := length_flatten_le hshort
  have hroom := length_bagBytes_le (by rwa [hlen]) (by rwa [hlen]) hshort hasIdx hashCrc32
    hasCacheBits flags
  have hoff : offsetBytesFor rs.flatten.length ≤ 2 :=
    (offsetBytesFor_le (by decide)).mpr (show _ < 65536 by omega)
  have hoffsets : ∀ i ∈ offsets 0 rs, i < 256 ^ offsetBytesFor rs.flatten.length := fun i hi =>
    ((offsets_le 0 rs i hi).trans_eq (Nat.zero_add _)).trans_lt (lt_offsetBytesFor _)
  obtain ⟨bs, hwrite, -⟩ := BitString.writeBitArray_ok
    (.ofLength ((1023 + 32 * 4 + 32 * 3) * order.length))
    (unpack (bagBytes hasIdx hashCrc32 hasCacheBits flags rs)) (by
      rw [BitList.length_unpack, BitString.capacity, BitString.ofLength, List.length_replicate]
      simp only
      omega)
  have hexport := getTopUppedArray_unpack (BitString.fits_ofLength _) rfl hwrite
  simp only [bagBytes, BitList.unpack_append, BitString.writeBitArray_append, hlen] at hwrite
  rw [toBoc, hwalk]
  have hmap : order.map (fun e => cellBytes e.2.data
      (e.2.refs.map (position sha256 ⟨order, index⟩))) = rs := rfl
  simp only [Fault.ok_bind, sizeLoop_eq hserialize, sBytes_eq, hmap, Nat.zero_add,
    List.nil_append]
  rw [← offsetBytesFor, writeHeader_eq hflags (by omega) hn (lt_offsetBytesFor _)]
  simp only [writeIndex_eq hoffsets, writeCells_eq hserialize, hmap]
  rw [← bind_assoc, ← bind_assoc, hwrite, Fault.ok_bind, hexport, Fault.ok_bind, bocBytes]
  cases hashCrc32 with
  | false => exact congrArg Except.ok (List.append_nil _).symm
  | true => rfl

/-- A bag has as many cells as there are contents in the cell. -/
theorem TreeWalkResult.Lists.length_eq (h : result.Lists sha256 c) :
    result.topologicalOrderArray.length = {t | Within t c.content}.ncard := by
  classical
  have hset : {t | Within t c.content}
      = ↑(result.topologicalOrderArray.map fun e => e.2.content).toFinset := by
    ext t
    rw [List.coe_toFinset, Set.mem_ofPred_eq, Set.mem_ofPred_eq, h.contents]
  rw [hset, Set.ncard_coe_finset, List.toFinset_card_of_nodup h.distinct, List.length_map]

/-- A header is written only for flags of two bits and a number of one byte. -/
theorem writeHeader_eq_ok {bs bs' : BitString} {a b d : Bool} {flags : ℤ} {off num size : ℕ}
    (h : writeHeader bs a b d flags 1 off num size = .ok bs') :
    (0 ≤ flags ∧ flags < 4) ∧ num < 256 := by
  simp only [writeHeader, Fault.bind_eq_ok] at h
  obtain ⟨_, _, _, _, _, hflags, _, _, _, _, _, hnum, -⟩ := h
  obtain ⟨n, rfl, hn, -⟩ := BitString.writeUint_eq_ok hflags
  obtain ⟨m, hm, hlt, -⟩ := BitString.writeUint_eq_ok hnum
  obtain rfl := Int.ofNat.inj hm
  exact ⟨by omega, hlt⟩

/-- **How many cells a bag may have.** Where no two parts of a cell collide, a bag is written if
and only if the flags have two bits and fewer than 256 contents stand in the cell: a number has one
byte there, however many are needed. -/
theorem toBoc_ok_iff (sha256 : Bytes → Digest) {c : Cell} (hc : c.Valid)
    (hcollision : ¬ Collision sha256 c c) {frames : ℕ} (hframes : c.getMaxDepth < frames)
    (hasIdx hashCrc32 hasCacheBits : Bool) (flags : ℤ) :
    (∃ bytes, toBoc sha256 frames c hasIdx hashCrc32 hasCacheBits flags = .ok bytes) ↔
      (0 ≤ flags ∧ flags < 4) ∧ {t | Within t c.content}.ncard < 256 := by
  obtain ⟨result, hwalk, h⟩ := treeWalk_spec sha256 hc hcollision hframes
  rw [← h.length_eq]
  constructor
  · rintro ⟨bytes, hbytes⟩
    rw [toBoc, hwalk] at hbytes
    simp only [Fault.ok_bind, sBytes_eq] at hbytes
    obtain ⟨sizes, -, hbytes⟩ := Fault.bind_eq_ok.mp hbytes
    obtain ⟨bs, hheader, -⟩ := Fault.bind_eq_ok.mp hbytes
    exact writeHeader_eq_ok hheader
  · rintro ⟨⟨hpos, hflags⟩, hn⟩
    obtain ⟨n, rfl⟩ := Int.eq_ofNat_of_zero_le hpos
    exact ⟨_, toBoc_eq hwalk h hn (by omega)⟩

theorem toBoc_ok_sharedCell :
    (∃ bytes, toBoc firstBytes 3 sharedCell true true false 0 = .ok bytes) ↔
      ((0 : ℤ) ≤ 0 ∧ (0 : ℤ) < 4) ∧ {t | Within t sharedCell.content}.ncard < 256 :=
  toBoc_ok_iff firstBytes valid_sharedCell not_collision_sharedCell (by decide) true true false 0

end

end TonWallet.Cells
