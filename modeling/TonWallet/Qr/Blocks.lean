import TonWallet.Qr.ReedSolomon
import TonWallet.Qr.Version

/-!
# The blocks of a QR code

The codewords of a QR code stand in blocks that are interleaved: `Encoder.java` splits the
data into blocks, adds the error-correction codewords of each, and lists the first codewords
of all blocks, then the second, and so on. `DataBlock.java` sorts the codewords that have
been read into their blocks again, and `Decoder.java` corrects each block.

* `generateECBytes_spec`: a block with few enough errors gives its data back.
* `getDataBlocks_eq`: every block gets the codewords that stand at its places in the list
  (`places`), in which each place stands once.
* `resultBytes_interleave`: in every version and level the data come back from whatever was read,
  if in each block at most half as many codewords are wrong as it has for error correction.
* `near_getDataBlocks`: no block has more errors than there are wrong codewords.
-/

namespace TonWallet.Qr

open GenericGF ReedSolomon TonWallet.Encoding

/-! ## The encoder -/

def ofByte (b : Byte) : Elem QR_CODE_FIELD_256 := ⟨b⟩

def toByte (x : Elem QR_CODE_FIELD_256) : Byte := x.value

/-- `BlockPair` (`BlockPair.java` lines 19–27). -/
structure BlockPair where
  dataBytes : Bytes
  ecBytes : Bytes

/-- `getNumDataBytesAndNumECBytesForBlockID` (`Encoder.java` lines 351–401). -/
def getNumDataBytesAndNumECBytesForBlockID (numTotalBytes numDataBytes numRSBlocks blockID : ℕ) :
    Except Fault (ℕ × ℕ) := do
  Calls.throwIf (blockID ≥ numRSBlocks) (.writer (ascii "Block ID too large".toList))
  let numRsBlocksInGroup2 := numTotalBytes % numRSBlocks
  let numRsBlocksInGroup1 := numRSBlocks - numRsBlocksInGroup2
  let numTotalBytesInGroup1 := numTotalBytes / numRSBlocks
  let numTotalBytesInGroup2 := numTotalBytesInGroup1 + 1
  let numDataBytesInGroup1 := numDataBytes / numRSBlocks
  let numDataBytesInGroup2 := numDataBytesInGroup1 + 1
  let numEcBytesInGroup1 := numTotalBytesInGroup1 - numDataBytesInGroup1
  let numEcBytesInGroup2 := numTotalBytesInGroup2 - numDataBytesInGroup2
  Calls.throwIf (numEcBytesInGroup1 ≠ numEcBytesInGroup2)
    (.writer (ascii "EC bytes mismatch".toList))
  Calls.throwIf (numRSBlocks ≠ numRsBlocksInGroup1 + numRsBlocksInGroup2)
    (.writer (ascii "RS blocks mismatch".toList))
  Calls.throwIf (numTotalBytes ≠
      (numDataBytesInGroup1 + numEcBytesInGroup1) * numRsBlocksInGroup1 +
        (numDataBytesInGroup2 + numEcBytesInGroup2) * numRsBlocksInGroup2)
    (.writer (ascii "Total bytes mismatch".toList))
  return if blockID < numRsBlocksInGroup1 then (numDataBytesInGroup1, numEcBytesInGroup1)
    else (numDataBytesInGroup2, numEcBytesInGroup2)

/-- `generateECBytes` (`Encoder.java` lines 475–488). -/
def generateECBytes (dataBytes : Bytes) (numEcBytesInBlock : ℕ) : Except Fault Bytes := do
  let toEncode ← encode (dataBytes.map ofByte ++ List.replicate numEcBytesInBlock 0)
    numEcBytesInBlock
  return (toEncode.drop dataBytes.length).map toByte

/-- `bits.toBytes`: `size` bytes from the index `offset` on. -/
def toBytes (bytes : Bytes) (offset size : ℕ) : Bytes :=
  (List.range size).map fun i => bytes.getD (offset + i) 0

/-- The body of the loop that makes the blocks (`Encoder.java` lines 427–441). -/
def addBlock (bytes : Bytes) (numTotalBytes numDataBytes numRSBlocks : ℕ)
    (s : List BlockPair × ℕ) (i : ℕ) : Except Fault (List BlockPair × ℕ) := do
  let sizes ← getNumDataBytesAndNumECBytesForBlockID numTotalBytes numDataBytes numRSBlocks i
  let dataBytes := toBytes bytes s.2 sizes.1
  let ecBytes ← generateECBytes dataBytes sizes.2
  return (s.1 ++ [⟨dataBytes, ecBytes⟩], s.2 + sizes.1)

/-- The bytes with the index `i`, of the arrays that are long enough (`Encoder.java` lines
451–456). -/
def column (arrays : List Bytes) (i : ℕ) : Bytes :=
  arrays.flatMap fun a => if h : i < a.length then [a[i]] else []

/-- `interleaveWithECBytes` (`Encoder.java` lines 407–473), for the bytes of the array of bits. -/
def interleaveWithECBytes (bytes : Bytes) (numTotalBytes numDataBytes numRSBlocks : ℕ) :
    Except Fault Bytes := do
  Calls.throwIf (bytes.length ≠ numDataBytes)
    (.writer (ascii "Number of bits and data bytes does not match".toList))
  let s ← (List.range numRSBlocks).foldlM
    (addBlock bytes numTotalBytes numDataBytes numRSBlocks) ([], 0)
  let maxNumDataBytes := (s.1.map fun b => b.dataBytes.length).foldl max 0
  let maxNumEcBytes := (s.1.map fun b => b.ecBytes.length).foldl max 0
  Calls.throwIf (numDataBytes ≠ s.2) (.writer (ascii "Data bytes does not match offset".toList))
  let result := (List.range maxNumDataBytes).flatMap (column (s.1.map BlockPair.dataBytes)) ++
    (List.range maxNumEcBytes).flatMap (column (s.1.map BlockPair.ecBytes))
  Calls.throwIf (numTotalBytes ≠ result.length) (.writer
    (ascii "Interleaving error: ".toList ++ ascii (Nat.toDigits 10 numTotalBytes) ++
      ascii " and ".toList ++ ascii (Nat.toDigits 10 result.length) ++ ascii " differ.".toList))
  return result

/-! ## The decoder -/

/-- `DataBlock` (`DataBlock.java` lines 28–34). -/
structure DataBlock where
  numDataCodewords : ℕ
  codewords : Bytes
deriving DecidableEq, Repr

/-- The places of the codewords in the blocks, as pairs of a block and an index, in the order in
which they are filled (`DataBlock.java` lines 93–110). -/
def places (numResultBlocks longerBlocksStartAt shorterBlocksNumDataCodewords max : ℕ) :
    List (ℕ × ℕ) :=
  ((List.range shorterBlocksNumDataCodewords).flatMap fun i =>
      (List.range numResultBlocks).map fun j => (j, i)) ++
    ((List.range' longerBlocksStartAt (numResultBlocks - longerBlocksStartAt)).map fun j =>
      (j, shorterBlocksNumDataCodewords)) ++
    (List.range' shorterBlocksNumDataCodewords (max - shorterBlocksNumDataCodewords)).flatMap
      fun i => (List.range numResultBlocks).map fun j =>
        (j, if j < longerBlocksStartAt then i else i + 1)

/-- `result[j].codewords[i] = rawCodewords[rawCodewordsOffset++]`. -/
def fill (result : List DataBlock) (p : (ℕ × ℕ) × Byte) : List DataBlock :=
  result.modify p.1.1 fun b => { b with codewords := b.codewords.set p.1.2 p.2 }

/-- `getDataBlocks` (`DataBlock.java` lines 47–112). -/
def getDataBlocks (rawCodewords : Bytes) (version : Version) (ecLevel : ErrorCorrectionLevel) :
    Except Fault (List DataBlock) := do
  Calls.throwIf (rawCodewords.length ≠ version.getTotalCodewords) (.illegalArgument [])
  let ecBlocks := version.getECBlocksForLevel ecLevel
  let result := ecBlocks.ecBlocks.flatMap fun b => List.replicate b.count
    (⟨b.dataCodewords, List.replicate (ecBlocks.ecCodewordsPerBlock + b.dataCodewords) 0⟩ :
      DataBlock)
  Calls.throwIf (result = []) .indexOutOfBounds
  let lengths := result.map fun b => b.codewords.length
  let shorterBlocksTotalCodewords := lengths.getD 0 0
  -- the last block with the length of the first, and what follows
  let longerBlocksStartAt :=
    lengths.length - (lengths.reverse.takeWhile (· ≠ shorterBlocksTotalCodewords)).length
  let shorterBlocksNumDataCodewords := shorterBlocksTotalCodewords - ecBlocks.ecCodewordsPerBlock
  let places := places result.length longerBlocksStartAt shorterBlocksNumDataCodewords
    shorterBlocksTotalCodewords
  return (places.zip rawCodewords).foldl fill result

/-- `correctErrors` (`Decoder.java` lines 170–187). -/
def correctErrors (codewordBytes : Bytes) (numDataCodewords : ℕ) : Except Fault Bytes :=
  match decode (codewordBytes.map ofByte) (codewordBytes.length - numDataCodewords) with
  | .error (.reedSolomon _) => .error .checksum
  | .error e => .error e
  | .ok codewordsInts => .ok
    ((codewordsInts.take numDataCodewords).map toByte ++ codewordBytes.drop numDataCodewords)

/-- The data bytes of a block (`Decoder.java` lines 150–155). -/
def blockData (dataBlock : DataBlock) : Except Fault Bytes := do
  let codewordBytes ← correctErrors dataBlock.codewords dataBlock.numDataCodewords
  return codewordBytes.take dataBlock.numDataCodewords

/-- `resultBytes` (`Decoder.java` lines 138–156). -/
def resultBytes (codewords : Bytes) (version : Version) (ecLevel : ErrorCorrectionLevel) :
    Except Fault Bytes := do
  let dataBlocks ← getDataBlocks codewords version ecLevel
  let data ← dataBlocks.mapM blockData
  return data.flatten

/-! ## One block -/

/-- In how many places an array differs from another. -/
def byteErrors (received sent : Bytes) : ℕ :=
  ((Finset.range sent.length).filter fun i => received.getD i 0 ≠ sent.getD i 0).card

theorem size_qr : QR_CODE_FIELD_256.size = 256 := rfl

theorem getD_map_ofByte (l : Bytes) (i : ℕ) : (l.map ofByte).getD i 0 = ofByte (l.getD i 0) := by
  rw [List.getD_eq_getElem?_getD, List.getElem?_map, List.getD_eq_getElem?_getD]
  cases l[i]? with
  | none => rfl
  | some b => rfl

theorem errorPositions_map_ofByte (l m : Bytes) :
    (errorPositions (l.map ofByte) (m.map ofByte)).card = byteErrors l m := by
  have hinj : ∀ a b : Byte, ofByte a ≠ ofByte b ↔ a ≠ b := by
    intro a b
    exact not_congr ⟨fun h => congrArg Elem.value h, fun h => h ▸ rfl⟩
  simp only [errorPositions, byteErrors, List.length_map, getD_map_ofByte, hinj]

/-- A block that has been made from data gives them back, if at most half as many of its codewords
are wrong as have been added. -/
theorem generateECBytes_spec {data : Bytes} (hdata : data ≠ []) {n : ℕ} (hn : 0 < n)
    (hsize : data.length + n < 256) :
    ∃ ec, generateECBytes data n = .ok ec ∧ ec.length = n ∧
      ∀ received : Bytes, received.length = data.length + n →
        2 * byteErrors received (data ++ ec) ≤ n →
          blockData ⟨data.length, received⟩ = .ok data := by
  have hpos := List.length_pos_iff.mpr hdata
  have hlength : (data.map ofByte ++ List.replicate n 0).length = data.length + n := by simp
  obtain ⟨codeword, hencode, hcodeword, htake, hcode⟩ :=
    encode_spec hn (show n < (data.map ofByte ++ List.replicate n 0).length by omega)
      (by rw [size_qr]; exact (by omega : n + 0 ≤ 256))
  rw [hlength, Nat.add_sub_cancel, List.take_left' (List.length_map ofByte)] at htake
  have hsplit : codeword =
      (data ++ (codeword.drop data.length).map toByte).map ofByte := by
    rw [List.map_append, List.map_map, ← htake, show ofByte ∘ toByte = id from rfl, List.map_id,
      List.take_append_drop]
  refine ⟨(codeword.drop data.length).map toByte, ?_, ?_, fun received hreceived herrors => ?_⟩
  · rw [generateECBytes, hencode, Calls.ok_bind, Calls.pure_eq_ok]
  · rw [List.length_map, List.length_drop, hcodeword, hlength, Nat.add_sub_cancel_left]
  · rw [← errorPositions_map_ofByte, ← hsplit] at herrors
    have hdecode : decode (received.map ofByte) n = .ok codeword := by
      refine decode_codeword ?_ ?_ ?_ ?_ ?_ hcode herrors
      · rw [← List.length_pos_iff]
        omega
      · rw [List.length_map]
        omega
      · rw [size_qr]
        omega
      · exact Nat.zero_le 1
      · rw [size_qr]
        exact (by omega : n + 0 ≤ 256)
    have hcorrect : correctErrors received data.length =
        .ok (data ++ received.drop data.length) := by
      rw [correctErrors, hreceived, Nat.add_sub_cancel_left, hdecode]
      show Except.ok ((codeword.take data.length).map toByte ++ received.drop data.length) = _
      rw [htake, List.map_map, show toByte ∘ ofByte = id from rfl, List.map_id]
    rw [blockData, hcorrect, Calls.ok_bind, List.take_left, Calls.pure_eq_ok]

/-! ## The sizes of the blocks -/

section Shape

variable {ecBlocks : ECBlocks} {total short long size : ℕ}

/-- The number of data codewords in the block `j`. -/
def dataSize (short size j : ℕ) : ℕ := if j < short then size else size + 1

/-- The sizes that the writer computes are those of the version. -/
theorem Geometry.getNum (h : Geometry ecBlocks total short long size) {j : ℕ}
    (hj : j < short + long) :
    getNumDataBytesAndNumECBytesForBlockID total ((short + long) * size + long) (short + long) j =
      .ok (dataSize short size j, ecBlocks.ecCodewordsPerBlock) := by
  have hshort := h.short_pos
  have hlt : long < short + long := by omega
  have hpos : 0 < short + long := by omega
  have hmod : total % (short + long) = long := by
    rw [h.total_eq, Nat.mul_add_mod, Nat.mod_eq_of_lt hlt]
  have hdiv : total / (short + long) = size + ecBlocks.ecCodewordsPerBlock := by
    rw [h.total_eq, Nat.mul_add_div hpos, Nat.div_eq_of_lt hlt, Nat.add_zero]
  have hdata : ((short + long) * size + long) / (short + long) = size := by
    rw [Nat.mul_add_div hpos, Nat.div_eq_of_lt hlt, Nat.add_zero]
  have hec : size + ecBlocks.ecCodewordsPerBlock - size = ecBlocks.ecCodewordsPerBlock := by omega
  have hec' : size + ecBlocks.ecCodewordsPerBlock + 1 - (size + 1) =
      ecBlocks.ecCodewordsPerBlock := by omega
  have htotal : total = (size + ecBlocks.ecCodewordsPerBlock) * short +
      (size + 1 + ecBlocks.ecCodewordsPerBlock) * long := by
    rw [h.total_eq]
    ring
  unfold getNumDataBytesAndNumECBytesForBlockID
  simp only [hmod, hdiv, hdata, hec, hec', Nat.add_sub_cancel]
  rw [Calls.throwIf_bind (by omega), Calls.throwIf_bind (by simp), Calls.throwIf_bind (by simp),
    Calls.throwIf_bind (by rw [not_not]; exact htotal)]
  unfold dataSize
  split_ifs with hlt'
  · rfl
  · rfl

/-! ## What is written -/

/-- The number of data bytes in front of the block `j`. -/
def dataOffset (short size j : ℕ) : ℕ := j * size + (j - short)

theorem dataOffset_succ (short size j : ℕ) :
    dataOffset short size (j + 1) = dataOffset short size j + dataSize short size j := by
  unfold dataOffset dataSize
  rw [Nat.succ_mul]
  split_ifs with h
  · omega
  · omega

/-- The data of the block `j`. -/
def blockBytes (bytes : Bytes) (short size j : ℕ) : Bytes :=
  toBytes bytes (dataOffset short size j) (dataSize short size j)

/-- The error-correction codewords of the block `j`. -/
def blockEC (bytes : Bytes) (short size ec j : ℕ) : Bytes :=
  (generateECBytes (blockBytes bytes short size j) ec).toOption.getD []

/-- All codewords of the block `j`. -/
def blockCodewords (bytes : Bytes) (short size ec j : ℕ) : Bytes :=
  blockBytes bytes short size j ++ blockEC bytes short size ec j

theorem length_blockBytes (bytes : Bytes) (short size j : ℕ) :
    (blockBytes bytes short size j).length = dataSize short size j := by
  simp [blockBytes, toBytes]

theorem dataSize_bounds (short size j : ℕ) :
    size ≤ dataSize short size j ∧ dataSize short size j ≤ size + 1 := by
  unfold dataSize
  split_ifs with h
  · omega
  · omega

/-- Each block can be corrected. -/
theorem Geometry.block (h : Geometry ecBlocks total short long size) (bytes : Bytes) (j : ℕ) :
    generateECBytes (blockBytes bytes short size j) ecBlocks.ecCodewordsPerBlock =
        .ok (blockEC bytes short size ecBlocks.ecCodewordsPerBlock j) ∧
      (blockEC bytes short size ecBlocks.ecCodewordsPerBlock j).length =
        ecBlocks.ecCodewordsPerBlock ∧
      ∀ received : Bytes,
        received.length = dataSize short size j + ecBlocks.ecCodewordsPerBlock →
        2 * byteErrors received (blockCodewords bytes short size ecBlocks.ecCodewordsPerBlock j) ≤
          ecBlocks.ecCodewordsPerBlock →
        blockData ⟨dataSize short size j, received⟩ = .ok (blockBytes bytes short size j) := by
  have hsize := h.size_pos
  have hlt := h.lt_256
  have hbounds := dataSize_bounds short size j
  have hlength := length_blockBytes bytes short size j
  have hne : blockBytes bytes short size j ≠ [] := List.length_pos_iff.mp (by omega)
  obtain ⟨ec, hec, hn, hcorrect⟩ := generateECBytes_spec hne h.ec_pos (by omega)
  have heq : blockEC bytes short size ecBlocks.ecCodewordsPerBlock j = ec := by
    rw [blockEC, hec]
    rfl
  rw [blockCodewords, heq]
  rw [hlength] at hcorrect
  exact ⟨hec, hn, hcorrect⟩

theorem Geometry.addBlocks (h : Geometry ecBlocks total short long size) (bytes : Bytes) {m : ℕ}
    (hm : m ≤ short + long) :
    (List.range m).foldlM (addBlock bytes total ((short + long) * size + long) (short + long))
        ([], 0) =
      .ok ((List.range m).map fun j => ⟨blockBytes bytes short size j,
        blockEC bytes short size ecBlocks.ecCodewordsPerBlock j⟩, dataOffset short size m) := by
  induction m with
  | zero => simp [dataOffset]
  | succ m ih =>
    have hblock : generateECBytes (toBytes bytes (dataOffset short size m) (dataSize short size m))
        ecBlocks.ecCodewordsPerBlock =
          .ok (blockEC bytes short size ecBlocks.ecCodewordsPerBlock m) := (h.block bytes m).1
    rw [List.range_succ, List.foldlM_append, ih (by omega), Calls.ok_bind, List.foldlM_cons,
      addBlock, h.getNum (by omega), Calls.ok_bind]
    simp only [hblock, Calls.ok_bind, Calls.pure_eq_ok, List.foldlM_nil, List.map_append,
      List.map_cons, List.map_nil, dataOffset_succ]
    rfl

/-- The data of the blocks, one behind the other, are the bytes again. -/
theorem flatten_blockBytes (bytes : Bytes) (short size : ℕ) {m : ℕ}
    (hm : dataOffset short size m ≤ bytes.length) :
    ((List.range m).map (blockBytes bytes short size)).flatten =
      bytes.take (dataOffset short size m) := by
  induction m with
  | zero => simp [dataOffset]
  | succ m ih =>
    rw [dataOffset_succ] at hm ⊢
    have hslice : blockBytes bytes short size m =
        (bytes.drop (dataOffset short size m)).take (dataSize short size m) := by
      refine List.ext_getElem ?_ fun i hi hi' => ?_
      · rw [length_blockBytes, List.length_take, List.length_drop]
        omega
      · rw [length_blockBytes] at hi
        rw [List.getElem_take, List.getElem_drop]
        simp only [blockBytes, toBytes, List.getElem_map, List.getElem_range]
        rw [List.getD_eq_getElem _ _ (by omega)]
    rw [List.range_succ, List.map_append, List.flatten_append, ih (by omega), List.take_add]
    simp [hslice]

theorem foldl_max_replicate (a c k : ℕ) :
    (List.replicate k c).foldl max a = if k = 0 then a else max a c := by
  induction k generalizing a with
  | zero => simp
  | succ k ih =>
    rw [List.replicate_succ, List.foldl_cons, ih, if_neg (Nat.succ_ne_zero k)]
    split_ifs with h
    · rfl
    · omega

theorem map_dataSize (short long size : ℕ) : (List.range (short + long)).map (dataSize short size) =
    List.replicate short size ++ List.replicate long (size + 1) := by
  rw [List.range_add, List.map_append, List.map_map]
  congr 1
  · refine List.eq_replicate_iff.mpr ⟨by simp, fun x hx => ?_⟩
    obtain ⟨j, hj, rfl⟩ := List.mem_map.mp hx
    rw [dataSize, if_pos (List.mem_range.mp hj)]
  · refine List.eq_replicate_iff.mpr ⟨by simp, fun x hx => ?_⟩
    obtain ⟨j, hj, rfl⟩ := List.mem_map.mp hx
    rw [Function.comp_apply, dataSize, if_neg (by omega)]

theorem column_map_range (A : ℕ → Bytes) (n i : ℕ) : column ((List.range n).map A) i =
    (List.range n).flatMap fun j => if i < (A j).length then [(A j).getD i 0] else [] := by
  rw [column, List.flatMap_map]
  refine List.flatMap_congr fun j _ => ?_
  split_ifs with h
  · rw [List.getD_eq_getElem _ _ h]
  · rfl

/-- A column that all arrays reach. -/
theorem column_full {A : ℕ → Bytes} {f : ℕ → Byte} {n i : ℕ} (hA : ∀ j < n, i < (A j).length)
    (hf : ∀ j < n, (A j).getD i 0 = f j) :
    column ((List.range n).map A) i = (List.range n).map f := by
  rw [column_map_range, List.map_eq_flatMap]
  refine List.flatMap_congr fun j hj => ?_
  rw [if_pos (hA j (List.mem_range.mp hj)), hf j (List.mem_range.mp hj)]

/-- The column of the longer arrays. -/
theorem column_long {A : ℕ → Bytes} {f : ℕ → Byte} {short long i : ℕ}
    (hshort : ∀ j < short, (A j).length ≤ i) (hlong : ∀ j < short + long, short ≤ j →
      i < (A j).length ∧ (A j).getD i 0 = f j) :
    column ((List.range (short + long)).map A) i = (List.range' short long).map f := by
  rw [column_map_range, List.range_add, List.flatMap_append]
  have hnil : ((List.range short).flatMap fun j =>
      if i < (A j).length then [(A j).getD i 0] else []) = [] := by
    refine List.flatMap_eq_nil_iff.mpr fun j hj => ?_
    rw [if_neg (not_lt.mpr (hshort j (List.mem_range.mp hj)))]
  rw [hnil, List.nil_append, ← List.range'_eq_map_range, List.map_eq_flatMap]
  refine List.flatMap_congr fun j hj => ?_
  have hj := List.mem_range'_1.mp hj
  obtain ⟨hlt, hvalue⟩ := hlong j hj.2 hj.1
  rw [if_pos hlt, hvalue]

theorem length_places (n start size ec : ℕ) :
    (places n start size (size + ec)).length = n * (size + ec) + (n - start) := by
  simp only [places, List.length_append, List.length_flatMap, List.length_map, List.length_range,
    List.length_range', List.map_const', List.sum_replicate, smul_eq_mul, Nat.add_sub_cancel_left]
  ring

theorem Geometry.length_places (h : Geometry ecBlocks total short long size) :
    (places (short + long) short size (size + ecBlocks.ecCodewordsPerBlock)).length = total := by
  rw [Qr.length_places, h.total_eq, Nat.add_sub_cancel_left]

/-- The columns of the data. -/
theorem dataColumns (bytes : Bytes) (short long size ec : ℕ) :
    (List.range (if long = 0 then size else size + 1)).flatMap
        (column ((List.range (short + long)).map (blockBytes bytes short size))) =
      ((List.range size).flatMap fun i => (List.range (short + long)).map fun j =>
        (blockCodewords bytes short size ec j).getD i 0) ++
      (List.range' short long).map fun j => (blockCodewords bytes short size ec j).getD size 0 := by
  have hfull : ∀ i ∈ List.range size,
      column ((List.range (short + long)).map (blockBytes bytes short size)) i =
        (List.range (short + long)).map fun j =>
          (blockCodewords bytes short size ec j).getD i 0 := by
    intro i hi
    have hi := List.mem_range.mp hi
    refine column_full (fun j _ => ?_) fun j _ => ?_
    · rw [length_blockBytes]
      exact hi.trans_le (dataSize_bounds short size j).1
    · rw [blockCodewords, List.getD_append]
      rw [length_blockBytes]
      exact hi.trans_le (dataSize_bounds short size j).1
  have hlast : column ((List.range (short + long)).map (blockBytes bytes short size)) size =
      (List.range' short long).map fun j => (blockCodewords bytes short size ec j).getD size 0 := by
    refine column_long (fun j hj => ?_) fun j _ hj => ?_
    · rw [length_blockBytes, dataSize, if_pos hj]
    · have hlt : size < (blockBytes bytes short size j).length := by
        rw [length_blockBytes, dataSize, if_neg (by omega)]
        omega
      exact ⟨hlt, by rw [blockCodewords, List.getD_append _ _ _ _ hlt]⟩
  split_ifs with hlong
  · rw [List.flatMap_congr hfull, hlong]
    simp
  · rw [List.range_succ, List.flatMap_append, List.flatMap_congr hfull, List.flatMap_singleton,
      hlast]

/-- The columns of the error-correction codewords. -/
theorem Geometry.ecColumns (h : Geometry ecBlocks total short long size) (bytes : Bytes) :
    (List.range ecBlocks.ecCodewordsPerBlock).flatMap
        (column ((List.range (short + long)).map
          (blockEC bytes short size ecBlocks.ecCodewordsPerBlock))) =
      (List.range' size ecBlocks.ecCodewordsPerBlock).flatMap fun i =>
        (List.range (short + long)).map fun j =>
          (blockCodewords bytes short size ecBlocks.ecCodewordsPerBlock j).getD
            (if j < short then i else i + 1) 0 := by
  rw [List.range'_eq_map_range, List.flatMap_map]
  refine List.flatMap_congr fun k hk => ?_
  have hk := List.mem_range.mp hk
  refine column_full (fun j _ => ?_) fun j _ => ?_
  · rw [(h.block bytes j).2.1]
    exact hk
  · have hindex : (if j < short then size + k else size + k + 1) =
        (blockBytes bytes short size j).length + k := by
      rw [length_blockBytes, dataSize]
      split_ifs with hj
      · rfl
      · omega
    rw [hindex, blockCodewords, List.getD_append_right _ _ _ _ (Nat.le_add_right _ _),
      Nat.add_sub_cancel_left]

/-- The blocks that are written. -/
def blockPairs (bytes : Bytes) (short long size ec : ℕ) : List BlockPair :=
  (List.range (short + long)).map fun j =>
    ⟨blockBytes bytes short size j, blockEC bytes short size ec j⟩

theorem map_dataBytes (bytes : Bytes) (short long size ec : ℕ) :
    (blockPairs bytes short long size ec).map BlockPair.dataBytes =
      (List.range (short + long)).map (blockBytes bytes short size) := by
  rw [blockPairs, List.map_map]
  rfl

theorem map_ecBytes (bytes : Bytes) (short long size ec : ℕ) :
    (blockPairs bytes short long size ec).map BlockPair.ecBytes =
      (List.range (short + long)).map (blockEC bytes short size ec) := by
  rw [blockPairs, List.map_map]
  rfl

theorem Geometry.maxNumDataBytes (h : Geometry ecBlocks total short long size) (bytes : Bytes)
    (ec : ℕ) : ((blockPairs bytes short long size ec).map fun b => b.dataBytes.length).foldl max 0 =
      if long = 0 then size else size + 1 := by
  have hshort := h.short_pos
  have hlengths : ((blockPairs bytes short long size ec).map fun b => b.dataBytes.length) =
      (List.range (short + long)).map (dataSize short size) := by
    rw [blockPairs, List.map_map]
    exact List.map_congr_left fun j _ => length_blockBytes bytes short size j
  rw [hlengths, map_dataSize, List.foldl_append, foldl_max_replicate, foldl_max_replicate,
    if_neg hshort.ne']
  split_ifs with hlong
  · omega
  · omega

theorem Geometry.maxNumEcBytes (h : Geometry ecBlocks total short long size) (bytes : Bytes) :
    ((blockPairs bytes short long size ecBlocks.ecCodewordsPerBlock).map
      fun b => b.ecBytes.length).foldl max 0 = ecBlocks.ecCodewordsPerBlock := by
  have hshort := h.short_pos
  have hlengths : ((blockPairs bytes short long size ecBlocks.ecCodewordsPerBlock).map
      fun b => b.ecBytes.length) =
        List.replicate (short + long) ecBlocks.ecCodewordsPerBlock := by
    rw [blockPairs, List.map_map]
    refine List.eq_replicate_iff.mpr ⟨by simp, fun x hx => ?_⟩
    obtain ⟨j, -, rfl⟩ := List.mem_map.mp hx
    exact (h.block bytes j).2.1
  rw [hlengths, foldl_max_replicate, if_neg (by omega)]
  omega

/-- The list of all codewords: what stands at each place. -/
theorem Geometry.interleave (h : Geometry ecBlocks total short long size) {bytes : Bytes}
    (hbytes : bytes.length = (short + long) * size + long) :
    interleaveWithECBytes bytes total ((short + long) * size + long) (short + long) =
      .ok ((places (short + long) short size (size + ecBlocks.ecCodewordsPerBlock)).map fun p =>
        (blockCodewords bytes short size ecBlocks.ecCodewordsPerBlock p.1).getD p.2 0) := by
  have hblocks : (List.range (short + long)).foldlM
      (addBlock bytes total ((short + long) * size + long) (short + long)) ([], 0) =
        .ok (blockPairs bytes short long size ecBlocks.ecCodewordsPerBlock,
          dataOffset short size (short + long)) := h.addBlocks bytes le_rfl
  have hoffset : dataOffset short size (short + long) = (short + long) * size + long := by
    rw [dataOffset, Nat.add_sub_cancel_left]
  have hplaces : ((places (short + long) short size
      (size + ecBlocks.ecCodewordsPerBlock)).map fun p =>
        (blockCodewords bytes short size ecBlocks.ecCodewordsPerBlock p.1).getD p.2 0) =
      (List.range (if long = 0 then size else size + 1)).flatMap
        (column ((List.range (short + long)).map (blockBytes bytes short size))) ++
      (List.range ecBlocks.ecCodewordsPerBlock).flatMap
        (column ((List.range (short + long)).map
          (blockEC bytes short size ecBlocks.ecCodewordsPerBlock))) := by
    rw [dataColumns bytes short long size ecBlocks.ecCodewordsPerBlock, h.ecColumns]
    simp only [places, List.map_append, List.map_flatMap, List.map_map, Nat.add_sub_cancel_left]
    rfl
  have hlength : total = ((places (short + long) short size
      (size + ecBlocks.ecCodewordsPerBlock)).map fun p =>
        (blockCodewords bytes short size ecBlocks.ecCodewordsPerBlock p.1).getD p.2 0).length := by
    rw [List.length_map, h.length_places]
  rw [interleaveWithECBytes, Calls.throwIf_bind (not_not.mpr hbytes), hblocks, Calls.ok_bind]
  simp only [map_dataBytes, map_ecBytes, h.maxNumDataBytes, h.maxNumEcBytes]
  rw [Calls.throwIf_bind (not_not.mpr hoffset.symm), ← hplaces,
    Calls.throwIf_bind (not_not.mpr hlength), Calls.pure_eq_ok]

/-! ## What is read -/

/-- The codeword at a place. -/
def codewordAt (blocks : List DataBlock) (p : ℕ × ℕ) : Byte :=
  ((blocks.map DataBlock.codewords).getD p.1 []).getD p.2 0

/-- The sizes of the blocks. -/
def sizes (blocks : List DataBlock) : List (ℕ × ℕ) :=
  blocks.map fun b => (b.numDataCodewords, b.codewords.length)

theorem sizes_fill (blocks : List DataBlock) (p : (ℕ × ℕ) × Byte) :
    sizes (fill blocks p) = sizes blocks := by
  refine List.ext_getElem? fun j => ?_
  simp only [sizes, fill, List.getElem?_map, List.getElem?_modify]
  by_cases hj : p.1.1 = j
  · cases blocks[j]? with
    | none => rfl
    | some b => simp [hj]
  · cases blocks[j]? with
    | none => rfl
    | some b => simp [hj]

/-- A place of the blocks. -/
def IsPlace (blocks : List DataBlock) (p : ℕ × ℕ) : Prop :=
  ∃ size ∈ (sizes blocks)[p.1]?, p.2 < size.2

theorem codewordAt_fill {blocks : List DataBlock} {p : ℕ × ℕ} (hp : IsPlace blocks p) (v : Byte)
    (q : ℕ × ℕ) : codewordAt (fill blocks (p, v)) q = if p = q then v else codewordAt blocks q := by
  obtain ⟨size, hsize, hlt⟩ := hp
  simp only [sizes, List.getElem?_map, Option.mem_def, Option.map_eq_some_iff] at hsize
  obtain ⟨b, hb, rfl⟩ := hsize
  obtain ⟨p1, p2⟩ := p
  obtain ⟨q1, q2⟩ := q
  simp only [codewordAt, fill, List.getD_eq_getElem?_getD, List.getElem?_map,
    List.getElem?_modify, Prod.mk.injEq] at hb hlt ⊢
  by_cases h1 : p1 = q1
  · subst h1
    by_cases h2 : p2 = q2
    · subst h2
      simp [hb, List.getElem?_set_self hlt]
    · simp [hb, List.getElem?_set_ne h2, h2]
  · simp [h1]

/-- The loops write to each place what stands there in the list. -/
theorem foldl_fill {ps : List (ℕ × ℕ)} {raw : Bytes} (hlength : ps.length = raw.length)
    (hnodup : ps.Nodup) {blocks : List DataBlock} (hplace : ∀ p ∈ ps, IsPlace blocks p) :
    sizes ((ps.zip raw).foldl fill blocks) = sizes blocks ∧
      ∀ q, codewordAt ((ps.zip raw).foldl fill blocks) q =
        if q ∈ ps then raw.getD (ps.idxOf q) 0 else codewordAt blocks q := by
  induction ps generalizing raw blocks with
  | nil => simp
  | cons p ps ih =>
    obtain ⟨v, raw, rfl⟩ := List.exists_cons_of_length_eq_add_one hlength.symm
    obtain ⟨hp, hplace⟩ := List.forall_mem_cons.mp hplace
    obtain ⟨hnotin, hnodup⟩ := List.nodup_cons.mp hnodup
    have hplace' : ∀ q ∈ ps, IsPlace (fill blocks (p, v)) q := by
      intro q hq
      unfold IsPlace
      rw [sizes_fill]
      exact hplace q hq
    obtain ⟨hsizes, hcells⟩ := ih (by simpa using hlength) hnodup hplace'
    rw [List.zip_cons_cons, List.foldl_cons]
    refine ⟨hsizes.trans (sizes_fill blocks (p, v)), fun q => ?_⟩
    rw [hcells, codewordAt_fill hp]
    by_cases hqp : p = q
    · subst hqp
      simp [hnotin]
    · rw [List.idxOf_cons_ne _ hqp, List.getD_cons_succ]
      simp [hqp, Ne.symm hqp]

/-- What the reader makes of a list of codewords. -/
def sorted (raw : Bytes) (short long size ec : ℕ) : List DataBlock :=
  (List.range (short + long)).map fun j => ⟨dataSize short size j,
    (List.range (dataSize short size j + ec)).map fun i =>
      raw.getD ((places (short + long) short size (size + ec)).idxOf (j, i)) 0⟩

theorem mem_places {short long size ec : ℕ} {j i : ℕ} :
    (j, i) ∈ places (short + long) short size (size + ec) ↔
      j < short + long ∧ i < dataSize short size j + ec := by
  simp only [places, List.mem_append, List.mem_flatMap, List.mem_map, List.mem_range,
    List.mem_range'_1, Prod.mk.injEq, Nat.add_sub_cancel_left, dataSize]
  constructor
  · rintro ((⟨i, hi, j, hj, rfl, rfl⟩ | ⟨j, hj, rfl, rfl⟩) | ⟨k, hk, j, hj, rfl, rfl⟩)
    · split_ifs with h
      · omega
      · omega
    · rw [if_neg (by omega)]
      omega
    · split_ifs with h
      · omega
      · omega
  · rintro ⟨hj, hi⟩
    by_cases h : j < short
    · rw [if_pos h] at hi
      by_cases hsize : i < size
      · exact .inl (.inl ⟨i, hsize, j, hj, rfl, rfl⟩)
      · exact .inr ⟨i, ⟨by omega, by omega⟩, j, hj, rfl, if_pos h⟩
    · rw [if_neg h] at hi
      obtain hsize | rfl | hsize := lt_trichotomy i size
      · exact .inl (.inl ⟨i, hsize, j, hj, rfl, rfl⟩)
      · exact .inl (.inr ⟨j, ⟨by omega, by omega⟩, rfl, rfl⟩)
      · exact .inr ⟨i - 1, ⟨by omega, by omega⟩, j, hj, rfl, by rw [if_neg h]; omega⟩

/-- Rows of places in which the same block stands at different places. -/
theorem nodup_rows {n : ℕ} {is : List ℕ} (his : is.Nodup) {g : ℕ → ℕ → ℕ}
    (hg : ∀ j, Function.Injective (g j)) :
    (is.flatMap fun i => (List.range n).map fun j => (j, g j i)).Nodup := by
  refine List.nodup_flatMap.mpr ⟨fun i _ => List.nodup_range.map fun a b h => ?_,
    his.imp fun hne => ?_⟩
  · exact (Prod.mk.inj h).1
  · rintro ⟨j, x⟩ h1 h2
    obtain ⟨a, -, h1⟩ := List.mem_map.mp h1
    obtain ⟨b, -, h2⟩ := List.mem_map.mp h2
    obtain ⟨rfl, h1⟩ := Prod.mk.inj h1
    obtain ⟨rfl, h2⟩ := Prod.mk.inj h2
    exact hne (hg _ (Prod.mk.inj (h1.trans h2.symm)).2)

theorem nodup_places (short long size ec : ℕ) :
    (places (short + long) short size (size + ec)).Nodup := by
  unfold places
  refine (List.Nodup.append (nodup_rows List.nodup_range fun _ => Function.injective_id)
    (List.Nodup.map (fun a b h => (Prod.mk.inj h).1) List.nodup_range') ?_).append
    (nodup_rows List.nodup_range' fun j a b h => ?_) ?_
  · rintro ⟨j, i⟩ h1 h2
    simp only [List.mem_flatMap, List.mem_map, List.mem_range, Prod.mk.injEq] at h1 h2
    obtain ⟨a, ha, b, hb, rfl, rfl⟩ := h1
    obtain ⟨c, hc, rfl, h⟩ := h2
    exact absurd ha (by simp [h])
  · split_ifs at h with hj
    · exact h
    · omega
  · rintro ⟨j, i⟩ h1 h2
    simp only [List.mem_append, List.mem_flatMap, List.mem_map, List.mem_range, List.mem_range'_1,
      Prod.mk.injEq, id_eq] at h1 h2
    obtain ⟨c, hc, d, hd, rfl, h⟩ := h2
    obtain ⟨a, ha, b, hb, rfl, rfl⟩ | ⟨a, ha, rfl, rfl⟩ := h1
    · split_ifs at h with hj
      · omega
      · omega
    · rw [if_neg (by omega)] at h
      omega

theorem eq_of_codewordAt {blocks blocks' : List DataBlock} (hsizes : sizes blocks = sizes blocks')
    (hcodewords : ∀ q, IsPlace blocks q → codewordAt blocks q = codewordAt blocks' q) :
    blocks = blocks' := by
  have hlength : blocks.length = blocks'.length := by
    simpa [sizes] using congrArg List.length hsizes
  refine List.ext_getElem hlength fun j hj hj' => ?_
  have hsize := congrArg (fun l => l[j]?) hsizes
  simp only [sizes, List.getElem?_map, List.getElem?_eq_getElem hj, List.getElem?_eq_getElem hj',
    Option.map_some, Option.some.injEq, Prod.mk.injEq] at hsize
  have hbytes : blocks[j].codewords = blocks'[j].codewords := by
    refine List.ext_getElem hsize.2 fun i hi hi' => ?_
    have hcell := hcodewords (j, i) ⟨(blocks[j].numDataCodewords, blocks[j].codewords.length),
      by simp [sizes, List.getElem?_eq_getElem hj], hi⟩
    simp only [codewordAt, List.getD_eq_getElem?_getD, List.getElem?_map,
      List.getElem?_eq_getElem hj, List.getElem?_eq_getElem hj', Option.map_some,
      Option.getD_some, List.getElem?_eq_getElem hi, List.getElem?_eq_getElem hi'] at hcell
    exact hcell
  obtain ⟨hnum, -⟩ := hsize
  generalize blocks[j] = b, blocks'[j] = b' at hnum hbytes
  cases b
  cases b'
  simp_all

theorem sizes_sorted (raw : Bytes) (short long size ec : ℕ) :
    sizes (sorted raw short long size ec) =
      List.replicate short (size, ec + size) ++
        List.replicate long (size + 1, ec + (size + 1)) := by
  have hpairs := congrArg (List.map fun d => (d, ec + d)) (map_dataSize short long size)
  rw [List.map_append, List.map_replicate, List.map_replicate, List.map_map] at hpairs
  rw [← hpairs, sizes, sorted, List.map_map]
  refine List.map_congr_left fun j _ => ?_
  simp [Nat.add_comm ec]

theorem codewordAt_sorted (raw : Bytes) {short long size ec j i : ℕ} (hj : j < short + long)
    (hi : i < dataSize short size j + ec) : codewordAt (sorted raw short long size ec) (j, i) =
      raw.getD ((places (short + long) short size (size + ec)).idxOf (j, i)) 0 := by
  simp [codewordAt, sorted, List.getD_eq_getElem?_getD, List.getElem?_range hj,
    List.getElem?_range hi]

theorem isPlace_iff {blocks : List DataBlock} {raw : Bytes} {short long size ec j i : ℕ}
    (hsizes : sizes blocks = sizes (sorted raw short long size ec)) :
    IsPlace blocks (j, i) ↔ (j, i) ∈ places (short + long) short size (size + ec) := by
  rw [mem_places, IsPlace, hsizes, sizes, sorted]
  simp only [List.map_map, List.getElem?_map]
  by_cases hj : j < short + long
  · simp [hj]
  · simp [hj]

/-- The reader gives every block the codewords at its places. -/
theorem foldl_fill_places {blocks : List DataBlock} {raw : Bytes} {short long size ec : ℕ}
    (hlength : (places (short + long) short size (size + ec)).length = raw.length)
    (hsizes : sizes blocks = sizes (sorted raw short long size ec)) :
    ((places (short + long) short size (size + ec)).zip raw).foldl fill blocks =
      sorted raw short long size ec := by
  obtain ⟨hkeep, hcells⟩ := foldl_fill hlength (nodup_places short long size ec)
    fun _ hp => (isPlace_iff hsizes).mpr hp
  refine eq_of_codewordAt (hkeep.trans hsizes) ?_
  rintro ⟨j, i⟩ hq
  have hmem := (isPlace_iff (hkeep.trans hsizes)).mp hq
  obtain ⟨hj, hi⟩ := mem_places.mp hmem
  rw [hcells, if_pos hmem, codewordAt_sorted raw hj hi]

/-- Where the longer blocks start. -/
theorem longerBlocksStartAt_eq {short long a b : ℕ} (hshort : 0 < short) (hab : a ≠ b) :
    (List.replicate short a ++ List.replicate long b).length -
      ((List.replicate short a ++ List.replicate long b).reverse.takeWhile (· ≠ a)).length =
        short := by
  obtain ⟨k, rfl⟩ := Nat.exists_eq_succ_of_ne_zero hshort.ne'
  have hlong : ∀ x ∈ List.replicate long b, decide (x ≠ a) = true := by
    intro x hx
    rw [List.eq_of_mem_replicate hx]
    simpa using hab.symm
  rw [List.reverse_append, List.reverse_replicate, List.reverse_replicate,
    List.takeWhile_append_of_pos hlong]
  simp [List.replicate_succ]
  omega

theorem getDataBlocks_eq {version : Version} {ecLevel : ErrorCorrectionLevel}
    (h : Geometry (version.getECBlocksForLevel ecLevel) version.getTotalCodewords short long size)
    {raw : Bytes} (hraw : raw.length = version.getTotalCodewords) :
    getDataBlocks raw version ecLevel = .ok (sorted raw short long size
      (version.getECBlocksForLevel ecLevel).ecCodewordsPerBlock) := by
  have hshort := h.short_pos
  have hplaces := h.length_places.trans hraw.symm
  obtain ⟨ec, hec⟩ : ∃ ec, (version.getECBlocksForLevel ecLevel).ecCodewordsPerBlock = ec :=
    ⟨_, rfl⟩
  rw [hec] at hplaces ⊢
  obtain ⟨blocks, hblocks⟩ : ∃ blocks, (version.getECBlocksForLevel ecLevel).ecBlocks.flatMap
      (fun b => List.replicate b.count
        (⟨b.dataCodewords, List.replicate (ec + b.dataCodewords) 0⟩ : DataBlock)) = blocks :=
    ⟨_, rfl⟩
  have hsizes : sizes blocks = sizes (sorted raw short long size ec) := by
    rw [sizes_sorted, ← hblocks]
    obtain ⟨hb, rfl⟩ | hb := h.blocks
    · simp [hb, sizes]
    · simp [hb, sizes]
  have hlengths : (blocks.map fun b => b.codewords.length) =
      List.replicate short (ec + size) ++ List.replicate long (ec + (size + 1)) := by
    have := congrArg (List.map Prod.snd) (hsizes.trans (sizes_sorted raw short long size ec))
    rwa [sizes, List.map_map, List.map_append, List.map_replicate, List.map_replicate] at this
  have hlength : blocks.length = short + long := by
    simpa using congrArg List.length hlengths
  have hne : blocks ≠ [] := by
    rw [← List.length_pos_iff]
    omega
  have hfirst : (List.replicate short (ec + size) ++
      List.replicate long (ec + (size + 1))).getD 0 0 = ec + size := by
    rw [List.getD_append _ _ _ _ (by rwa [List.length_replicate]), List.getD_replicate _ hshort]
  rw [getDataBlocks, Calls.throwIf_bind (not_not.mpr hraw)]
  simp only [hec, hblocks]
  rw [Calls.throwIf_bind hne, Calls.pure_eq_ok]
  simp only [hlengths, hfirst]
  rw [longerBlocksStartAt_eq hshort (by omega), hlength, Nat.add_sub_cancel_left,
    Nat.add_comm ec size, foldl_fill_places hplaces hsizes]

/-- What the reader makes of the codewords that have been written. -/
theorem sorted_places (A : ℕ → Bytes) {short long size ec : ℕ}
    (hA : ∀ j, (A j).length = dataSize short size j + ec) :
    sorted ((places (short + long) short size (size + ec)).map fun p => (A p.1).getD p.2 0)
        short long size ec =
      (List.range (short + long)).map fun j => ⟨dataSize short size j, A j⟩ := by
  refine List.map_congr_left fun j hj => ?_
  have hcodewords : ((List.range (dataSize short size j + ec)).map fun i =>
      ((places (short + long) short size (size + ec)).map fun p => (A p.1).getD p.2 0).getD
        ((places (short + long) short size (size + ec)).idxOf (j, i)) 0) = A j := by
    refine List.ext_getElem (by simp [hA]) fun i hi hi' => ?_
    have hi := (hA j) ▸ hi'
    have hmem := List.idxOf_lt_length_of_mem
      (mem_places.mpr ⟨List.mem_range.mp hj, hi⟩)
    rw [List.getElem_map, List.getElem_range, List.getD_eq_getElem _ _ (by simpa using hmem),
      List.getElem_map, List.getElem_idxOf, List.getD_eq_getElem _ _ hi']
  rw [hcodewords]

end Shape

/-- Whatever has been written can be read, if in every block at most half as many codewords are
wrong as it has for error correction. -/
theorem resultBytes_interleave {version : Version} (hversion : version ∈ VERSIONS)
    (ecLevel : ErrorCorrectionLevel) {bytes : Bytes}
    (hbytes : bytes.length = version.getTotalCodewords -
      (version.getECBlocksForLevel ecLevel).getTotalECCodewords) :
    ∃ sent blocks, interleaveWithECBytes bytes version.getTotalCodewords bytes.length
        (version.getECBlocksForLevel ecLevel).getNumBlocks = .ok sent ∧
      sent.length = version.getTotalCodewords ∧ getDataBlocks sent version ecLevel = .ok blocks ∧
      ∀ received : Bytes, received.length = version.getTotalCodewords →
        ∃ blocks', getDataBlocks received version ecLevel = .ok blocks' ∧
          (List.Forall₂ (fun b' b => 2 * byteErrors b'.codewords b.codewords ≤
              (version.getECBlocksForLevel ecLevel).ecCodewordsPerBlock) blocks' blocks →
            resultBytes received version ecLevel = .ok bytes) := by
  obtain ⟨short, long, size, h⟩ := exists_geometry hversion ecLevel
  rw [h.numDataBytes] at hbytes
  rw [hbytes, h.getNumBlocks]
  have hcodewords : ∀ j, (blockCodewords bytes short size
      (version.getECBlocksForLevel ecLevel).ecCodewordsPerBlock j).length =
        dataSize short size j + (version.getECBlocksForLevel ecLevel).ecCodewordsPerBlock := by
    intro j
    rw [blockCodewords, List.length_append, length_blockBytes, (h.block bytes j).2.1]
  have hsent := h.interleave hbytes
  have hlength := h.length_places
  rw [← List.length_map] at hlength
  refine ⟨_, _, hsent, hlength, getDataBlocks_eq h hlength, fun received hreceived =>
    ⟨_, getDataBlocks_eq h hreceived, fun herrors => ?_⟩⟩
  rw [sorted_places _ hcodewords, sorted, List.forall₂_map_left_iff,
    List.forall₂_map_right_iff, List.forall₂_same] at herrors
  have hoffset : dataOffset short size (short + long) = bytes.length := by
    rw [dataOffset, Nat.add_sub_cancel_left, hbytes]
  rw [resultBytes, getDataBlocks_eq h hreceived, Calls.ok_bind, sorted, List.mapM_map,
    Calls.mapM_ok (g := blockBytes bytes short size), Calls.ok_bind,
    flatten_blockBytes bytes short size hoffset.le, hoffset, List.take_length, Calls.pure_eq_ok]
  intro j hj
  exact (h.block bytes j).2.2 _ (by simp) (herrors j hj)

/-! ## Wrong codewords -/

/-- In how many places two arrays of one length differ. -/
def differences (l m : Bytes) : ℕ := (l.zip m).countP fun p => p.1 ≠ p.2

/-- Blocks of the same sizes, with at most `n` errors in each. -/
def Near (n : ℕ) (blocks' blocks : List DataBlock) : Prop :=
  List.Forall₂ (fun b' b => b'.codewords.length = b.codewords.length ∧
    byteErrors b'.codewords b.codewords ≤ n) blocks' blocks

theorem byteErrors_set {l m : Bytes} (h : l.length = m.length) (i : ℕ) (a b : Byte) :
    byteErrors (l.set i a) (m.set i b) ≤ byteErrors l m + if a = b then 0 else 1 := by
  have hsame : ∀ j, j ≠ i →
      (l.set i a).getD j 0 = l.getD j 0 ∧ (m.set i b).getD j 0 = m.getD j 0 := by
    intro j hj
    simp [List.getD_eq_getElem?_getD, List.getElem?_set_ne (Ne.symm hj)]
  by_cases hab : a = b
  · rw [if_pos hab, Nat.add_zero]
    refine Finset.card_le_card fun j hj => ?_
    obtain ⟨hrange, hne⟩ := Finset.mem_filter.mp hj
    rw [List.length_set] at hrange
    by_cases hji : j = i
    · subst hji
      have hlt := Finset.mem_range.mp hrange
      refine absurd ?_ hne
      simp [List.getD_eq_getElem?_getD, hab, hlt, h]
    · rw [(hsame j hji).1, (hsame j hji).2] at hne
      exact Finset.mem_filter.mpr ⟨hrange, hne⟩
  · rw [if_neg hab]
    refine (Finset.card_le_card (t := insert i _) fun j hj => ?_).trans (Finset.card_insert_le ..)
    obtain ⟨hrange, hne⟩ := Finset.mem_filter.mp hj
    rw [List.length_set] at hrange
    by_cases hji : j = i
    · rw [hji]
      exact Finset.mem_insert_self ..
    · rw [(hsame j hji).1, (hsame j hji).2] at hne
      exact Finset.mem_insert_of_mem (Finset.mem_filter.mpr ⟨hrange, hne⟩)

/-- Codewords written to the same place. -/
theorem Near.fill {n : ℕ} {blocks' blocks : List DataBlock} (h : Near n blocks' blocks)
    (p : ℕ × ℕ) (a b : Byte) :
    Near (n + if a = b then 0 else 1) (fill blocks' (p, a)) (Qr.fill blocks (p, b)) := by
  obtain ⟨j, i⟩ := p
  unfold Qr.fill
  induction h generalizing j with
  | nil => simp [Near]
  | @cons x y xs ys hxy hrest ih =>
    have hrest' : Near (n + if a = b then 0 else 1) xs ys :=
      hrest.imp fun x y h => ⟨h.1, h.2.trans (Nat.le_add_right ..)⟩
    cases j with
    | zero =>
      refine List.Forall₂.cons ⟨?_, ?_⟩ hrest'
      · simp [hxy.1]
      · exact (byteErrors_set hxy.1 i a b).trans (Nat.add_le_add_right hxy.2 _)
    | succ j => exact List.Forall₂.cons ⟨hxy.1, hxy.2.trans (Nat.le_add_right ..)⟩ (ih j)

/-- Each wrong codeword is an error in one block. -/
theorem Near.foldl_fill {n : ℕ} {blocks' blocks : List DataBlock} (h : Near n blocks' blocks)
    (ps : List (ℕ × ℕ)) {l m : Bytes} (hlength : l.length = m.length) :
    Near (n + differences l m) ((ps.zip l).foldl Qr.fill blocks')
      ((ps.zip m).foldl Qr.fill blocks) := by
  induction ps generalizing n blocks' blocks l m with
  | nil => exact h.imp fun x y hxy => ⟨hxy.1, hxy.2.trans (Nat.le_add_right ..)⟩
  | cons p ps ih =>
    cases l with
    | nil =>
      obtain rfl := List.length_eq_zero_iff.mp hlength.symm
      exact h
    | cons a l =>
      cases m with
      | nil => cases hlength
      | cons b m =>
        have hstep := ih (h.fill p a b) (Nat.succ.inj hlength)
        have hcount : differences (a :: l) (b :: m)
            = (if a = b then 0 else 1) + differences l m := by
          by_cases hab : a = b <;> simp [differences, hab, Nat.add_comm]
        rw [hcount, ← Nat.add_assoc]
        exact hstep

theorem near_self (blocks : List DataBlock) : Near 0 blocks blocks :=
  List.forall₂_same.mpr fun b _ => ⟨rfl, by simp [byteErrors]⟩

/-- What was read with `n` wrong codewords has at most `n` errors in each block. -/
theorem near_getDataBlocks {version : Version} {ecLevel : ErrorCorrectionLevel} {l m : Bytes}
    {blocks' blocks : List DataBlock} (hlength : l.length = m.length)
    (hl : getDataBlocks l version ecLevel = .ok blocks')
    (hm : getDataBlocks m version ecLevel = .ok blocks) :
    Near (differences l m) blocks' blocks := by
  rw [getDataBlocks, Calls.bind_eq_ok] at hl hm
  obtain ⟨_, -, hl⟩ := hl
  obtain ⟨_, -, hm⟩ := hm
  obtain ⟨_, -, hl⟩ := Calls.bind_eq_ok.mp hl
  obtain ⟨_, -, hm⟩ := Calls.bind_eq_ok.mp hm
  obtain rfl := Except.ok.inj hl
  obtain rfl := Except.ok.inj hm
  rw [← Nat.zero_add (differences l m)]
  exact (near_self _).foldl_fill _ hlength

theorem differences_append {a b c : Bytes} (h : a.length = b.length) :
    differences (a ++ c) (b ++ c) ≤ a.length := by
  have hself : differences c c = 0 := by
    induction c with
    | nil => rfl
    | cons x c ih => simpa [differences] using ih
  have hzip : differences (a ++ c) (b ++ c) = differences a b + differences c c := by
    rw [differences, List.zip_append h, List.countP_append]
    rfl
  rw [hzip, hself, Nat.add_zero]
  exact List.countP_le_length.trans (by simp)

end TonWallet.Qr
