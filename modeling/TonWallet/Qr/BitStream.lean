import TonWallet.Lib.BitLists
import TonWallet.Qr.Blocks

/-!
# The bits of a QR code

`Encoder.java` fills the bits that it has collected up to the data codewords of the version:
with the terminator, with zeros up to the next byte, and with two padding bytes in turn.

* `terminateBits_spec`: bits that fit are continued to exactly the data codewords.
* `terminateBits_error`: other bits are refused.
* `resultBytes_terminateBits`: whatever bits fit a version, the bytes that are read from its
  damaged codewords start with them.
-/

namespace TonWallet.Qr

open TonWallet.Encoding

/-! ## The encoder -/

/-- `getSizeInBytes` (`BitArray.java` lines 51–53). -/
def getSizeInBytes (bits : List Bool) : ℕ := (bits.length + 7) / 8

/-- `appendBit` (`BitArray.java` lines 216–222). -/
def appendBit (bits : List Bool) (bit : Bool) : List Bool := bits ++ [bit]

/-- `appendBits` (`BitArray.java` lines 232–240). -/
def appendBits (bits : List Bool) (value numBits : ℕ) : List Bool :=
  (BitList.ofNat numBits value).foldl appendBit bits

/-- The terminator (`Encoder.java` lines 325–327). -/
def appendTerminator (capacity : ℕ) : ℕ → List Bool → List Bool
  | 0, bits => bits
  | i + 1, bits =>
    if bits.length < capacity then appendTerminator capacity i (appendBit bits false) else bits

/-- The zeros up to the next byte (`Encoder.java` lines 330–335). -/
def alignToByte (bits : List Bool) : List Bool :=
  let numBitsInLastByte := bits.length % 8
  if numBitsInLastByte > 0 then
    (List.range (8 - numBitsInLastByte)).foldl (fun bits _ => appendBit bits false) bits
  else bits

/-- The padding bytes (`Encoder.java` lines 338–340). -/
def appendPadding (bits : List Bool) (numPaddingBytes : ℕ) : List Bool :=
  (List.range numPaddingBytes).foldl
    (fun bits i => appendBits bits (if i % 2 = 0 then 0xEC else 0x11) 8) bits

/-- `terminateBits` (`Encoder.java` lines 319–344). -/
def terminateBits (numDataBytes : ℕ) (bits : List Bool) : Except Fault (List Bool) := do
  let capacity := numDataBytes * 8
  Calls.throwIf (bits.length > capacity) (.writer
    (ascii "data bits cannot fit in the QR Code".toList ++ ascii (Nat.toDigits 10 bits.length) ++
      ascii " > ".toList ++ ascii (Nat.toDigits 10 capacity)))
  let bits := alignToByte (appendTerminator capacity 4 bits)
  let bits := appendPadding bits (numDataBytes - getSizeInBytes bits)
  Calls.throwIf (bits.length ≠ capacity)
    (.writer (ascii "Bits size does not equal capacity".toList))
  return bits

/-! ## What is appended -/

theorem foldl_appendBit (l bits : List Bool) : l.foldl appendBit bits = bits ++ l := by
  induction l generalizing bits with
  | nil => simp
  | cons b l ih =>
    rw [List.foldl_cons, ih, appendBit, List.append_assoc, List.singleton_append]

theorem appendBits_eq (bits : List Bool) (value numBits : ℕ) :
    appendBits bits value numBits = bits ++ BitList.ofNat numBits value :=
  foldl_appendBit _ _

theorem appendTerminator_eq (capacity i : ℕ) (bits : List Bool) :
    appendTerminator capacity i bits =
      bits ++ List.replicate (min i (capacity - bits.length)) false := by
  induction i generalizing bits with
  | zero => simp [appendTerminator]
  | succ i ih =>
    rw [appendTerminator]
    split_ifs with h
    · have hmin : min (i + 1) (capacity - bits.length) =
          min i (capacity - (bits.length + 1)) + 1 := by omega
      rw [ih, appendBit, hmin, List.replicate_succ, List.length_append, List.length_singleton,
        List.append_assoc, List.singleton_append]
    · have hmin : min (i + 1) (capacity - bits.length) = 0 := by omega
      rw [hmin, List.replicate_zero, List.append_nil]

theorem alignToByte_eq (bits : List Bool) :
    alignToByte bits = bits ++ List.replicate ((8 - bits.length % 8) % 8) false := by
  have hloop : ∀ n, (List.range n).foldl (fun bits _ => appendBit bits false) bits =
      bits ++ List.replicate n false := by
    intro n
    induction n with
    | zero => simp
    | succ n ih =>
      rw [List.range_succ, List.foldl_append, ih, List.replicate_succ', ← List.append_assoc]
      rfl
  unfold alignToByte
  dsimp only
  split_ifs with h
  · have hmod : (8 - bits.length % 8) % 8 = 8 - bits.length % 8 := Nat.mod_eq_of_lt (by omega)
    rw [hloop, hmod]
  · have hzero : (8 - bits.length % 8) % 8 = 0 := by omega
    rw [hzero, List.replicate_zero, List.append_nil]

theorem appendPadding_prefix (bits : List Bool) (n : ℕ) :
    ∃ padding, appendPadding bits n = bits ++ padding ∧ padding.length = 8 * n := by
  induction n with
  | zero => exact ⟨[], by simp [appendPadding], rfl⟩
  | succ n ih =>
    obtain ⟨padding, heq, hlength⟩ := ih
    refine ⟨padding ++ BitList.ofNat 8 (if n % 2 = 0 then 0xEC else 0x11), ?_, ?_⟩
    · rw [appendPadding, List.range_succ, List.foldl_append, ← appendPadding, heq,
        List.foldl_cons, List.foldl_nil, appendBits_eq, List.append_assoc]
    · rw [List.length_append, BitList.length_ofNat, hlength]
      ring

/-- Bits that fit are continued to exactly the data codewords; what follows them starts with the
terminator, as far as there is room. -/
theorem terminateBits_spec {numDataBytes : ℕ} {bits : List Bool}
    (hfit : bits.length ≤ numDataBytes * 8) :
    ∃ padding, terminateBits numDataBytes bits = .ok
        (bits ++ List.replicate (min 4 (numDataBytes * 8 - bits.length)) false ++ padding) ∧
      (bits ++ List.replicate (min 4 (numDataBytes * 8 - bits.length)) false ++ padding).length =
        numDataBytes * 8 := by
  obtain ⟨ended, hended⟩ : ∃ ended, ended =
      bits ++ List.replicate (min 4 (numDataBytes * 8 - bits.length)) false := ⟨_, rfl⟩
  have hlength : ended.length ≤ numDataBytes * 8 := by
    rw [hended, List.length_append, List.length_replicate]
    omega
  obtain ⟨aligned, haligned⟩ : ∃ aligned, aligned =
      ended ++ List.replicate ((8 - ended.length % 8) % 8) false := ⟨_, rfl⟩
  have hbytes : aligned.length = 8 * getSizeInBytes aligned ∧
      getSizeInBytes aligned ≤ numDataBytes := by
    rw [getSizeInBytes, haligned, List.length_append, List.length_replicate]
    omega
  obtain ⟨padding, hpadding, hpad⟩ :=
    appendPadding_prefix aligned (numDataBytes - getSizeInBytes aligned)
  have htotal : (aligned ++ padding).length = numDataBytes * 8 := by
    rw [List.length_append, hpad]
    omega
  refine ⟨List.replicate ((8 - ended.length % 8) % 8) false ++ padding, ?_, ?_⟩
  · rw [terminateBits, Calls.throwIf_bind (by omega)]
    simp only [appendTerminator_eq, alignToByte_eq, ← hended, ← haligned, hpadding]
    rw [Calls.throwIf_bind (not_not.mpr htotal), Calls.pure_eq_ok, haligned, List.append_assoc]
  · rw [← hended, ← List.append_assoc, ← haligned, htotal]

example : (terminateBits 3 [true]).toOption.map BitList.pack = some [0x80, 0xEC, 0x11] := by
  decide

/-- Other bits are refused. -/
theorem terminateBits_error {numDataBytes : ℕ} {bits : List Bool}
    (hlarge : numDataBytes * 8 < bits.length) :
    terminateBits numDataBytes bits = .error (.writer
      (ascii "data bits cannot fit in the QR Code".toList ++ ascii (Nat.toDigits 10 bits.length) ++
        ascii " > ".toList ++ ascii (Nat.toDigits 10 (numDataBytes * 8)))) := by
  rw [terminateBits, Calls.throwIf, if_pos hlarge, Calls.error_bind]

/-! ## What is read -/

/-- **Whatever bits fit a version, the bytes that are read start with them**, if in every block at
most half as many codewords are wrong as it has for error correction. -/
theorem resultBytes_terminateBits {version : Version} (hversion : version ∈ VERSIONS)
    (ecLevel : ErrorCorrectionLevel) {bits : List Bool} {numDataBytes : ℕ}
    (hnum : numDataBytes = version.getTotalCodewords -
      (version.getECBlocksForLevel ecLevel).getTotalECCodewords)
    (hfit : bits.length ≤ numDataBytes * 8) :
    ∃ terminated sent blocks, terminateBits numDataBytes bits = .ok terminated ∧
      bits <+: terminated ∧
      interleaveWithECBytes (BitList.pack terminated) version.getTotalCodewords numDataBytes
        (version.getECBlocksForLevel ecLevel).getNumBlocks = .ok sent ∧
      sent.length = version.getTotalCodewords ∧ getDataBlocks sent version ecLevel = .ok blocks ∧
      ∀ received : Bytes, received.length = version.getTotalCodewords →
        ∃ blocks', getDataBlocks received version ecLevel = .ok blocks' ∧
          (List.Forall₂ (fun b' b => 2 * byteErrors b'.codewords b.codewords ≤
              (version.getECBlocksForLevel ecLevel).ecCodewordsPerBlock) blocks' blocks →
            ∃ result, resultBytes received version ecLevel = .ok result ∧
              BitList.unpack result = terminated) := by
  obtain ⟨padding, hterminated, hlength⟩ := terminateBits_spec hfit
  generalize hdef : bits ++ List.replicate (min 4 (numDataBytes * 8 - bits.length)) false ++
    padding = terminated at hterminated hlength
  have hdvd : 8 ∣ terminated.length := ⟨numDataBytes, by rw [hlength, Nat.mul_comm]⟩
  have hpacked : (BitList.pack terminated).length = numDataBytes := by
    have := BitList.length_pack hdvd
    omega
  obtain ⟨sent, blocks, hsent, hsentLength, hblocks, hread⟩ :=
    resultBytes_interleave hversion ecLevel (hpacked.trans hnum)
  rw [hpacked] at hsent
  refine ⟨terminated, sent, blocks, hterminated, ?_, hsent, hsentLength, hblocks,
    fun received hreceived => ?_⟩
  · rw [← hdef, List.append_assoc]
    exact List.prefix_append _ _
  · obtain ⟨blocks', hblocks', hresult⟩ := hread received hreceived
    exact ⟨blocks', hblocks', fun herrors =>
      ⟨_, hresult herrors, BitList.unpack_pack hdvd⟩⟩

/-- Version 5 in the level Q has two blocks of 15 data codewords and two of 16, and 18 for error
correction in each: the bits are read back though the first nine codewords were read as zeros. -/
theorem resultBytes_terminateBits_version5 : ∃ version ∈ VERSIONS, version.versionNumber = 5 ∧
    ∃ terminated sent result, terminateBits 62 (List.replicate 100 true) = .ok terminated ∧
      interleaveWithECBytes (BitList.pack terminated) version.getTotalCodewords 62 4 = .ok sent ∧
      sent.length = 134 ∧
      resultBytes (List.replicate 9 0 ++ sent.drop 9) version .Q = .ok result ∧
      List.replicate 100 true <+: BitList.unpack result := by
  have hversion : VERSIONS.getD 4 ⟨0, []⟩ ∈ VERSIONS := by decide
  have hnum : 62 = (VERSIONS.getD 4 ⟨0, []⟩).getTotalCodewords -
      ((VERSIONS.getD 4 ⟨0, []⟩).getECBlocksForLevel .Q).getTotalECCodewords := by decide
  have hfit : (List.replicate 100 true).length ≤ 62 * 8 := by
    rw [List.length_replicate]
    omega
  obtain ⟨terminated, sent, blocks, hterminated, hprefix, hsent, hlength, hblocks, hreceived⟩ :=
    resultBytes_terminateBits hversion .Q hnum hfit
  have h134 : sent.length = 134 := hlength
  have hdamaged : (List.replicate 9 0 ++ sent.drop 9).length = sent.length := by
    simp [h134]
  obtain ⟨blocks', hblocks', hread⟩ :=
    hreceived (List.replicate 9 0 ++ sent.drop 9) (hdamaged.trans hlength)
  have hwrong : differences (List.replicate 9 0 ++ sent.drop 9) sent ≤ 9 := by
    have htake : (List.replicate 9 (0 : Byte)).length = (sent.take 9).length := by simp [h134]
    have hcount := differences_append (c := sent.drop 9) htake
    rwa [List.take_append_drop, List.length_replicate] at hcount
  obtain ⟨result, hresult, hunpack⟩ :=
    hread ((near_getDataBlocks hdamaged hblocks' hblocks).imp fun b' b hb =>
      (Nat.mul_le_mul_left 2 (hb.2.trans hwrong)).trans (by decide))
  exact ⟨_, hversion, rfl, terminated, sent, result, hterminated, hsent, h134, hresult,
    hunpack ▸ hprefix⟩

end TonWallet.Qr
