import TonWallet.Encoding.Crc16
import TonWallet.Lib.Crc
import TonWallet.Cells.Utils

/-!
# Checksums

`Utils.java` divides by the polynomial of CRC-16/XMODEM one bit at a time, for
the addresses; `Crc32c.java` looks up the remainders of the bytes in a table, for
the bags of cells. Both are registers: the one takes the highest bit of a byte
first, the other the lowest.

* `getCRC16ChecksumAsInt_eq`: the loop over the bits gives the remainder that
  tonlib takes from its table.
* `crc32c_eq`: the table of `Crc32c.java` gives the remainder of CRC-32C.
* `crc16_burst`, `crc32c_burst`: checked arrays that differ in a few bits in a row
  are equal.
-/

namespace TonWallet.Cells

open TonWallet.Encoding
open BitList (unpack)

/-! ## CRC-16/XMODEM -/

/-- One turn of the inner loop: bit `7 - i` of `b` comes in. -/
def crc16Bit (b : Byte) (crc : BitVec 32) (i : ℕ) : BitVec 32 :=
  let bit : Bool := (b.signExtend 32).sshiftRight (7 - i) &&& 1 = 1
  let c15 : Bool := crc.sshiftRight 15 &&& 1 = 1
  let crc := crc <<< 1
  if c15 ^^ bit then crc ^^^ 0x1021 else crc

/-- `getCRC16ChecksumAsInt` (`Utils.java` lines 68–83). -/
def getCRC16ChecksumAsInt (bytes : Bytes) : BitVec 32 :=
  bytes.foldl (fun crc b => (List.range 8).foldl (crc16Bit b) crc) 0 &&& 0xffff

/-- `getCRC16ChecksumAsBytes` (`Utils.java` lines 89–97). -/
def getCRC16ChecksumAsBytes (bytes : Bytes) : Bytes :=
  let value := getCRC16ChecksumAsInt bytes
  [(value >>> 8).setWidth 8, value.setWidth 8]

theorem crc16_shift_eq_zero {x : BitVec 16} (h : Encoding.shift x = 0) : x = 0 := by
  rw [Encoding.shift] at h
  split at h
  · have hlow := congrArg (fun v => v.getLsbD 0) h
    simp [polynomial] at hlow
  · rename_i hhigh
    refine BitVec.eq_of_getLsbD_eq fun i hi => ?_
    by_cases hlast : i = 15
    · simpa [hlast] using hhigh
    · have hbit := congrArg (fun v => v.getLsbD (i + 1)) h
      rw [BitVec.getLsbD_eq_getElem hi]
      simpa [show i + 1 < 16 by omega] using hbit

theorem crc16_shift_injective : Function.Injective Encoding.shift := by
  intro a b h
  have hxor : Encoding.shift (a ^^^ b) = 0 := by
    rw [shift_xor, h]
    exact BitVec.xor_self
  exact BitVec.xor_eq_zero_iff.mp (crc16_shift_eq_zero hxor)

theorem crc16_place_injective : ∀ i < 16, ∀ j < 16, 15 - i = 15 - j → i = j := by omega

theorem crc16_shift_place (i : ℕ) (h : i + 1 < 16) :
    Encoding.shift (.twoPow 16 (15 - (i + 1))) = .twoPow 16 (15 - i) := by
  have hall : ∀ i < 15, Encoding.shift (.twoPow 16 (15 - (i + 1))) = .twoPow 16 (15 - i) := by
    decide
  exact hall i (by omega)

/-- The register of CRC-16/XMODEM. -/
def crc16Register : Crc.Register 16 where
  shift := Encoding.shift
  place i := 15 - i
  shift_xor := shift_xor
  shift_injective := crc16_shift_injective
  place_lt := by omega
  place_injective := crc16_place_injective
  shift_place := crc16_shift_place

theorem crc16_spread_byte (n : ℕ) : crc16Register.spread 0 (BitList.ofNat 8 n)
    = (BitVec.ofNat 8 n).setWidth 16 <<< 8 := by
  refine BitVec.eq_of_getLsbD_eq fun i hi => ?_
  have hbit := crc16Register.getLsbD_spread (BitList.ofNat 8 n) (i := 0) (j := 15 - i) (by simp)
    (by omega)
  rw [show crc16Register.place (15 - i) = i from by show 15 - (15 - i) = i; omega] at hbit
  rw [hbit, BitVec.getLsbD_shiftLeft, BitVec.getLsbD_setWidth, BitVec.getLsbD_ofNat,
    List.getD_eq_getElem?_getD, Nat.sub_zero]
  by_cases h8 : i < 8
  · rw [List.getElem?_eq_none (by simp; omega)]
    simp [h8]
  · rw [BitList.getElem?_ofNat (by omega), show 8 - 1 - (15 - i) = i - 8 by omega]
    simp [hi, show ¬ i < 8 from h8, show i - 8 < 8 by omega, show i - 8 < 16 by omega]

/-- A byte as eight bits. -/
theorem xmodemStep_eq (crc : BitVec 16) (b : Byte) :
    xmodemStep crc b = crc16Register.run crc (BitList.ofNat 8 b.toNat) := by
  have hspread := crc16_spread_byte b.toNat
  rw [BitVec.ofNat_toNat, BitVec.setWidth_eq] at hspread
  rw [crc16Register.run_eq_iterate crc (by simp), hspread, BitList.length_ofNat]
  rfl

theorem xmodem_eq_run (bytes : Bytes) : xmodem bytes = crc16Register.run 0 (unpack bytes) := by
  have hrun : ∀ crc, bytes.foldl xmodemStep crc = crc16Register.run crc (unpack bytes) := by
    induction bytes with
    | nil => exact fun _ => rfl
    | cons b bytes ih =>
      intro crc
      rw [List.foldl_cons, ih, xmodemStep_eq, BitList.unpack_cons, crc16Register.run_append]
  exact hrun 0

theorem crc16_spread_word (v : BitVec 16) :
    crc16Register.spread 0 (BitList.ofNat 16 v.toNat) = v := by
  refine BitVec.eq_of_getLsbD_eq fun i hi => ?_
  have hbit := crc16Register.getLsbD_spread (BitList.ofNat 16 v.toNat) (i := 0) (j := 15 - i)
    (by simp) (by omega)
  rw [show crc16Register.place (15 - i) = i from by show 15 - (15 - i) = i; omega] at hbit
  rw [hbit, List.getD_eq_getElem?_getD, Nat.sub_zero, BitList.getElem?_ofNat (by omega),
    show 16 - 1 - (15 - i) = i by omega]
  rfl

/-- The lowest bit, taken by a mask. -/
theorem and_one_eq (x : BitVec 32) : decide (x &&& 1 = 1) = x.getLsbD 0 := by
  have hmask : x &&& 1 = (BitVec.ofBool (x.getLsbD 0)).setWidth 32 :=
    BitVec.and_one_eq_setWidth_ofBool_getLsbD
  rw [hmask]
  cases x.getLsbD 0 <;> rfl

theorem crc16_step_eq (s : BitVec 16) (b : Bool) : crc16Register.step s b
    = if s.getLsbD 15 ^^ b then s <<< 1 ^^^ polynomial else s <<< 1 := by
  have htop : BitVec.twoPow 16 15 <<< 1 = 0#16 := by decide
  cases b
  · show Encoding.shift (s ^^^ 0#16) = _
    rw [BitVec.xor_zero, Bool.xor_false, Encoding.shift]
  · show Encoding.shift (s ^^^ .twoPow 16 15) = _
    have hbit : (s ^^^ .twoPow 16 15).getLsbD 15 = (s.getLsbD 15 ^^ true) := by
      rw [BitVec.getLsbD_xor]
      rfl
    rw [Encoding.shift, hbit, BitVec.shiftLeft_xor_distrib, htop, BitVec.xor_zero]

/-- One turn of the loop is one bit of the register; the upper half of the word is cut off
at the end. -/
theorem crc16Bit_eq (b : Byte) (crc : BitVec 32) {i : ℕ} (h : i < 8) :
    (crc16Bit b crc i).setWidth 16
      = crc16Register.step (crc.setWidth 16) (b.getLsbD (7 - i)) := by
  have hbit : ((b.signExtend 32).sshiftRight (7 - i)).getLsbD 0 = b.getLsbD (7 - i) := by
    rw [BitVec.getLsbD_sshiftRight, BitVec.getLsbD_signExtend]
    simp [show 7 - i < 32 by omega, show 7 - i < 8 by omega]
  have hc15 : (crc.sshiftRight 15).getLsbD 0 = (crc.setWidth 16).getLsbD 15 := by
    rw [BitVec.getLsbD_sshiftRight]
    simp
  have hshift : (crc <<< 1).setWidth 16 = crc.setWidth 16 <<< 1 := by
    ext j hj
    by_cases h0 : j < 1
    · simp [h0]
    · simp [h0]
  rw [crc16Bit, crc16_step_eq, and_one_eq, and_one_eq, hbit, hc15]
  cases (crc.setWidth 16).getLsbD 15 ^^ b.getLsbD (7 - i)
  · exact hshift
  · rw [if_pos rfl, if_pos rfl, BitVec.setWidth_xor, hshift]
    rfl

theorem crc16Byte_eq (b : Byte) (crc : BitVec 32) :
    ((List.range 8).foldl (crc16Bit b) crc).setWidth 16
      = crc16Register.run (crc.setWidth 16) (BitList.ofNat 8 b.toNat) := by
  have hloop : ∀ n ≤ 8, ((List.range n).foldl (crc16Bit b) crc).setWidth 16
      = crc16Register.run (crc.setWidth 16) ((BitList.ofNat 8 b.toNat).take n) := by
    intro n hn
    induction n with
    | zero => rfl
    | succ n ih =>
      have hlast : (BitList.ofNat 8 b.toNat)[n]? = some (b.getLsbD (7 - n)) :=
        BitList.getElem?_ofNat (by omega)
      rw [List.range_succ, List.foldl_append, List.foldl_cons, List.foldl_nil,
        crc16Bit_eq _ _ (by omega), ih (by omega), List.take_add_one, hlast,
        crc16Register.run_append]
      rfl
  rw [hloop 8 (Nat.le_refl 8), List.take_of_length_le (by simp)]

/-- **The loop over the bits gives the remainder that tonlib takes from its table.** -/
theorem getCRC16ChecksumAsInt_eq (bytes : Bytes) :
    getCRC16ChecksumAsInt bytes = (crc16 bytes).setWidth 32 := by
  have hrun : ∀ crc : BitVec 32,
      (bytes.foldl (fun crc b => (List.range 8).foldl (crc16Bit b) crc) crc).setWidth 16
        = crc16Register.run (crc.setWidth 16) (unpack bytes) := by
    induction bytes with
    | nil => exact fun _ => rfl
    | cons b bytes ih =>
      intro crc
      rw [List.foldl_cons, ih, crc16Byte_eq, BitList.unpack_cons, crc16Register.run_append]
  have hmask : ∀ x : BitVec 32, x &&& 0xffff = (x.setWidth 16).setWidth 32 := by
    intro x
    refine BitVec.eq_of_toNat_eq ?_
    rw [BitVec.toNat_and, BitVec.toNat_setWidth_of_le (by decide), BitVec.toNat_setWidth]
    exact Nat.and_two_pow_sub_one_eq_mod _ 16
  rw [getCRC16ChecksumAsInt, hmask, hrun, crc16_eq_xmodem, xmodem_eq_run]
  rfl

/-- The bytes of the checksum are its bits. -/
theorem unpack_getCRC16ChecksumAsBytes (bytes : Bytes) :
    unpack (getCRC16ChecksumAsBytes bytes) = BitList.ofNat 16 (crc16 bytes).toNat := by
  have hlt := (crc16 bytes).isLt
  set v := (crc16 bytes).toNat with hv
  have hword : (getCRC16ChecksumAsInt bytes).toNat = v := by
    rw [getCRC16ChecksumAsInt_eq, BitVec.toNat_setWidth, Nat.mod_eq_of_lt (by omega)]
  have hhigh : ((getCRC16ChecksumAsInt bytes >>> 8).setWidth 8 : Byte).toNat = v / 2 ^ 8 := by
    rw [BitVec.toNat_setWidth, BitVec.toNat_ushiftRight, hword, Nat.shiftRight_eq_div_pow,
      Nat.mod_eq_of_lt (by omega)]
  have hlow : ((getCRC16ChecksumAsInt bytes).setWidth 8 : Byte).toNat = v % 2 ^ 8 := by
    rw [BitVec.toNat_setWidth, hword]
  rw [getCRC16ChecksumAsBytes, BitList.unpack_cons, BitList.unpack_cons, BitList.unpack_nil,
    List.append_nil, hhigh, hlow, BitList.ofNat_mod (Nat.le_refl 8),
    show BitList.ofNat 16 v = _ from BitList.ofNat_append 8 8 v]

/-- An array with the right checksum behind it leaves the remainder zero. -/
theorem crc16_checked {data sum : Bytes} (hlen : sum.length = 2) :
    crc16Register.run 0 (unpack (data ++ sum)) = 0#16 ↔ getCRC16ChecksumAsBytes data = sum := by
  have hbits : (unpack sum).length = 16 := by rw [BitList.length_unpack, hlen]
  have hcheck := crc16Register.run_checksum 0 0#16 (unpack data) hbits
  rw [crc16Register.shifts_zero, BitVec.xor_zero, ← xmodem_eq_run, ← crc16_eq_xmodem] at hcheck
  rw [BitList.unpack_append, hcheck]
  constructor
  · intro h
    refine BitList.unpack_injective ?_
    rw [unpack_getCRC16ChecksumAsBytes]
    exact crc16Register.spread_injective (by simp) (by rw [hbits]; simp)
      ((crc16_spread_word _).trans h.symm)
  · intro h
    rw [← h, unpack_getCRC16ChecksumAsBytes, crc16_spread_word]

/-- Two arrays with their checksums that differ in at most 16 bits in a row are equal. -/
theorem crc16_burst {data sum data' sum' : Bytes} (hlen : sum.length = 2) (hlen' : sum'.length = 2)
    (hsum : getCRC16ChecksumAsBytes data = sum) (hsum' : getCRC16ChecksumAsBytes data' = sum')
    {pre as bs post : List Bool} (hbits : unpack (data ++ sum) = pre ++ as ++ post)
    (hbits' : unpack (data' ++ sum') = pre ++ bs ++ post) (has : as.length ≤ 16)
    (hbs : as.length = bs.length) : data ++ sum = data' ++ sum' := by
  have h := (crc16_checked hlen).mpr hsum
  have h' := (crc16_checked hlen').mpr hsum'
  rw [hbits] at h
  rw [hbits'] at h'
  refine BitList.unpack_injective ?_
  rw [hbits, hbits', crc16Register.eq_of_run_eq 0 has hbs (h.trans h'.symm)]

/-! ## CRC-32C -/

/-- `CRC_TABLE` (`Crc32c.java` lines 12–77). -/
def crcTable : List (BitVec 32) :=
  [0x00000000, 0xf26b8303, 0xe13b70f7, 0x1350f3f4, 0xc79a971f, 0x35f1141c, 0x26a1e7e8, 0xd4ca64eb,
   0x8ad958cf, 0x78b2dbcc, 0x6be22838, 0x9989ab3b, 0x4d43cfd0, 0xbf284cd3, 0xac78bf27, 0x5e133c24,
   0x105ec76f, 0xe235446c, 0xf165b798, 0x030e349b, 0xd7c45070, 0x25afd373, 0x36ff2087, 0xc494a384,
   0x9a879fa0, 0x68ec1ca3, 0x7bbcef57, 0x89d76c54, 0x5d1d08bf, 0xaf768bbc, 0xbc267848, 0x4e4dfb4b,
   0x20bd8ede, 0xd2d60ddd, 0xc186fe29, 0x33ed7d2a, 0xe72719c1, 0x154c9ac2, 0x061c6936, 0xf477ea35,
   0xaa64d611, 0x580f5512, 0x4b5fa6e6, 0xb93425e5, 0x6dfe410e, 0x9f95c20d, 0x8cc531f9, 0x7eaeb2fa,
   0x30e349b1, 0xc288cab2, 0xd1d83946, 0x23b3ba45, 0xf779deae, 0x05125dad, 0x1642ae59, 0xe4292d5a,
   0xba3a117e, 0x4851927d, 0x5b016189, 0xa96ae28a, 0x7da08661, 0x8fcb0562, 0x9c9bf696, 0x6ef07595,
   0x417b1dbc, 0xb3109ebf, 0xa0406d4b, 0x522bee48, 0x86e18aa3, 0x748a09a0, 0x67dafa54, 0x95b17957,
   0xcba24573, 0x39c9c670, 0x2a993584, 0xd8f2b687, 0x0c38d26c, 0xfe53516f, 0xed03a29b, 0x1f682198,
   0x5125dad3, 0xa34e59d0, 0xb01eaa24, 0x42752927, 0x96bf4dcc, 0x64d4cecf, 0x77843d3b, 0x85efbe38,
   0xdbfc821c, 0x2997011f, 0x3ac7f2eb, 0xc8ac71e8, 0x1c661503, 0xee0d9600, 0xfd5d65f4, 0x0f36e6f7,
   0x61c69362, 0x93ad1061, 0x80fde395, 0x72966096, 0xa65c047d, 0x5437877e, 0x4767748a, 0xb50cf789,
   0xeb1fcbad, 0x197448ae, 0x0a24bb5a, 0xf84f3859, 0x2c855cb2, 0xdeeedfb1, 0xcdbe2c45, 0x3fd5af46,
   0x7198540d, 0x83f3d70e, 0x90a324fa, 0x62c8a7f9, 0xb602c312, 0x44694011, 0x5739b3e5, 0xa55230e6,
   0xfb410cc2, 0x092a8fc1, 0x1a7a7c35, 0xe811ff36, 0x3cdb9bdd, 0xceb018de, 0xdde0eb2a, 0x2f8b6829,
   0x82f63b78, 0x709db87b, 0x63cd4b8f, 0x91a6c88c, 0x456cac67, 0xb7072f64, 0xa457dc90, 0x563c5f93,
   0x082f63b7, 0xfa44e0b4, 0xe9141340, 0x1b7f9043, 0xcfb5f4a8, 0x3dde77ab, 0x2e8e845f, 0xdce5075c,
   0x92a8fc17, 0x60c37f14, 0x73938ce0, 0x81f80fe3, 0x55326b08, 0xa759e80b, 0xb4091bff, 0x466298fc,
   0x1871a4d8, 0xea1a27db, 0xf94ad42f, 0x0b21572c, 0xdfeb33c7, 0x2d80b0c4, 0x3ed04330, 0xccbbc033,
   0xa24bb5a6, 0x502036a5, 0x4370c551, 0xb11b4652, 0x65d122b9, 0x97baa1ba, 0x84ea524e, 0x7681d14d,
   0x2892ed69, 0xdaf96e6a, 0xc9a99d9e, 0x3bc21e9d, 0xef087a76, 0x1d63f975, 0x0e330a81, 0xfc588982,
   0xb21572c9, 0x407ef1ca, 0x532e023e, 0xa145813d, 0x758fe5d6, 0x87e466d5, 0x94b49521, 0x66df1622,
   0x38cc2a06, 0xcaa7a905, 0xd9f75af1, 0x2b9cd9f2, 0xff56bd19, 0x0d3d3e1a, 0x1e6dcdee, 0xec064eed,
   0xc38d26c4, 0x31e6a5c7, 0x22b65633, 0xd0ddd530, 0x0417b1db, 0xf67c32d8, 0xe52cc12c, 0x1747422f,
   0x49547e0b, 0xbb3ffd08, 0xa86f0efc, 0x5a048dff, 0x8ecee914, 0x7ca56a17, 0x6ff599e3, 0x9d9e1ae0,
   0xd3d3e1ab, 0x21b862a8, 0x32e8915c, 0xc083125f, 0x144976b4, 0xe622f5b7, 0xf5720643, 0x07198540,
   0x590ab964, 0xab613a67, 0xb831c993, 0x4a5a4a90, 0x9e902e7b, 0x6cfbad78, 0x7fab5e8c, 0x8dc0dd8f,
   0xe330a81a, 0x115b2b19, 0x020bd8ed, 0xf0605bee, 0x24aa3f05, 0xd6c1bc06, 0xc5914ff2, 0x37faccf1,
   0x69e9f0d5, 0x9b8273d6, 0x88d28022, 0x7ab90321, 0xae7367ca, 0x5c18e4c9, 0x4f48173d, 0xbd23943e,
   0xf36e6f75, 0x0105ec76, 0x12551f82, 0xe03e9c81, 0x34f4f86a, 0xc69f7b69, 0xd5cf889d, 0x27a40b9e,
   0x79b737ba, 0x8bdcb4b9, 0x988c474d, 0x6ae7c44e, 0xbe2da0a5, 0x4c4623a6, 0x5f16d052, 0xad7d5351]

/-- `LONG_MASK` (`Crc32c.java` line 79). -/
def longMask : BitVec 64 := 0xffffffff

/-- `updateByte` (`Crc32c.java` lines 145–149). The entries of the table are literals of `int`,
so they are extended with their sign. -/
def updateByte (newByte : Byte) (crc : BitVec 64) : BitVec 64 :=
  let b : Byte := (newByte.signExtend 64 &&& 0xff).setWidth 8
  let index := (crc ^^^ b.signExtend 64) &&& 0xff
  ((crcTable.getD index.toNat 0).signExtend 64 ^^^ crc.sshiftRight 8) &&& longMask

/-- `getCRC32ChecksumAsLong` (`Utils.java` lines 32–36), with `update` and `getValue`
(`Crc32c.java` lines 106–121) of a new object. -/
def getCRC32ChecksumAsLong (bytes : Bytes) : BitVec 64 :=
  let newCrc : BitVec 64 := 0 ^^^ longMask
  bytes.foldl (fun newCrc b => updateByte b newCrc) newCrc ^^^ longMask

/-- `longToBytes` (`Utils.java` lines 58–65). -/
def longToBytes (l : BitVec 64) : Bytes :=
  [(l.sshiftRight 24).setWidth 8, (l.sshiftRight 16).setWidth 8, (l.sshiftRight 8).setWidth 8,
    l.setWidth 8]

/-- `getCRC32ChecksumAsBytesReversed` (`Utils.java` lines 46–56). -/
def getCRC32ChecksumAsBytesReversed (bytes : Bytes) : Bytes :=
  (longToBytes (getCRC32ChecksumAsLong bytes)).reverse

/-- The polynomial of CRC-32C, the highest power at bit 0. -/
def polynomial32c : BitVec 32 := 0x82F63B78

/-- The remainder after one more bit. -/
def shift32c (crc : BitVec 32) : BitVec 32 :=
  if crc.getLsbD 0 then (crc >>> 1) ^^^ polynomial32c else crc >>> 1

theorem shift32c_xor (a b : BitVec 32) : shift32c (a ^^^ b) = shift32c a ^^^ shift32c b := by
  have hcancel : a >>> 1 ^^^ polynomial32c ^^^ (b >>> 1 ^^^ polynomial32c)
      = a >>> 1 ^^^ b >>> 1 := by
    rw [BitVec.xor_assoc, BitVec.xor_comm (b >>> 1), ← BitVec.xor_assoc polynomial32c,
      BitVec.xor_self, BitVec.zero_xor]
  have hswap : a >>> 1 ^^^ b >>> 1 ^^^ polynomial32c = a >>> 1 ^^^ polynomial32c ^^^ b >>> 1 := by
    rw [BitVec.xor_assoc, BitVec.xor_comm (b >>> 1), ← BitVec.xor_assoc]
  unfold shift32c
  rw [BitVec.getLsbD_xor, BitVec.ushiftRight_xor_distrib]
  cases a.getLsbD 0 <;> cases b.getLsbD 0
  · rfl
  · exact BitVec.xor_assoc ..
  · exact hswap
  · exact hcancel.symm

theorem shift32c_eq_zero {x : BitVec 32} (h : shift32c x = 0#32) : x = 0#32 := by
  rw [shift32c] at h
  split at h
  · have hhigh := congrArg (fun v => v.getLsbD 31) h
    simp [polynomial32c] at hhigh
  · rename_i hlow
    refine BitVec.eq_of_getLsbD_eq fun i hi => ?_
    cases i with
    | zero => simpa using hlow
    | succ i =>
      have hbit := congrArg (fun v => v.getLsbD i) h
      rw [BitVec.getLsbD_ushiftRight, Nat.add_comm] at hbit
      simpa using hbit

theorem shift32c_injective : Function.Injective shift32c := by
  intro a b h
  have hxor : shift32c (a ^^^ b) = 0#32 := by rw [shift32c_xor, h, BitVec.xor_self]
  exact BitVec.xor_eq_zero_iff.mp (shift32c_eq_zero hxor)

theorem crc32c_shift_place (i : ℕ) (h : i + 1 < 32) :
    shift32c (.twoPow 32 (i + 1)) = .twoPow 32 i := by
  have hall : ∀ i < 31, shift32c (.twoPow 32 (i + 1)) = .twoPow 32 i := by decide
  exact hall i (by omega)

/-- The register of CRC-32C. -/
def crc32cRegister : Crc.Register 32 where
  shift := shift32c
  place i := i
  shift_xor := shift32c_xor
  shift_injective := shift32c_injective
  place_lt _ h := h
  place_injective _ _ _ _ h := h
  shift_place := crc32c_shift_place

/-- CRC-32C: the register begins and ends inverted. -/
def crc32c (bytes : Bytes) : BitVec 32 :=
  crc32cRegister.run (.allOnes 32) (BitList.unpackLow bytes) ^^^ .allOnes 32

theorem crcTable_eq :
    crcTable = (List.range 256).map fun n => shift32c^[8] (BitVec.ofNat 32 n) := by
  decide +kernel

theorem crcTable_spec (n : ℕ) (h : n < 256) :
    crcTable.getD n 0 = shift32c^[8] (BitVec.ofNat 32 n) := by
  rw [crcTable_eq, List.getD_eq_getElem?_getD, List.getElem?_map, List.getElem?_range h]
  rfl

theorem crc32c_spread_byte (n : ℕ) (h : n < 256) :
    crc32cRegister.spread 0 (BitList.ofNat 8 n).reverse = BitVec.ofNat 32 n := by
  refine BitVec.eq_of_getLsbD_eq fun i hi => ?_
  have hbit := crc32cRegister.getLsbD_spread (BitList.ofNat 8 n).reverse (i := 0) (j := i)
    (by simp) hi
  rw [show crc32cRegister.place i = i from rfl] at hbit
  rw [hbit, BitVec.getLsbD_ofNat, List.getD_eq_getElem?_getD, Nat.sub_zero]
  by_cases h8 : i < 8
  · rw [List.getElem?_reverse (by simpa using h8), BitList.length_ofNat,
      BitList.getElem?_ofNat (by omega), show 8 - 1 - (8 - 1 - i) = i by omega]
    simp [hi]
  · rw [List.getElem?_eq_none (by simpa using h8), Nat.testBit_lt_two_pow
      (h.trans_le (Nat.pow_le_pow_right Nat.two_pos (show 8 ≤ i by omega)))]
    simp

/-- Shifts that shift zeros out. -/
theorem shifts32c_of_low {x : BitVec 32} {n : ℕ} (h : ∀ i < n, x.getLsbD i = false) :
    shift32c^[n] x = x >>> n := by
  induction n with
  | zero => simp
  | succ n ih =>
    have hlow : (x >>> n).getLsbD 0 = false := by
      rw [BitVec.getLsbD_ushiftRight]
      exact h n (Nat.lt_succ_self n)
    rw [Function.iterate_succ_apply', ih fun i hi => h i (by omega), shift32c, hlow,
      if_neg Bool.false_ne_true, BitVec.shiftRight_add]

/-- A byte is shifted out: its remainder is added to the others. -/
theorem shifts32c_eight (x : BitVec 32) :
    shift32c^[8] x = crcTable.getD (x.toNat % 256) 0 ^^^ x >>> 8 := by
  set low : BitVec 32 := BitVec.ofNat 32 (x.toNat % 256) with hlow
  have hbits : ∀ i, low.getLsbD i = (decide (i < 8) && x.getLsbD i) := by
    intro i
    rw [hlow, BitVec.getLsbD_ofNat, show 256 = 2 ^ 8 from rfl, Nat.testBit_mod_two_pow]
    by_cases h : i < 8
    · simp [h, show i < 32 by omega]
      rfl
    · simp [h]
  have hhigh : ∀ i < 8, (x ^^^ low).getLsbD i = false := by
    intro i hi
    rw [BitVec.getLsbD_xor, hbits, decide_eq_true hi, Bool.true_and, Bool.xor_self]
  have hmoved : (x ^^^ low) >>> 8 = x >>> 8 := by
    refine BitVec.eq_of_getLsbD_eq fun i hi => ?_
    rw [BitVec.getLsbD_ushiftRight, BitVec.getLsbD_ushiftRight, BitVec.getLsbD_xor, hbits]
    simp
  have hsplit : x = low ^^^ (x ^^^ low) := by
    rw [BitVec.xor_comm x, ← BitVec.xor_assoc, BitVec.xor_self, BitVec.zero_xor]
  have hlinear : shift32c^[8] (low ^^^ (x ^^^ low))
      = shift32c^[8] low ^^^ shift32c^[8] (x ^^^ low) := crc32cRegister.shifts_xor 8 _ _
  rw [← hsplit, shifts32c_of_low hhigh, hmoved] at hlinear
  rw [hlinear, crcTable_spec _ (Nat.mod_lt _ (by decide))]

theorem and_longMask (x : BitVec 64) : x &&& longMask = (x.setWidth 32).setWidth 64 := by
  refine BitVec.eq_of_toNat_eq ?_
  rw [BitVec.toNat_and, BitVec.toNat_setWidth_of_le (by decide), BitVec.toNat_setWidth]
  exact Nat.and_two_pow_sub_one_eq_mod _ 32

/-- What a sign extension adds is cut off. -/
theorem setWidth_signExtend {v w : ℕ} (h : v ≤ w) (x : BitVec v) :
    (x.signExtend w).setWidth v = x := by
  ext i hi
  rw [BitVec.getElem_setWidth, BitVec.getLsbD_signExtend]
  simp [hi, show i < w by omega]

/-- One byte from the table is one byte of the register. -/
theorem updateByte_eq (b : Byte) (crc : BitVec 32) : updateByte b (crc.setWidth 64)
    = (crc32cRegister.run crc (BitList.ofNat 8 b.toNat).reverse).setWidth 64 := by
  have hspread := crc32c_spread_byte b.toNat b.isLt
  have hmask : ∀ x : BitVec 64, x &&& 0xff = (x.setWidth 8).setWidth 64 := by
    intro x
    refine BitVec.eq_of_toNat_eq ?_
    rw [BitVec.toNat_and, BitVec.toNat_setWidth_of_le (by decide), BitVec.toNat_setWidth]
    exact Nat.and_two_pow_sub_one_eq_mod _ 8
  have hbyte : (b.signExtend 64).setWidth 8 = b := setWidth_signExtend (by decide) b
  have hindex : ((crc.setWidth 64 ^^^ b.signExtend 64) &&& 0xff).toNat
      = (crc ^^^ BitVec.ofNat 32 b.toNat).toNat % 256 := by
    have hlow : (crc.setWidth 64 ^^^ b.signExtend 64).setWidth 8
        = (crc ^^^ BitVec.ofNat 32 b.toNat).setWidth 8 := by
      rw [BitVec.setWidth_xor, BitVec.setWidth_xor, hbyte]
      rw [BitVec.setWidth_setWidth_of_le _ (by decide), BitVec.setWidth_ofNat_of_le (by decide),
        BitVec.ofNat_toNat, BitVec.setWidth_eq]
    rw [hmask, hlow, BitVec.toNat_setWidth_of_le (by decide), BitVec.toNat_setWidth]
  have hshifted : ((crc.setWidth 64).sshiftRight 8).setWidth 32 = crc >>> 8 := by
    ext i hi
    rw [BitVec.getElem_setWidth, BitVec.getLsbD_sshiftRight]
    simp [show 8 + i < 64 by omega, show i < 64 by omega]
  have hnone : (crc ^^^ BitVec.ofNat 32 b.toNat) >>> 8 = crc >>> 8 := by
    have hb := b.isLt
    have hzero : BitVec.ofNat 32 b.toNat >>> 8 = 0#32 := by
      refine BitVec.eq_of_toNat_eq ?_
      rw [BitVec.toNat_ushiftRight, BitVec.toNat_ofNat, Nat.shiftRight_eq_div_pow]
      exact (Nat.div_eq_of_lt (by omega)).trans rfl
    rw [BitVec.ushiftRight_xor_distrib, hzero, BitVec.xor_zero]
  rw [updateByte, crc32cRegister.run_eq_iterate crc (by simp), hspread, List.length_reverse,
    BitList.length_ofNat, show crc32cRegister.shift = shift32c from rfl, shifts32c_eight, hnone]
  simp only [hmask, hbyte, BitVec.setWidth_setWidth_of_le _ (show 8 ≤ 64 by decide),
    BitVec.setWidth_eq]
  rw [← hmask, hindex, and_longMask, BitVec.setWidth_xor, setWidth_signExtend (by decide), hshifted]

/-- **The table gives the remainder of CRC-32C.** -/
theorem crc32c_eq (bytes : Bytes) :
    getCRC32ChecksumAsLong bytes = (crc32c bytes).setWidth 64 := by
  have hrun : ∀ crc : BitVec 32, bytes.foldl (fun newCrc b => updateByte b newCrc) (crc.setWidth 64)
      = (crc32cRegister.run crc (BitList.unpackLow bytes)).setWidth 64 := by
    induction bytes with
    | nil => exact fun _ => rfl
    | cons b bytes ih =>
      intro crc
      rw [List.foldl_cons, updateByte_eq, ih, BitList.unpackLow_cons, crc32cRegister.run_append]
  have hmask : (BitVec.allOnes 32).setWidth 64 = longMask := by decide
  have hstart : (0 : BitVec 64) ^^^ longMask = (BitVec.allOnes 32).setWidth 64 := by decide
  rw [getCRC32ChecksumAsLong, crc32c, BitVec.setWidth_xor, hmask]
  simp only [hstart, hrun]

theorem crc32c_spread_word (v : BitVec 32) :
    crc32cRegister.spread 0 (BitList.ofNat 32 v.toNat).reverse = v := by
  refine BitVec.eq_of_getLsbD_eq fun i hi => ?_
  have hbit := crc32cRegister.getLsbD_spread (BitList.ofNat 32 v.toNat).reverse (i := 0) (j := i)
    (by simp) hi
  rw [show crc32cRegister.place i = i from rfl, List.getD_eq_getElem?_getD,
    List.getElem?_reverse (by simpa using hi), BitList.length_ofNat,
    BitList.getElem?_ofNat (by omega), show 32 - 1 - (32 - 1 - (i - 0)) = i by omega] at hbit
  rw [hbit]
  rfl

/-- The bytes of a word are its bits. -/
theorem unpack_longToBytes (v : BitVec 32) :
    unpack (longToBytes (v.setWidth 64)) = BitList.ofNat 32 v.toNat := by
  have hlt := v.isLt
  have hbyte : ∀ k ≤ 24, (((v.setWidth 64).sshiftRight k).setWidth 8 : Byte).toNat
      = v.toNat / 2 ^ k % 2 ^ 8 := by
    intro k hk
    have hmsb : (v.setWidth 64).msb = false := by
      rw [BitVec.msb_eq_getLsbD_last, BitVec.getLsbD_setWidth]
      simp
    rw [BitVec.toNat_setWidth, BitVec.sshiftRight_eq_of_msb_false hmsb, BitVec.toNat_ushiftRight,
      BitVec.toNat_setWidth_of_le (by decide), Nat.shiftRight_eq_div_pow]
  have h0 := hbyte 0 (by decide)
  rw [BitVec.sshiftRight_zero, pow_zero, Nat.div_one] at h0
  simp only [longToBytes, BitList.unpack_cons, BitList.unpack_nil, List.append_nil]
  rw [hbyte 24 (by decide), hbyte 16 (by decide), hbyte 8 (by decide), h0,
    BitList.ofNat_mod (Nat.le_refl 8), BitList.ofNat_mod (Nat.le_refl 8),
    BitList.ofNat_mod (Nat.le_refl 8), BitList.ofNat_mod (Nat.le_refl 8),
    show BitList.ofNat 32 v.toNat = _ from BitList.ofNat_append 8 24 _,
    show BitList.ofNat 24 v.toNat = _ from BitList.ofNat_append 8 16 _,
    show BitList.ofNat 16 v.toNat = _ from BitList.ofNat_append 8 8 _]

/-- The bytes of the checksum, in their order, are its bits. -/
theorem unpackLow_getCRC32ChecksumAsBytesReversed (bytes : Bytes) :
    BitList.unpackLow (getCRC32ChecksumAsBytesReversed bytes)
      = (BitList.ofNat 32 (crc32c bytes).toNat).reverse := by
  rw [getCRC32ChecksumAsBytesReversed, BitList.unpackLow_reverse, crc32c_eq, unpack_longToBytes]

@[simp] theorem length_getCRC32ChecksumAsBytesReversed (bytes : Bytes) :
    (getCRC32ChecksumAsBytesReversed bytes).length = 4 := rfl

/-- An array with the right checksum behind it leaves the remainder that an inverted register
leaves. -/
theorem crc32c_checked {data sum : Bytes} (hlen : sum.length = 4) :
    crc32cRegister.run (.allOnes 32) (BitList.unpackLow (data ++ sum))
      = crc32cRegister.shift^[32] (.allOnes 32) ↔ getCRC32ChecksumAsBytesReversed data = sum := by
  have hbits : (BitList.unpackLow sum).length = 32 := by rw [BitList.length_unpackLow, hlen]
  rw [BitList.unpackLow_append, crc32cRegister.run_checksum _ _ _ hbits]
  show crc32cRegister.spread 0 _ = crc32c data ↔ _
  constructor
  · intro h
    refine BitList.unpackLow_injective ?_
    rw [unpackLow_getCRC32ChecksumAsBytesReversed]
    exact crc32cRegister.spread_injective (by simp) (by rw [hbits]; simp)
      ((crc32c_spread_word _).trans h.symm)
  · intro h
    rw [← h, unpackLow_getCRC32ChecksumAsBytesReversed, crc32c_spread_word]

/-- Two arrays with their checksums that differ in at most four bytes in a row are equal. -/
theorem crc32c_burst {data sum data' sum' : Bytes} (hlen : sum.length = 4) (hlen' : sum'.length = 4)
    (hsum : getCRC32ChecksumAsBytesReversed data = sum)
    (hsum' : getCRC32ChecksumAsBytesReversed data' = sum') {pre u v post : Bytes}
    (hbytes : data ++ sum = pre ++ u ++ post) (hbytes' : data' ++ sum' = pre ++ v ++ post)
    (hu : u.length ≤ 4) (huv : u.length = v.length) : u = v := by
  have h := (crc32c_checked hlen).mpr hsum
  have h' := (crc32c_checked hlen').mpr hsum'
  rw [hbytes, BitList.unpackLow_append, BitList.unpackLow_append] at h
  rw [hbytes', BitList.unpackLow_append, BitList.unpackLow_append] at h'
  refine BitList.unpackLow_injective (crc32cRegister.eq_of_checked _ _ ?_ ?_ h h')
  · rw [BitList.length_unpackLow]
    omega
  · rw [BitList.length_unpackLow, BitList.length_unpackLow, huv]

end TonWallet.Cells
