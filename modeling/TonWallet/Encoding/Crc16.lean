import TonWallet.Encoding.Bytes
import Mathlib.Logic.Function.Iterate

/-!
# The checksum of keys

The checksum that tonlib appends to a key is computed a byte at a time from a
table. It is the remainder of XMODEM, which takes one bit at a time: a shift is
linear in exclusive or, so eight shifts of a remainder are those of its two bytes.

* `crc16_eq_xmodem`: the table gives the remainder.
-/

namespace TonWallet.Encoding

/-- `crc16_table` (`crypto.cpp` lines 1177–1195). -/
def crc16Table : List (BitVec 16) :=
  [0x0000, 0x1021, 0x2042, 0x3063, 0x4084, 0x50A5, 0x60C6, 0x70E7, 0x8108, 0x9129, 0xA14A, 0xB16B,
   0xC18C, 0xD1AD, 0xE1CE, 0xF1EF, 0x1231, 0x0210, 0x3273, 0x2252, 0x52B5, 0x4294, 0x72F7, 0x62D6,
   0x9339, 0x8318, 0xB37B, 0xA35A, 0xD3BD, 0xC39C, 0xF3FF, 0xE3DE, 0x2462, 0x3443, 0x0420, 0x1401,
   0x64E6, 0x74C7, 0x44A4, 0x5485, 0xA56A, 0xB54B, 0x8528, 0x9509, 0xE5EE, 0xF5CF, 0xC5AC, 0xD58D,
   0x3653, 0x2672, 0x1611, 0x0630, 0x76D7, 0x66F6, 0x5695, 0x46B4, 0xB75B, 0xA77A, 0x9719, 0x8738,
   0xF7DF, 0xE7FE, 0xD79D, 0xC7BC, 0x48C4, 0x58E5, 0x6886, 0x78A7, 0x0840, 0x1861, 0x2802, 0x3823,
   0xC9CC, 0xD9ED, 0xE98E, 0xF9AF, 0x8948, 0x9969, 0xA90A, 0xB92B, 0x5AF5, 0x4AD4, 0x7AB7, 0x6A96,
   0x1A71, 0x0A50, 0x3A33, 0x2A12, 0xDBFD, 0xCBDC, 0xFBBF, 0xEB9E, 0x9B79, 0x8B58, 0xBB3B, 0xAB1A,
   0x6CA6, 0x7C87, 0x4CE4, 0x5CC5, 0x2C22, 0x3C03, 0x0C60, 0x1C41, 0xEDAE, 0xFD8F, 0xCDEC, 0xDDCD,
   0xAD2A, 0xBD0B, 0x8D68, 0x9D49, 0x7E97, 0x6EB6, 0x5ED5, 0x4EF4, 0x3E13, 0x2E32, 0x1E51, 0x0E70,
   0xFF9F, 0xEFBE, 0xDFDD, 0xCFFC, 0xBF1B, 0xAF3A, 0x9F59, 0x8F78, 0x9188, 0x81A9, 0xB1CA, 0xA1EB,
   0xD10C, 0xC12D, 0xF14E, 0xE16F, 0x1080, 0x00A1, 0x30C2, 0x20E3, 0x5004, 0x4025, 0x7046, 0x6067,
   0x83B9, 0x9398, 0xA3FB, 0xB3DA, 0xC33D, 0xD31C, 0xE37F, 0xF35E, 0x02B1, 0x1290, 0x22F3, 0x32D2,
   0x4235, 0x5214, 0x6277, 0x7256, 0xB5EA, 0xA5CB, 0x95A8, 0x8589, 0xF56E, 0xE54F, 0xD52C, 0xC50D,
   0x34E2, 0x24C3, 0x14A0, 0x0481, 0x7466, 0x6447, 0x5424, 0x4405, 0xA7DB, 0xB7FA, 0x8799, 0x97B8,
   0xE75F, 0xF77E, 0xC71D, 0xD73C, 0x26D3, 0x36F2, 0x0691, 0x16B0, 0x6657, 0x7676, 0x4615, 0x5634,
   0xD94C, 0xC96D, 0xF90E, 0xE92F, 0x99C8, 0x89E9, 0xB98A, 0xA9AB, 0x5844, 0x4865, 0x7806, 0x6827,
   0x18C0, 0x08E1, 0x3882, 0x28A3, 0xCB7D, 0xDB5C, 0xEB3F, 0xFB1E, 0x8BF9, 0x9BD8, 0xABBB, 0xBB9A,
   0x4A75, 0x5A54, 0x6A37, 0x7A16, 0x0AF1, 0x1AD0, 0x2AB3, 0x3A92, 0xFD2E, 0xED0F, 0xDD6C, 0xCD4D,
   0xBDAA, 0xAD8B, 0x9DE8, 0x8DC9, 0x7C26, 0x6C07, 0x5C64, 0x4C45, 0x3CA2, 0x2C83, 0x1CE0, 0x0CC1,
   0xEF1F, 0xFF3E, 0xCF5D, 0xDF7C, 0xAF9B, 0xBFBA, 0x8FD9, 0x9FF8, 0x6E17, 0x7E36, 0x4E55, 0x5E74,
   0x2E93, 0x3EB2, 0x0ED1, 0x1EF0]

/-- One turn of the loop; the upper half of the word is never read. -/
def crc16Step (crc : BitVec 32) (c : Byte) : BitVec 32 :=
  let t := (c.setWidth 32 ^^^ (crc >>> 8)) &&& (0xFF : BitVec 32)
  (crc16Table.getD t.toNat 0).setWidth 32 ^^^ (crc <<< 8)

/-- `td::crc16` (`crypto.cpp` lines 1197–1204). -/
def crc16 (data : Bytes) : BitVec 16 := (data.foldl crc16Step 0).setWidth 16

/-! ## One bit at a time -/

/-- The polynomial x^16 + x^12 + x^5 + 1, without its highest power. -/
def polynomial : BitVec 16 := 0x1021

/-- The remainder after one more bit. -/
def shift (crc : BitVec 16) : BitVec 16 :=
  if crc.getLsbD 15 then (crc <<< 1) ^^^ polynomial else crc <<< 1

/-- The remainder after one more byte. -/
def xmodemStep (crc : BitVec 16) (c : Byte) : BitVec 16 :=
  shift^[8] (crc ^^^ (c.setWidth 16 <<< 8))

/-- CRC-16/XMODEM. -/
def xmodem (data : Bytes) : BitVec 16 := data.foldl xmodemStep 0

theorem shift_xor (a b : BitVec 16) : shift (a ^^^ b) = shift a ^^^ shift b := by
  have hcancel : a <<< 1 ^^^ polynomial ^^^ (b <<< 1 ^^^ polynomial) = a <<< 1 ^^^ b <<< 1 := by
    rw [BitVec.xor_assoc, BitVec.xor_comm (b <<< 1), ← BitVec.xor_assoc polynomial,
      BitVec.xor_self, BitVec.zero_xor]
  have hswap : a <<< 1 ^^^ b <<< 1 ^^^ polynomial = a <<< 1 ^^^ polynomial ^^^ b <<< 1 := by
    rw [BitVec.xor_assoc, BitVec.xor_comm (b <<< 1), ← BitVec.xor_assoc]
  unfold shift
  rw [BitVec.getLsbD_xor, BitVec.shiftLeft_xor_distrib]
  cases a.getLsbD 15 <;> cases b.getLsbD 15
  · rfl
  · exact BitVec.xor_assoc ..
  · exact hswap
  · exact hcancel.symm

theorem shifts_xor (n : ℕ) (a b : BitVec 16) :
    shift^[n] (a ^^^ b) = shift^[n] a ^^^ shift^[n] b := by
  have hlinear : Function.Semiconj₂ shift (· ^^^ ·) (· ^^^ ·) := shift_xor
  exact hlinear.iterate n a b

/-! ## One byte at a time -/

/-- The table has the remainders of the upper bytes. -/
theorem crc16Table_spec : ∀ n < 256,
    crc16Table.getD n 0 = shift^[8] ((BitVec.ofNat 8 n).setWidth 16 <<< 8) := by decide +kernel

/-- A lower byte becomes the upper one. -/
theorem shifts_low : ∀ n < 256,
    shift^[8] ((BitVec.ofNat 8 n).setWidth 16) = (BitVec.ofNat 8 n).setWidth 16 <<< 8 := by
  decide +kernel

/-- A remainder and a byte, as the byte that the table is read at and the one that is moved up. -/
theorem xor_split (r : BitVec 16) (c : Byte) : r ^^^ (c.setWidth 16 <<< 8)
    = ((c ^^^ (r >>> 8).setWidth 8).setWidth 16 <<< 8) ^^^ (r.setWidth 8).setWidth 16 := by
  ext i hi
  by_cases h : i < 8
  · simp [h, BitVec.getLsbD_eq_getElem hi]
  · simp [h, BitVec.getLsbD_eq_getElem hi, show i - 8 < 8 by omega,
      show 8 + (i - 8) = i by omega, Bool.xor_comm]

/-- The index into the table. -/
theorem crc16Index_eq (crc : BitVec 32) (c : Byte) :
    ((c.setWidth 32 ^^^ (crc >>> 8)) &&& (0xFF : BitVec 32)).toNat
      = (c ^^^ (crc.setWidth 16 >>> 8).setWidth 8).toNat := by
  have hbits : (c.setWidth 32 ^^^ (crc >>> 8)).setWidth 8
      = c ^^^ (crc.setWidth 16 >>> 8).setWidth 8 := by
    ext i hi
    simp [show 8 + i < 16 by omega]
  rw [← hbits, BitVec.toNat_and, BitVec.toNat_setWidth]
  exact Nat.and_two_pow_sub_one_eq_mod _ 8

theorem crc16Step_spec (crc : BitVec 32) (c : Byte) :
    (crc16Step crc c).setWidth 16 = xmodemStep (crc.setWidth 16) c := by
  set r := crc.setWidth 16 with hr
  set h := c ^^^ (r >>> 8).setWidth 8 with hh
  have hupper := crc16Table_spec h.toNat h.isLt
  have hlower := shifts_low (r.setWidth 8).toNat (BitVec.isLt _)
  rw [BitVec.ofNat_toNat, BitVec.setWidth_eq] at hupper hlower
  have hmove : (crc <<< 8).setWidth 16 = (r.setWidth 8).setWidth 16 <<< 8 := by
    rw [hr]
    ext i hi
    by_cases h : i < 8
    · simp [h]
    · simp [h, show i - 8 < 8 by omega]
  rw [xmodemStep, xor_split, ← hh, shifts_xor, ← hupper, hlower, crc16Step]
  rw [crc16Index_eq, ← hr, ← hh, BitVec.setWidth_xor, hmove,
    BitVec.setWidth_setWidth_of_le _ (by decide), BitVec.setWidth_eq]

/-- **The checksum is the remainder of XMODEM.** -/
theorem crc16_eq_xmodem (data : Bytes) : crc16 data = xmodem data := by
  have hrun : ∀ (crc : BitVec 32), (data.foldl crc16Step crc).setWidth 16
      = data.foldl xmodemStep (crc.setWidth 16) := by
    induction data with
    | nil => exact fun _ => rfl
    | cons c data ih =>
      intro crc
      rw [List.foldl_cons, List.foldl_cons, ih, crc16Step_spec]
  exact hrun 0

/-- The check value of XMODEM: the remainder of `123456789`. -/
example : crc16 [0x31, 0x32, 0x33, 0x34, 0x35, 0x36, 0x37, 0x38, 0x39] = 0x31C3 := by
  decide +kernel

end TonWallet.Encoding
