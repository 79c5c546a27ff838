import Mathlib.Data.List.Induction
import TonWallet.Encoding.Currency
import TonWallet.Encoding.Hex
import TonWallet.Lib.BitLists

/-!
# Byte arrays of the cell library

The functions of `Utils.java` that the cells are built with, and what a call of
the library ends with instead of a value.

* `hexToBytes_bytesToHex`: the hexadecimal text of bytes is read back. Any other
  text of an even length is read too, a character that is no digit as minus one.
* `sha256Hex_eq`: the text of a digest.
* `readNBytesFromArray_eq`: what is read is the number the bytes spell, if it fits.
-/

namespace TonWallet.Cells

open TonWallet.Encoding

/-- What a call ends with: an `Error` of the library, an exception of the run-time, or no room left
on the stack. -/
inductive Fault where
  | error (message : Text)
  | thrown (e : Throwable)
  | stackOverflow
deriving DecidableEq, Repr

namespace Fault

variable {α β : Type}

@[simp] theorem ok_bind (a : α) (f : α → Except Fault β) : (Except.ok a >>= f) = f a := rfl

@[simp] theorem error_bind (e : Fault) (f : α → Except Fault β) :
    (Except.error e >>= f) = Except.error e := rfl

/-- A sequence of calls returns when both return. -/
theorem bind_eq_ok {x : Except Fault α} {f : α → Except Fault β} {b : β} :
    (x >>= f) = .ok b ↔ ∃ a, x = .ok a ∧ f a = .ok b := by
  cases x with
  | error e => simp
  | ok a => simp

/-- `if (cond) throw e`. -/
def throwIf (cond : Prop) [Decidable cond] (e : Fault) : Except Fault Unit :=
  if cond then .error e else .ok ()

@[simp] theorem throwIf_eq_ok {cond : Prop} [Decidable cond] {e : Fault} {u : Unit} :
    throwIf cond e = .ok u ↔ ¬ cond := by
  by_cases h : cond
  · simp [throwIf, h]
  · simp [throwIf, h]

theorem throwIf_bind {cond : Prop} [Decidable cond] (h : ¬ cond) (e : Fault)
    (f : Unit → Except Fault β) : (throwIf cond e >>= f) = f () := by
  rw [throwIf, if_neg h]
  rfl

theorem mapM_ok {f : α → Except Fault β} {g : α → β} {l : List α} (h : ∀ a ∈ l, f a = .ok (g a)) :
    l.mapM f = .ok (l.map g) := by
  induction l with
  | nil => rfl
  | cons a l ih =>
    obtain ⟨ha, h⟩ := List.forall_mem_cons.mp h
    rw [List.mapM_cons, ha, ih h]
    rfl

theorem mapError_eq_ok {x : Except Throwable α} {a : α} :
    x.mapError Fault.thrown = .ok a ↔ x = .ok a := by
  cases x with
  | error e => simp [Except.mapError]
  | ok b => simp [Except.mapError]

end Fault

/-- A number in a message. -/
def intText (z : ℤ) : Text :=
  ascii ((if z < 0 then ['-'] else []) ++ Nat.toDigits 10 z.natAbs)

/-! ## Hexadecimal texts -/

/-- `HEXES` (`Utils.java` line 22). -/
def hexes : Text := text "0123456789ABCDEF"

/-- `bytesToHex` (`Utils.java` lines 154–160). -/
def bytesToHex (raw : Bytes) : Text :=
  (raw.flatMap fun b =>
    [hexes.getD ((b.signExtend 32 &&& 0xF0#32) >>> 4).toNat 0,
      hexes.getD (b.signExtend 32 &&& 0x0F#32).toNat 0]).map lowerHex

/-- `Character.digit(c, 16)`. -/
def charDigit (c : Char16) : BitVec 32 :=
  match digit 16 c with
  | some n => BitVec.ofNat 32 n
  | none => -1

/-- `hexStringToByteArray` (`Utils.java` lines 251–258). -/
def hexToBytes : Text → Except Fault Bytes
  | [] => .ok []
  | [_] => .error (.thrown .indexOutOfBounds)
  | c :: d :: s => do
    let data ← hexToBytes s
    return ((charDigit c <<< 4) + charDigit d).setWidth 8 :: data

/-- `sha256(byte[])` (`Utils.java` lines 116–131): the digest, as a text. -/
def sha256Hex (sha256 : Bytes → Bytes) (bytes : Bytes) : Text :=
  (sha256 bytes).flatMap fun b =>
    let hex := ascii (Nat.toDigits 16 b.toNat)
    if hex.length = 1 then 0x30 :: hex else hex

/-- The two halves of a byte, taken by masks. -/
theorem nibbles_eq (b : Byte) : ((b.signExtend 32 &&& 0xF0#32) >>> 4).toNat = b.toNat / 16 ∧
    (b.signExtend 32 &&& 0x0F#32).toNat = b.toNat % 16 := by
  have hall : ∀ n < 256, (((BitVec.ofNat 8 n).signExtend 32 &&& 0xF0#32) >>> 4).toNat = n / 16 ∧
      ((BitVec.ofNat 8 n).signExtend 32 &&& 0x0F#32).toNat = n % 16 := by decide +kernel
  have h := hall b.toNat b.isLt
  rwa [BitVec.ofNat_toNat, BitVec.setWidth_eq] at h

/-- The digits of a byte. -/
theorem toDigits_byte {n : ℕ} (h : n < 256) : (if (ascii (Nat.toDigits 16 n)).length = 1
    then 0x30 :: ascii (Nat.toDigits 16 n) else ascii (Nat.toDigits 16 n))
    = [hexDigits.getD (n / 16) 0, hexDigits.getD (n % 16) 0] := by
  have hdigit : ∀ n < 16, ascii [Nat.digitChar n] = [hexDigits.getD n 0] := by decide
  by_cases hn : n < 16
  · rw [Nat.toDigits_of_lt_base hn, hdigit n hn, Nat.div_eq_of_lt hn, Nat.mod_eq_of_lt hn]
    rfl
  · have hhigh := hdigit (n / 16) (by omega)
    have hlow := hdigit (n % 16) (by omega)
    rw [Nat.toDigits_of_base_le (by decide) (by omega), Nat.toDigits_of_lt_base (by omega), ascii,
      List.map_append]
    exact congrArg₂ (· ++ ·) hhigh hlow

theorem bytesToHex_eq (raw : Bytes) : bytesToHex raw = hexEncode raw := by
  have hdigit : ∀ n < 16, lowerHex (hexes.getD n 0) = hexDigits.getD n 0 := by decide
  rw [bytesToHex, hexEncode, List.map_flatMap]
  refine List.flatMap_congr fun b _ => ?_
  have hb := b.isLt
  obtain ⟨hhigh, hlow⟩ := nibbles_eq b
  rw [hhigh, hlow]
  exact congrArg₂ (fun c d => [c, d]) (hdigit _ (by omega)) (hdigit _ (by omega))

theorem sha256Hex_eq (sha256 : Bytes → Bytes) (bytes : Bytes) :
    sha256Hex sha256 bytes = hexEncode (sha256 bytes) := by
  exact List.flatMap_congr fun b _ => toDigits_byte b.isLt

theorem hexToBytes_hexEncode (bytes : Bytes) : hexToBytes (hexEncode bytes) = .ok bytes := by
  have hdigit : ∀ n < 16, charDigit (hexDigits.getD n 0) = BitVec.ofNat 32 n := by decide
  have hhalves : ∀ hi < 16, ∀ lo < 16, ((BitVec.ofNat 32 hi <<< 4) + BitVec.ofNat 32 lo).setWidth 8
      = BitVec.ofNat 8 (16 * hi + lo) := by decide
  induction bytes with
  | nil => rfl
  | cons b bytes ih =>
    have hcons : hexEncode (b :: bytes)
        = hexDigits.getD (b.toNat / 16) 0 :: hexDigits.getD (b.toNat % 16) 0
          :: hexEncode bytes := rfl
    have hb := b.isLt
    rw [hcons, hexToBytes, ih, Fault.ok_bind, hdigit _ (by omega), hdigit _ (by omega),
      hhalves _ (by omega) _ (by omega), Nat.div_add_mod, BitVec.ofNat_toNat, BitVec.setWidth_eq]
    rfl

theorem hexToBytes_bytesToHex (bytes : Bytes) : hexToBytes (bytesToHex bytes) = .ok bytes := by
  rw [bytesToHex_eq, hexToBytes_hexEncode]

theorem hexEncode_injective : Function.Injective hexEncode := fun a b h =>
  Except.ok.inj ((hexToBytes_hexEncode a).symm.trans (h ▸ hexToBytes_hexEncode b))

theorem bytesToHex_injective : Function.Injective bytesToHex := by
  rw [show bytesToHex = hexEncode from funext bytesToHex_eq]
  exact hexEncode_injective

/-- The text of bytes is their number in base sixteen, with the zeros in front. -/
theorem fixed_sixteen (bytes : Bytes) :
    ascii (Digits.fixed 16 (2 * bytes.length) (BitList.value (BitList.unpack bytes)))
      = hexEncode bytes := by
  have hdigit : ∀ n < 16, ascii [Nat.digitChar n] = [hexDigits.getD n 0] := by decide
  induction bytes using List.reverseRec with
  | nil => rfl
  | append_singleton bytes b ih =>
    have hb := b.isLt
    have happend : hexEncode (bytes ++ [b]) = hexEncode bytes
        ++ [hexDigits.getD (b.toNat / 16) 0, hexDigits.getD (b.toNat % 16) 0] := by
      rw [hexEncode, hexEncode, List.flatMap_append]
      rfl
    have hvalue : BitList.value (BitList.unpack (bytes ++ [b]))
        = BitList.value (BitList.unpack bytes) * 256 + b.toNat := by
      rw [BitList.unpack_append, BitList.value_append, BitList.length_unpack, BitList.unpack_cons,
        BitList.unpack_nil, List.append_nil, BitList.value_ofNat_of_lt hb]
      rfl
    set v := BitList.value (BitList.unpack bytes)
    rw [List.length_append, List.length_singleton, Nat.mul_add, hvalue, Digits.fixed, Digits.fixed,
      happend, ← ih, show (v * 256 + b.toNat) / 16 / 16 = v by omega,
      show (v * 256 + b.toNat) / 16 % 16 = b.toNat / 16 by omega,
      show (v * 256 + b.toNat) % 16 = b.toNat % 16 by omega, ascii, List.map_append,
      List.map_append, List.append_assoc]
    exact congrArg₂ (· ++ ·) rfl (congrArg₂ (· ++ ·) (hdigit _ (by omega)) (hdigit _ (by omega)))

/-! ## Ranges -/

/-- `Arrays.copyOfRange(bytes, lo, hi)`: zeros follow where the range leaves the array. -/
def copyOfRange (bytes : Bytes) (lo hi : ℤ) : Except Fault Bytes :=
  if hi < lo then .error (.thrown .illegalArgument)
  else if lo < 0 ∨ bytes.length < lo then .error (.thrown .indexOutOfBounds)
  else
    .ok (((bytes.drop lo.toNat).take (hi - lo).toNat)
      ++ List.replicate (hi - max lo bytes.length).toNat 0)

theorem copyOfRange_prefix (bytes : Bytes) {n : ℕ} (h : n ≤ bytes.length) :
    copyOfRange bytes 0 n = .ok (bytes.take n) := by
  rw [copyOfRange, if_neg (by omega), if_neg (by omega)]
  simpa using Nat.sub_eq_zero_of_le h

theorem copyOfRange_suffix {bytes : Bytes} {n : ℕ} (h : n ≤ bytes.length) :
    copyOfRange bytes n bytes.length = .ok (bytes.drop n) := by
  rw [copyOfRange, if_neg (by omega), if_neg (by omega)]
  simp [show ((bytes.length : ℤ) - n).toNat = bytes.length - n by omega, List.take_of_length_le]

theorem copyOfRange_range (bytes : Bytes) (lo hi : ℕ) (h : lo ≤ hi) (hhi : hi ≤ bytes.length) :
    copyOfRange bytes lo hi = .ok ((bytes.drop lo).take (hi - lo)) := by
  rw [copyOfRange, if_neg (by omega), if_neg (by omega)]
  simpa [show ((hi : ℤ) - lo).toNat = hi - lo by omega] using Or.inr hhi

/-- The loop of `readNBytesFromArray`. -/
def readBytes : ℕ → BitVec 32 → Bytes → Except Fault (BitVec 32)
  | 0, res, _ => .ok res
  | _ + 1, _, [] => .error (.thrown .indexOutOfBounds)
  | n + 1, res, b :: bytes => readBytes n (res * 256 + b.setWidth 32) bytes

/-- `readNBytesFromArray` (`Utils.java` lines 269–276), in the arithmetic of `int`. -/
def readNBytesFromArray (n : ℤ) (ui8array : Bytes) : Except Fault ℤ :=
  (readBytes n.toNat 0 ui8array).map BitVec.toInt

theorem readBytes_eq {n : ℕ} {bytes : Bytes} (h : n ≤ bytes.length) (res : BitVec 32)
    (hfit : (res.toNat + 1) * 256 ^ n ≤ 2 ^ 32) : readBytes n res bytes
      = .ok (BitVec.ofNat 32
        (res.toNat * 256 ^ n + BitList.value (BitList.unpack (bytes.take n)))) := by
  induction n generalizing res bytes with
  | zero => simp [readBytes]
  | succ n ih =>
    cases bytes with
    | nil => simp at h
    | cons b bytes =>
      have hb := b.isLt
      have hpos : 1 ≤ 256 ^ n := Nat.one_le_pow _ _ (by decide)
      rw [pow_succ] at hfit
      have hstep : (res * 256 + b.setWidth 32).toNat = res.toNat * 256 + b.toNat := by
        have hle := Nat.mul_le_mul_left (res.toNat + 1) (Nat.mul_le_mul_right 256 hpos)
        rw [BitVec.toNat_add, BitVec.toNat_mul, BitVec.toNat_setWidth,
          show (256 : BitVec 32).toNat = 256 from rfl]
        omega
      have hfit' : ((res * 256 + b.setWidth 32).toNat + 1) * 256 ^ n ≤ 2 ^ 32 := by
        rw [hstep]
        calc (res.toNat * 256 + b.toNat + 1) * 256 ^ n
            ≤ (res.toNat * 256 + 256) * 256 ^ n := Nat.mul_le_mul_right _ (by omega)
          _ = (res.toNat + 1) * (256 ^ n * 256) := by ring
          _ ≤ 2 ^ 32 := hfit
      have hlen : (BitList.unpack (bytes.take n)).length = 8 * n := by
        rw [BitList.length_unpack, List.length_take, Nat.min_eq_left (by simpa using h)]
      rw [readBytes, ih (by simpa using h) _ hfit', hstep, List.take_succ_cons,
        BitList.unpack_cons, BitList.value_append, hlen, BitList.value_ofNat_of_lt hb, pow_mul]
      congr 2
      ring

/-- Up to three bytes are read as the number they spell. -/
theorem readNBytesFromArray_eq {n : ℕ} {bytes : Bytes} (h : n ≤ bytes.length) (hn : n ≤ 3) :
    readNBytesFromArray n bytes = .ok (BitList.value (BitList.unpack (bytes.take n)) : ℕ) := by
  have hpow : 256 ^ n ≤ 256 ^ 3 := Nat.pow_le_pow_right (by decide) hn
  have hlt := BitList.value_lt (BitList.unpack (bytes.take n))
  rw [BitList.length_unpack, List.length_take, Nat.min_eq_left h, pow_mul] at hlt
  have hlt : BitList.value (BitList.unpack (bytes.take n)) < 256 ^ n := hlt
  have hzero : (0 : BitVec 32).toNat = 0 := rfl
  rw [readNBytesFromArray, Int.toNat_natCast, readBytes_eq h 0 (by rw [hzero]; omega), hzero,
    Nat.zero_mul, Nat.zero_add]
  set v := BitList.value (BitList.unpack (bytes.take n))
  have hv : (BitVec.ofNat 32 v).toNat = v := by
    rw [BitVec.toNat_ofNat, Nat.mod_eq_of_lt (by omega)]
  rw [Except.map, BitVec.toInt_eq_toNat_of_lt (by omega), hv]

/-- A number in `w` bytes, the highest first. -/
def bigEndian (w n : ℕ) : Bytes := BitList.pack (BitList.ofNat (8 * w) n)

theorem unpack_bigEndian (w n : ℕ) : BitList.unpack (bigEndian w n) = BitList.ofNat (8 * w) n :=
  BitList.unpack_pack (by rw [BitList.length_ofNat]; exact Nat.dvd_mul_right 8 w)

@[simp] theorem length_bigEndian (w n : ℕ) : (bigEndian w n).length = w := by
  have h := congrArg List.length (unpack_bigEndian w n)
  rw [BitList.length_unpack, BitList.length_ofNat] at h
  omega

theorem bigEndian_one (n : ℕ) : bigEndian 1 n = [BitVec.ofNat 8 n] := by
  refine BitList.unpack_injective ?_
  rw [unpack_bigEndian, BitList.unpack_cons, BitList.unpack_nil, List.append_nil,
    BitVec.toNat_ofNat, BitList.ofNat_mod (Nat.le_refl 8)]

/-- A number of up to three bytes is read again. -/
theorem readNBytesFromArray_bigEndian {w n : ℕ} (hw : w ≤ 3) (hn : n < 256 ^ w) (rest : Bytes) :
    readNBytesFromArray w (bigEndian w n ++ rest) = .ok (n : ℤ) := by
  have hpow : (256 : ℕ) ^ w = 2 ^ (8 * w) := by rw [Nat.pow_mul]
  rw [readNBytesFromArray_eq (by simp) hw, List.take_left' (length_bigEndian w n),
    unpack_bigEndian, BitList.value_ofNat_of_lt (hpow ▸ hn)]

end TonWallet.Cells
