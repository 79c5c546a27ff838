import TonWallet.Encoding.Bytes
import Mathlib.Algebra.Order.Group.Nat
import Mathlib.Tactic.Ring

/-!
# Numbers in byte buffers

`ByteBuffer.putInt` and `ByteBuffer.putLong` in the two byte orders.

* `ofLittleEndian_toNat`, `ofBigEndian_toNat`: a number is read back.
* `putInt_bigEndian_inj`, `putInt_littleEndian_inj`: the bytes tell the number.
-/

namespace TonWallet.Encoding

/-- The `n` lowest bytes of a number, the lowest first. -/
def littleEndian : ℕ → ℕ → Bytes
  | 0, _ => []
  | n + 1, x => BitVec.ofNat 8 x :: littleEndian n (x / 256)

/-- The `n` lowest bytes of a number, the lowest last. -/
def bigEndian (n x : ℕ) : Bytes := (littleEndian n x).reverse

@[simp] theorem length_littleEndian (n x : ℕ) : (littleEndian n x).length = n := by
  induction n generalizing x with
  | zero => rfl
  | succ n ih => rw [littleEndian, List.length_cons, ih]

@[simp] theorem length_bigEndian (n x : ℕ) : (bigEndian n x).length = n := by
  rw [bigEndian, List.length_reverse, length_littleEndian]

/-- The number whose bytes these are, the lowest first. -/
def ofLittleEndian : Bytes → ℕ
  | [] => 0
  | b :: bytes => b.toNat + 256 * ofLittleEndian bytes

/-- The number whose bytes these are, the lowest last. -/
def ofBigEndian (bytes : Bytes) : ℕ := ofLittleEndian bytes.reverse

/-- A number is read back, as far as its bytes go. -/
theorem ofLittleEndian_littleEndian (n x : ℕ) :
    ofLittleEndian (littleEndian n x) = x % 256 ^ n := by
  induction n generalizing x with
  | zero => rw [pow_zero, Nat.mod_one]; rfl
  | succ n ih =>
    rw [littleEndian, ofLittleEndian, ih, BitVec.toNat_ofNat, pow_succ' 256 n,
      Nat.mod_mul (a := 256)]

/-- A word that fits into its bytes is read back. -/
theorem ofLittleEndian_toNat {w n : ℕ} (x : BitVec w) (h : 2 ^ w ≤ 256 ^ n) :
    ofLittleEndian (littleEndian n x.toNat) = x.toNat := by
  rw [ofLittleEndian_littleEndian, Nat.mod_eq_of_lt (x.isLt.trans_le h)]

theorem ofBigEndian_toNat {w n : ℕ} (x : BitVec w) (h : 2 ^ w ≤ 256 ^ n) :
    ofBigEndian (bigEndian n x.toNat) = x.toNat := by
  rw [ofBigEndian, bigEndian, List.reverse_reverse, ofLittleEndian_toNat x h]

/-- The bytes determine the number, as far as they go. -/
theorem littleEndian_inj {n x y : ℕ} (h : littleEndian n x = littleEndian n y) :
    x % 256 ^ n = y % 256 ^ n := by
  rw [← ofLittleEndian_littleEndian, h, ofLittleEndian_littleEndian]

theorem putInt_littleEndian_inj {x y : BitVec 32}
    (h : littleEndian 4 x.toNat = littleEndian 4 y.toNat) : x = y := by
  have hmod := littleEndian_inj h
  have hx := x.isLt
  have hy := y.isLt
  rw [Nat.mod_eq_of_lt (by omega), Nat.mod_eq_of_lt (by omega)] at hmod
  exact BitVec.eq_of_toNat_eq hmod

theorem putInt_bigEndian_inj {x y : BitVec 32} (h : bigEndian 4 x.toNat = bigEndian 4 y.toNat) :
    x = y :=
  putInt_littleEndian_inj (List.reverse_injective h)

end TonWallet.Encoding
