import Mathlib.Data.List.Basic
import Mathlib.Tactic.Common

/-!
# Byte arrays, strings and exceptions

A Kotlin `ByteArray` is a list of 8-bit words, a `String` a list of UTF-16 code
units. The buffer operations used by the wallet throw when they leave an array,
so they return `Except Throwable`.

* `sliceArray`: `ByteArray.sliceArray(from until to)`.
* `arraycopy`: `System.arraycopy`.
* `set`: an indexed store.
-/

namespace TonWallet.Encoding

/-- An element of a `ByteArray`. -/
abbrev Byte := BitVec 8

/-- A `ByteArray`. -/
abbrev Bytes := List Byte

/-- Kotlin's `Char`, a UTF-16 code unit. -/
abbrev Char16 := BitVec 16

/-- Kotlin's `String`. -/
abbrev Text := List Char16

instance (c : Char16) (s : Text) : Decidable (c ∈ s) := List.instDecidableMemOfLawfulBEq c s

/-- The code units of a code point. -/
def codeUnits (n : ℕ) : Text :=
  if n < 0x10000 then [BitVec.ofNat 16 n]
  else
    [BitVec.ofNat 16 (0xD800 + (n - 0x10000) / 0x400),
      BitVec.ofNat 16 (0xDC00 + (n - 0x10000) % 0x400)]

/-- A string literal of the source. -/
def text (s : String) : Text := s.toList.flatMap fun c => codeUnits c.toNat

/-- The exceptions the modelled functions can end with. -/
inductive Throwable where
  | numberFormat
  | illegalArgument
  | indexOutOfBounds
  | negativeArraySize
  | noSuchElement
  | serialization
  | generalSecurity
  | nullPointer
  | classCast
  | runtime (message : Text)
  | unsupportedOperation (message : Text)
deriving DecidableEq, Repr

/-! ## Exceptions -/

section
variable {α β : Type}

@[simp] theorem ok_bind (a : α) (f : α → Except Throwable β) : (Except.ok a >>= f) = f a := rfl

@[simp] theorem error_bind (e : Throwable) (f : α → Except Throwable β) :
    (Except.error e >>= f) = Except.error e := rfl

/-- A sequence of calls returns when both return. -/
theorem bind_eq_ok {x : Except Throwable α} {f : α → Except Throwable β} {b : β} :
    (x >>= f) = .ok b ↔ ∃ a, x = .ok a ∧ f a = .ok b := by
  cases x with
  | error e => simp
  | ok a => simp

end

/-! ## Array operations -/

/-- `bytes.sliceArray(lo until hi)`: empty for an empty range, otherwise a copy
of the range, which has to lie inside the array. -/
def sliceArray (bytes : Bytes) (lo hi : ℕ) : Except Throwable Bytes :=
  if hi ≤ lo then .ok []
  else if bytes.length < hi then .error .indexOutOfBounds
  else .ok ((bytes.drop lo).take (hi - lo))

/-- `System.arraycopy(src, srcPos, dest, destPos, length)`. -/
def arraycopy (src : Bytes) (srcPos : ℕ) (dest : Bytes) (destPos length : ℕ) :
    Except Throwable Bytes :=
  if src.length < srcPos + length ∨ dest.length < destPos + length then .error .indexOutOfBounds
  else .ok (dest.take destPos ++ (src.drop srcPos).take length ++ dest.drop (destPos + length))

/-- `dest[i] = b`. -/
def set (dest : Bytes) (i : ℕ) (b : Byte) : Except Throwable Bytes :=
  if i < dest.length then .ok (dest.set i b) else .error .indexOutOfBounds

theorem sliceArray_ok {bytes : Bytes} {lo hi : ℕ} (h : lo < hi) (hb : hi ≤ bytes.length) :
    sliceArray bytes lo hi = .ok ((bytes.drop lo).take (hi - lo)) := by
  rw [sliceArray, if_neg (by omega), if_neg (by omega)]

theorem sliceArray_to_end {bytes : Bytes} {lo : ℕ} :
    sliceArray bytes lo bytes.length = .ok (bytes.drop lo) := by
  rcases Nat.lt_or_ge lo bytes.length with h | h
  · rw [sliceArray_ok h (Nat.le_refl _), List.take_of_length_le (by simp)]
  · rw [sliceArray, if_pos h, List.drop_eq_nil_of_le h]

/-- Copying a whole array into a fresh one, right after an already written prefix. -/
theorem arraycopy_fresh {pre src dest : Bytes} {pos n : ℕ} (hpos : pos = pre.length)
    (hdest : dest = pre ++ List.replicate (src.length + n) 0) :
    arraycopy src 0 dest pos src.length = .ok (pre ++ src ++ List.replicate n 0) := by
  subst hpos hdest
  rw [arraycopy, if_neg (by simp)]
  simp

/-- Copying a block out of the middle of an array into a fresh one of its size. -/
theorem arraycopy_block {pre block rest src : Bytes} {pos n : ℕ} (hpos : pos = pre.length)
    (hn : n = block.length) (hsrc : src = pre ++ block ++ rest) :
    arraycopy src pos (List.replicate n 0) 0 n = .ok block := by
  subst hpos hn hsrc
  rw [arraycopy, if_neg (by simp)]
  simp

end TonWallet.Encoding
