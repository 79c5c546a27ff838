import Mathlib.Logic.Function.Iterate
import Mathlib.Data.List.Basic
import Mathlib.Tactic.Common

/-!
# Cyclic redundancy checks

A shift register of `w` bits takes one bit of a message at a time: the bit is
added at place `0`, and the register is shifted. A shift moves what is at place
`i + 1` to place `i`; what is at place `0` is divided by the polynomial. Whether
place `0` is the highest bit or the lowest one is up to the register.

* `run_eq_iterate`: at most `w` bits can be added all at once, before the shifts.
* `run_left_injective`, `run_right_injective`: what the register holds in the end
  tells what it held at the beginning, or at most `w` bits that came in.
* `eq_of_run_eq`: two messages that differ in at most `w` bits in a row leave
  different remainders.
* `run_checksum`: a message with its checksum behind it leaves a fixed remainder,
  so `eq_of_checked` says that a change of at most `w` bits in a row, in the message
  or in its checksum, is found.
-/

namespace Crc

/-- A shift register of `w` bits. -/
structure Register (w : ℕ) where
  /-- One step of the division. -/
  shift : BitVec w → BitVec w
  /-- The bit at place `i`. -/
  place : ℕ → ℕ
  shift_xor : ∀ a b, shift (a ^^^ b) = shift a ^^^ shift b
  shift_injective : Function.Injective shift
  place_lt : ∀ i < w, place i < w
  place_injective : ∀ i < w, ∀ j < w, place i = place j → i = j
  shift_place : ∀ i, i + 1 < w → shift (.twoPow w (place (i + 1))) = .twoPow w (place i)

namespace Register

variable {w : ℕ} (R : Register w)

/-- Bits, from place `i` on. -/
def spread : ℕ → List Bool → BitVec w
  | _, [] => 0#w
  | i, b :: bits => (if b then .twoPow w (R.place i) else 0#w) ^^^ spread (i + 1) bits

/-- One bit comes in. -/
def step (s : BitVec w) (b : Bool) : BitVec w :=
  R.shift (s ^^^ if b then .twoPow w (R.place 0) else 0#w)

/-- The bits of a message come in. -/
def run (s : BitVec w) (bits : List Bool) : BitVec w := bits.foldl R.step s

theorem spread_cons (i : ℕ) (b : Bool) (bits : List Bool) : R.spread i (b :: bits)
    = (if b then .twoPow w (R.place i) else 0#w) ^^^ R.spread (i + 1) bits := rfl

@[simp] theorem run_nil (s : BitVec w) : R.run s [] = s := rfl

@[simp] theorem run_cons (s : BitVec w) (b : Bool) (bits : List Bool) :
    R.run s (b :: bits) = R.run (R.step s b) bits := rfl

theorem run_append (s : BitVec w) (as bs : List Bool) :
    R.run s (as ++ bs) = R.run (R.run s as) bs := List.foldl_append

theorem shift_zero : R.shift 0#w = 0#w := by
  have h := R.shift_xor 0#w 0#w
  rwa [BitVec.xor_self, BitVec.xor_self] at h

theorem shifts_zero (n : ℕ) : R.shift^[n] 0#w = 0#w := Function.iterate_fixed R.shift_zero n

theorem shifts_xor (n : ℕ) (a b : BitVec w) :
    R.shift^[n] (a ^^^ b) = R.shift^[n] a ^^^ R.shift^[n] b := by
  have hlinear : Function.Semiconj₂ R.shift (· ^^^ ·) (· ^^^ ·) := R.shift_xor
  exact hlinear.iterate n a b

theorem shifts_injective (n : ℕ) : Function.Injective R.shift^[n] := R.shift_injective.iterate n

/-- A shift moves bits one place on. -/
theorem shift_spread (i : ℕ) {bits : List Bool} (h : i + bits.length < w) :
    R.shift (R.spread (i + 1) bits) = R.spread i bits := by
  induction bits generalizing i with
  | nil => exact R.shift_zero
  | cons b bits ih =>
    rw [List.length_cons] at h
    have hhead : R.shift (if b then .twoPow w (R.place (i + 1)) else 0#w)
        = if b then .twoPow w (R.place i) else 0#w := by
      cases b
      · exact R.shift_zero
      · exact R.shift_place i (by omega)
    rw [spread_cons, spread_cons, R.shift_xor, hhead, ih (i + 1) (by omega)]

/-- At most `w` bits can be added before the shifts. -/
theorem run_eq_iterate (s : BitVec w) {bits : List Bool} (h : bits.length ≤ w) :
    R.run s bits = R.shift^[bits.length] (s ^^^ R.spread 0 bits) := by
  induction bits generalizing s with
  | nil => simp [spread]
  | cons b bits ih =>
    rw [List.length_cons] at h
    rw [run_cons, ih _ (by omega), List.length_cons, Function.iterate_succ_apply, spread_cons,
      ← BitVec.xor_assoc, R.shift_xor, R.shift_spread 0 (by omega)]
    rfl

theorem step_left_injective (b : Bool) : Function.Injective fun s => R.step s b := by
  intro s t h
  have h := R.shift_injective h
  exact (BitVec.xor_left_inj _).mp h

theorem run_left_injective (bits : List Bool) : Function.Injective fun s => R.run s bits := by
  induction bits with
  | nil => exact fun _ _ h => h
  | cons b bits ih => exact fun s t h => R.step_left_injective b (ih h)

/-- The bit at a place is the one that was put there. -/
theorem getLsbD_spread (bits : List Bool) {i j : ℕ} (h : i + bits.length ≤ w) (hj : j < w) :
    (R.spread i bits).getLsbD (R.place j) = (decide (i ≤ j) && bits.getD (j - i) false) := by
  induction bits generalizing i with
  | nil => simp [spread]
  | cons b bits ih =>
    rw [List.length_cons] at h
    have hplace : (BitVec.twoPow w (R.place i)).getLsbD (R.place j) = decide (i = j) := by
      rw [BitVec.getLsbD_twoPow]
      have := R.place_lt j hj
      by_cases hij : i = j
      · simp [hij, this]
      · have hne : R.place i ≠ R.place j := fun he => hij (R.place_injective i (by omega) j hj he)
        simp [hij, hne]
    rw [spread_cons, BitVec.getLsbD_xor, ih (i := i + 1) (by omega)]
    obtain hlt | rfl | hgt := Nat.lt_trichotomy i j
    · have hd : decide (i = j) = false := decide_eq_false (by omega)
      have hsub : j - i = j - (i + 1) + 1 := by omega
      cases b <;> simp [hplace, hd, hsub, show i ≤ j by omega, show i + 1 ≤ j by omega]
    · have hlt : ¬ i + 1 ≤ i := by omega
      cases b <;> simp [hplace, hlt]
    · have hd : decide (i = j) = false := decide_eq_false (by omega)
      cases b <;> simp [hplace, hd, show ¬ i ≤ j by omega, show ¬ i + 1 ≤ j by omega]

theorem spread_injective {as bs : List Bool} (ha : as.length ≤ w) (hlen : as.length = bs.length)
    (h : R.spread 0 as = R.spread 0 bs) : as = bs := by
  refine List.ext_getElem hlen fun j hj hj' => ?_
  have hbit := congrArg (fun v => v.getLsbD (R.place j)) h
  simp only [R.getLsbD_spread as (i := 0) (by omega) (show j < w by omega),
    R.getLsbD_spread bs (i := 0) (by omega) (show j < w by omega)] at hbit
  simpa [hj, hj'] using hbit

theorem run_right_injective (s : BitVec w) {as bs : List Bool} (ha : as.length ≤ w)
    (hlen : as.length = bs.length) (h : R.run s as = R.run s bs) : as = bs := by
  rw [R.run_eq_iterate s ha, R.run_eq_iterate s (hlen ▸ ha), hlen] at h
  have h := R.shifts_injective _ h
  exact R.spread_injective ha hlen ((BitVec.xor_right_inj _).mp h)

/-- **A change of at most `w` bits in a row changes the remainder.** -/
theorem eq_of_run_eq (s : BitVec w) {pre as bs post : List Bool} (ha : as.length ≤ w)
    (hlen : as.length = bs.length)
    (h : R.run s (pre ++ as ++ post) = R.run s (pre ++ bs ++ post)) : as = bs := by
  rw [R.run_append, R.run_append, R.run_append s (pre ++ bs), R.run_append s pre bs] at h
  exact R.run_right_injective _ ha hlen (R.run_left_injective post h)

/-- A message with its checksum behind it, where `c` is added to the remainder. -/
theorem run_checksum (s c : BitVec w) (message : List Bool) {sum : List Bool}
    (hlen : sum.length = w) :
    R.run s (message ++ sum) = R.shift^[w] c ↔ R.spread 0 sum = R.run s message ^^^ c := by
  rw [R.run_append, R.run_eq_iterate _ (Nat.le_of_eq hlen), hlen, (R.shifts_injective w).eq_iff,
    BitVec.xor_comm, ← BitVec.xor_left_inj (R.run s message), BitVec.xor_assoc, BitVec.xor_self,
    BitVec.xor_zero, BitVec.xor_comm]

/-- Two checked words that differ in at most `w` bits in a row are equal. -/
theorem eq_of_checked (s c : BitVec w) {pre as bs post : List Bool} (ha : as.length ≤ w)
    (hlen : as.length = bs.length) (h₁ : R.run s (pre ++ as ++ post) = R.shift^[w] c)
    (h₂ : R.run s (pre ++ bs ++ post) = R.shift^[w] c) : as = bs :=
  R.eq_of_run_eq s ha hlen (h₁.trans h₂.symm)

end Register

end Crc
