import Mathlib.Data.List.Basic
import Mathlib.Tactic.Common

/-!
# Shared flows

A flow that repeats its last value for a collector that starts, keeps some
values for one that is slow, and refuses a value while it is full. It has at most
one collector.

* `waiting`: what a collector has still to get, or would get if it started.
* `waiting_tryEmit`: a value that is not refused waits behind the others.
* `waiting_subscribe`, `waiting_cancel`: all that is left by a collector that
  starts or stops is the last value.
* `mem_waiting_update`, `mem_waiting_of_update`: what waits in a family of flows
  when one of them gets or loses a value.
-/

/-- A flow with its last value, and the values its collector has yet to collect. -/
structure SharedFlow (α : Type*) where
  replay : Option α := none
  /-- `none` without a collector. -/
  pending : Option (List α) := none
deriving DecidableEq, Repr

namespace SharedFlow

variable {α : Type*}

/-- There is no collector, or it leaves room for another value. -/
def Accepts (capacity : ℕ) (f : SharedFlow α) : Prop := ∀ l ∈ f.pending, l.length < capacity

instance (capacity : ℕ) (f : SharedFlow α) : Decidable (f.Accepts capacity) := by
  unfold Accepts
  infer_instance

/-- A value is emitted, unless the flow is full. -/
def tryEmit (capacity : ℕ) (f : SharedFlow α) (a : α) : SharedFlow α :=
  if f.Accepts capacity then { replay := some a, pending := f.pending.map (· ++ [a]) } else f

/-- A collector starts. -/
def subscribe (f : SharedFlow α) : SharedFlow α := { f with pending := some f.replay.toList }

/-- The collector is cancelled. -/
def cancel (f : SharedFlow α) : SharedFlow α := { f with pending := none }

/-- The collector takes a value. -/
def collect (f : SharedFlow α) : Option (α × SharedFlow α) :=
  match f.pending with
  | some (a :: l) => some (a, { f with pending := some l })
  | _ => none

/-- What happens to a collector. -/
inductive CollectorAction where
  | subscribe
  | collect
  | cancel
deriving DecidableEq, Repr

/-- The flow after that; there is no second collector. -/
def act (f : SharedFlow α) : CollectorAction → Option (SharedFlow α)
  | .subscribe => if f.pending.isNone then some f.subscribe else none
  | .collect => f.collect.map Prod.snd
  | .cancel => some f.cancel

/-- What a collector has still to get, or would get if it started. -/
def waiting (f : SharedFlow α) : List α := f.pending.getD f.replay.toList

variable {capacity : ℕ} {f g : SharedFlow α} {a : α}

@[simp] theorem waiting_subscribe : f.subscribe.waiting = f.replay.toList := rfl

@[simp] theorem waiting_cancel : f.cancel.waiting = f.replay.toList := rfl

theorem waiting_of_pending {l : List α} (h : f.pending = some l) : f.waiting = l := by
  rw [waiting, h, Option.getD_some]

theorem waiting_of_no_collector (h : f.pending = none) : f.waiting = f.replay.toList := by
  rw [waiting, h, Option.getD_none]

theorem replay_tryEmit (h : f.Accepts capacity) : (f.tryEmit capacity a).replay = some a := by
  rw [tryEmit, if_pos h]

/-- Without a collector the new value takes the place of the last one. -/
theorem waiting_tryEmit_eq (h : f.Accepts capacity) :
    (f.tryEmit capacity a).waiting = f.pending.getD [] ++ [a] := by
  rw [tryEmit, if_pos h]
  cases hp : f.pending with
  | none => rfl
  | some l => rfl

/-- A value waits behind the others, if none is replaced by it. -/
theorem waiting_tryEmit (h : f.Accepts capacity) (hr : f.pending = none → f.replay = none) :
    (f.tryEmit capacity a).waiting = f.waiting ++ [a] := by
  rw [waiting_tryEmit_eq h, waiting]
  cases hp : f.pending with
  | none => rw [hr hp]; rfl
  | some l => rfl

theorem subscribed_tryEmit : (f.tryEmit capacity a).pending.isSome = f.pending.isSome := by
  rw [tryEmit]
  split
  · exact Option.isSome_map
  · rfl

/-- The collector gets the first of the values that wait. -/
theorem collect_eq_some (h : f.collect = some (a, g)) :
    f.pending.isSome ∧ g.pending.isSome ∧ f.waiting = a :: g.waiting ∧ g.replay = f.replay := by
  unfold collect at h
  split at h
  · rename_i b l hp
    obtain ⟨rfl, rfl⟩ := Prod.mk.inj (Option.some.inj h)
    rw [hp, waiting_of_pending hp]
    exact ⟨rfl, rfl, rfl, rfl⟩
  · cases h

theorem collect_isSome (h : a ∈ f.waiting) (hp : f.pending.isSome) : f.collect.isSome := by
  obtain ⟨l, hl⟩ := Option.isSome_iff_exists.mp hp
  rw [waiting_of_pending hl] at h
  rw [collect, hl]
  cases l with
  | nil => exact absurd h List.not_mem_nil
  | cons b l => rfl

/-! ## Families -/

section Family

variable {ι : Type*} [DecidableEq ι] {flows : ι → SharedFlow α} {o : ι}

/-- One flow of a family gets a value more. -/
theorem mem_waiting_update (h : ∀ b, b ∈ g.waiting ↔ b ∈ (flows o).waiting ∨ b = a) (i : ι)
    (b : α) :
    b ∈ (Function.update flows o g i).waiting ↔ b ∈ (flows i).waiting ∨ i = o ∧ b = a := by
  by_cases hi : i = o
  · subst hi
    rw [Function.update_self, h]
    simp
  · rw [Function.update_of_ne hi]
    simp [hi]

/-- One flow of a family loses a value. -/
theorem mem_waiting_of_update (h : ∀ b, b ∈ (flows o).waiting ↔ b ∈ g.waiting ∨ b = a) (i : ι)
    (b : α) :
    b ∈ (flows i).waiting ↔ b ∈ (Function.update flows o g i).waiting ∨ i = o ∧ b = a := by
  have hself : ∀ b, b ∈ (flows o).waiting ↔
      b ∈ (Function.update flows o g o).waiting ∨ b = a := by
    rwa [Function.update_self]
  have hback := mem_waiting_update hself i b
  rwa [Function.update_idem, Function.update_eq_self] at hback

theorem subscribed_update (h : g.pending.isSome = (flows o).pending.isSome) (i : ι) :
    (Function.update flows o g i).pending.isSome = (flows i).pending.isSome := by
  by_cases hi : i = o
  · rw [hi, Function.update_self, h]
  · rw [Function.update_of_ne hi]

end Family

end SharedFlow
