import Mathlib.Data.List.Basic

/-!
# Sequences of calls that can fail

What a sequence of calls returns, for results that are a value or a failure.
-/

namespace Calls

variable {ε α β : Type}

@[simp] theorem ok_bind (a : α) (f : α → Except ε β) : (Except.ok a >>= f) = f a := rfl

@[simp] theorem error_bind (e : ε) (f : α → Except ε β) :
    (Except.error e >>= f) = Except.error e := rfl

@[simp] theorem pure_eq_ok (a : α) : (pure a : Except ε α) = .ok a := rfl

/-- A sequence of calls returns when both return. -/
theorem bind_eq_ok {x : Except ε α} {f : α → Except ε β} {b : β} :
    (x >>= f) = .ok b ↔ ∃ a, x = .ok a ∧ f a = .ok b := by
  cases x with
  | error e => simp
  | ok a => simp

/-- `if (cond) throw e`. -/
def throwIf (cond : Prop) [Decidable cond] (e : ε) : Except ε Unit :=
  if cond then .error e else .ok ()

theorem throwIf_eq_ok {cond : Prop} [Decidable cond] {e : ε} {u : Unit} :
    throwIf cond e = .ok u ↔ ¬ cond := by
  by_cases h : cond
  · simp [throwIf, h]
  · simp [throwIf, h]

theorem throwIf_bind {cond : Prop} [Decidable cond] (h : ¬ cond) (e : ε)
    (f : Unit → Except ε β) : (throwIf cond e >>= f) = f () := by
  rw [throwIf, if_neg h, ok_bind]

theorem mapM_ok {f : α → Except ε β} {g : α → β} {l : List α} (h : ∀ a ∈ l, f a = .ok (g a)) :
    l.mapM f = .ok (l.map g) := by
  induction l with
  | nil => rfl
  | cons a l ih =>
    obtain ⟨ha, h⟩ := List.forall_mem_cons.mp h
    rw [List.mapM_cons, ha, ih h]
    rfl

end Calls
