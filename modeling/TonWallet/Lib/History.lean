import Mathlib.Data.List.Basic
import Mathlib.Tactic.Common

/-!
# Histories

A history is the list of the events of a run, the newest first. Safety
properties of histories say that every event is justified by what happened
before it; precedence is a sublist.

* `Justified J`: each event `e` of the history satisfies `J e before`.
* `Precedes log d e`: `d` happened, and `e` some time after it.
-/

namespace History

variable {ε : Type*}

/-- Every event satisfies `J` of itself and of the history before it. -/
def Justified (J : ε → List ε → Prop) : List ε → Prop
  | [] => True
  | e :: log => J e log ∧ Justified J log

/-- In the history `log` the event `e` comes some time after `d`. -/
def Precedes (log : List ε) (d e : ε) : Prop := [e, d].Sublist log

variable {J : ε → List ε → Prop} {log : List ε} {d e : ε}

@[simp] theorem justified_nil : Justified J [] := trivial

@[simp] theorem justified_cons : Justified J (e :: log) ↔ J e log ∧ Justified J log := Iff.rfl

/-- `Justified`, with the event and its past spelled out. -/
theorem justified_iff :
    Justified J log ↔ ∀ later e before, log = later ++ e :: before → J e before := by
  induction log with
  | nil => simp
  | cons x log ih =>
    rw [justified_cons, ih]
    constructor
    · rintro ⟨hx, h⟩ later e before he
      cases later with
      | nil => obtain ⟨rfl, rfl⟩ := List.cons.inj he; exact hx
      | cons y later =>
        obtain ⟨rfl, rfl⟩ := List.cons.inj he
        exact h later e before rfl
    · intro h
      exact ⟨h [] x log rfl, fun later e before he => h (x :: later) e before (by rw [he]; rfl)⟩

theorem Precedes.cons (x : ε) (h : Precedes log d e) : Precedes (x :: log) d e :=
  List.Sublist.cons x h

/-- An event that follows a recorded one. -/
theorem precedes_of_mem (h : d ∈ log) : Precedes (e :: log) d e :=
  (List.singleton_sublist.mpr h).cons_cons e

end History
