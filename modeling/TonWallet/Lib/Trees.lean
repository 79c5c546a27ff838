import Mathlib.Data.List.Basic
import Mathlib.Tactic.Common

/-!
# Labelled trees

Trees with a label and any number of children at each node.

* `Rose.induct`: induction over a tree, with the statement for every child.
* `Within`: a tree stands in another one. No tree stands in a child of its own
  (`not_within_child`).
* `Ordered`: a list has every parent in front of its children.
-/

namespace Trees

inductive Rose (α : Type) where
  | node (label : α) (children : List (Rose α))

namespace Rose

variable {α : Type}

def label : Rose α → α
  | node a _ => a

def children : Rose α → List (Rose α)
  | node _ ts => ts

@[simp] theorem label_node (a : α) (ts : List (Rose α)) : (node a ts).label = a := rfl
@[simp] theorem children_node (a : α) (ts : List (Rose α)) : (node a ts).children = ts := rfl

theorem sizeOf_lt {t u : Rose α} (h : t ∈ u.children) : sizeOf t < sizeOf u := by
  cases u with
  | node a ts =>
    have := List.sizeOf_lt_of_mem h
    simp only [children_node] at this
    rw [Rose.node.sizeOf_spec]
    omega

/-- Induction over a tree. -/
theorem induct {motive : Rose α → Prop}
    (node : ∀ a ts, (∀ t ∈ ts, motive t) → motive (node a ts)) (t : Rose α) : motive t := by
  obtain ⟨a, ts⟩ := t
  exact node a ts fun t ht => induct node t
termination_by sizeOf t
decreasing_by
  exact sizeOf_lt (u := .node a ts) ht

end Rose

variable {α : Type}

/-- `t` stands in `u`. -/
inductive Within (t : Rose α) : Rose α → Prop
  | refl : Within t t
  | child {c u : Rose α} (h : Within t c) (hc : c ∈ u.children) : Within t u

namespace Within

theorem of_child {c u : Rose α} (h : c ∈ u.children) : Within c u := .child .refl h

theorem trans {t u v : Rose α} (h : Within t u) (h' : Within u v) : Within t v := by
  induction h' with
  | refl => exact h
  | child _ hc ih => exact .child ih hc

/-- A tree is the whole tree, or stands in a child. -/
theorem cases_iff {t u : Rose α} : Within t u ↔ t = u ∨ ∃ c ∈ u.children, Within t c := by
  constructor
  · rintro (_ | ⟨h, hc⟩)
    · exact .inl rfl
    · exact .inr ⟨_, hc, h⟩
  · rintro (rfl | ⟨c, hc, h⟩)
    · exact .refl
    · exact .child h hc

theorem sizeOf_le {t u : Rose α} (h : Within t u) : sizeOf t ≤ sizeOf u := by
  induction h with
  | refl => exact Nat.le_refl _
  | child _ hc ih => exact Nat.le_trans ih (Nat.le_of_lt (Rose.sizeOf_lt hc))

end Within

theorem not_within_child {t c : Rose α} (h : c ∈ t.children) : ¬ Within t c := fun hw =>
  absurd (Rose.sizeOf_lt h) (Nat.not_lt.mpr hw.sizeOf_le)

/-- A node of a tree is the root, or has a parent in the tree. -/
theorem Within.exists_parent {t u : Rose α} (h : Within t u) :
    t = u ∨ ∃ p, Within p u ∧ t ∈ p.children := by
  induction h with
  | refl => exact .inl rfl
  | @child c u _ hc ih =>
    refine .inr ?_
    rcases ih with rfl | ⟨p, hp, ht⟩
    · exact ⟨u, .refl, hc⟩
    · exact ⟨p, .child hp hc, ht⟩

/-- Every parent of the list stands in front of its children. -/
def Ordered (l : List (Rose α)) : Prop := ∀ t ∈ l, ∀ c ∈ t.children, [t, c].Sublist l

/-- What holds of every label and its number of children. -/
inductive All (P : α → ℕ → Prop) : Rose α → Prop
  | node {a : α} {ts : List (Rose α)} (h : P a ts.length) (hs : ∀ t ∈ ts, All P t) :
      All P (.node a ts)

end Trees
