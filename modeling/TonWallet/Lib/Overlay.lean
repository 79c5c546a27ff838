import Mathlib.Data.List.Pairwise
import Mathlib.Data.List.Perm.Basic

/-!
# Partial updates

A partial record gives some of its fields. Laying one over another keeps the
fields it does not give.

* `foldl_over_perm`: updates of which no two give the same field can be taken in
  any order.
* `foldl_over_given`, `foldl_over_kept`: what they leave in each field.
-/

namespace Overlay

variable {ι : Type*} {β : ι → Type*}

/-- The fields that `u` gives take the place of those of `r`. -/
def overlay (r u : ∀ i, Option (β i)) : ∀ i, Option (β i) := fun i => u i <|> r i

/-- No field is given by both. -/
def Apart (u v : ∀ i, Option (β i)) : Prop := ∀ i, u i = none ∨ v i = none

variable {r u v : ∀ i, Option (β i)} {us vs : List (∀ i, Option (β i))} {i : ι}

theorem over_given {b : β i} (h : u i = some b) : overlay r u i = some b := by
  rw [overlay, h]
  rfl

theorem over_kept (h : u i = none) : overlay r u i = r i := by
  rw [overlay, h]
  rfl

theorem Apart.symm (h : Apart u v) : Apart v u := fun i => (h i).symm

theorem over_comm (h : Apart u v) : overlay (overlay r u) v = overlay (overlay r v) u := by
  funext i
  rcases h i with hu | hv
  · rw [overlay, over_kept hu, over_kept (r := overlay r v) hu, overlay]
  · rw [over_kept hv, overlay, overlay, over_kept hv]

/-- Updates that are apart are taken in any order. -/
theorem foldl_over_perm (h : us.Pairwise Apart) (hp : vs.Perm us) (r : ∀ i, Option (β i)) :
    vs.foldl overlay r = us.foldl overlay r := by
  have : Std.Symm fun u v : ∀ i, Option (β i) =>
      ∀ r, overlay (overlay r u) v = overlay (overlay r v) u :=
    ⟨fun _ _ h r => (h r).symm⟩
  have hcomm : us.Pairwise fun u v => ∀ r, overlay (overlay r u) v = overlay (overlay r v) u :=
    h.imp fun h r => over_comm h
  have hall := hcomm.forall_of_forall fun _ _ _ => rfl
  exact hp.foldl_eq' (fun u hu v hv r => hall (hp.subset hu) (hp.subset hv) r) r

theorem foldl_over_kept (h : ∀ u ∈ us, u i = none) (r : ∀ i, Option (β i)) :
    us.foldl overlay r i = r i := by
  induction us generalizing r with
  | nil => rfl
  | cons u us ih =>
    obtain ⟨hu, hus⟩ := List.forall_mem_cons.mp h
    rw [List.foldl_cons, ih hus, over_kept hu]

theorem foldl_over_given (h : us.Pairwise Apart) (hu : u ∈ us) {b : β i} (hi : u i = some b)
    (r : ∀ i, Option (β i)) : us.foldl overlay r i = some b := by
  induction us generalizing r with
  | nil => cases hu
  | cons w us ih =>
    obtain ⟨hw, hus⟩ := List.pairwise_cons.mp h
    rw [List.foldl_cons]
    rcases List.mem_cons.mp hu with rfl | hu
    · -- The updates after it leave the field alone.
      have hrest : ∀ v ∈ us, v i = none := by
        intro v hv
        rcases hw v hv i with hn | hn
        · rw [hi] at hn
          cases hn
        · exact hn
      rw [foldl_over_kept hrest, over_given hi]
    · exact ih hus hu _

end Overlay
