import TonWallet.Lib.Trees

/-!
# Trees known by their digests

The digest of a node is that of a preimage in which its label stands and, for each
child, the digest of the child and a note about it, such as its depth.

* `eq_or_collision`: trees with the same digest are equal, or two nodes that stand in
  them are a collision of the digest.
-/

namespace Merkle

open Trees

/-- How the preimage of a node is written. -/
structure Scheme (α ν γ β : Type) where
  note : α → List ν → ν
  encode : α → List (ν × γ) → β
  /-- The labels, with their number of children, that the preimage tells apart. -/
  Proper : α → ℕ → Prop
  encode_inj : ∀ {a b : α} {xs ys : List (ν × γ)}, Proper a xs.length → Proper b ys.length →
    encode a xs = encode b ys → a = b ∧ xs.map Prod.snd = ys.map Prod.snd

variable {α ν γ β : Type} (S : Scheme α ν γ β) (H : β → γ)

namespace Scheme

mutual

/-- The note and the digest of a tree. -/
def summary : Rose α → ν × γ
  | .node a ts => (S.note a ((summaries ts).map Prod.fst), H (S.encode a (summaries ts)))

def summaries : List (Rose α) → List (ν × γ)
  | [] => []
  | t :: ts => summary t :: summaries ts

end

theorem summaries_eq (ts : List (Rose α)) : S.summaries H ts = ts.map (S.summary H) := by
  induction ts with
  | nil => rw [summaries, List.map_nil]
  | cons t ts ih => rw [summaries, ih, List.map_cons]

def digest (t : Rose α) : γ := (S.summary H t).2

def preimage (t : Rose α) : β := S.encode t.label (t.children.map (S.summary H))

theorem digest_eq (t : Rose α) : S.digest H t = H (S.preimage H t) := by
  cases t with
  | node a ts =>
    rw [digest, summary, summaries_eq]
    rfl

/-- Two nodes with different preimages and one digest. -/
def Collision (t u : Rose α) : Prop := ∃ t' u', Within t' t ∧ Within u' u ∧
  S.preimage H t' ≠ S.preimage H u' ∧ H (S.preimage H t') = H (S.preimage H u')

variable {S H}

theorem Collision.lift {t u c d : Rose α} (h : S.Collision H c d) (hc : c ∈ t.children)
    (hd : d ∈ u.children) : S.Collision H t u := by
  obtain ⟨t', u', ht, hu, hne, heq⟩ := h
  exact ⟨t', u', .child ht hc, .child hu hd, hne, heq⟩

/-- **The digest of a tree names it**, unless a collision stands in it. -/
theorem eq_or_collision {t u : Rose α} (ht : All S.Proper t) (hu : All S.Proper u)
    (h : S.digest H t = S.digest H u) : t = u ∨ S.Collision H t u := by
  induction t using Rose.induct generalizing u with
  | node a ts ih =>
    obtain ⟨b, us⟩ := u
    rw [digest_eq, digest_eq] at h
    by_cases hpre : S.preimage H (.node a ts) = S.preimage H (.node b us)
    · obtain ⟨hat, hts⟩ := ht
      obtain ⟨hbu, hus⟩ := hu
      obtain ⟨rfl, hdigests⟩ := S.encode_inj (by rwa [List.length_map])
        (by rwa [List.length_map]) hpre
      rw [Rose.children_node, Rose.children_node, List.map_map, List.map_map] at hdigests
      by_cases hcol : S.Collision H (.node a ts) (.node a us)
      · exact .inr hcol
      · have hlen : ts.length = us.length := by simpa using congrArg List.length hdigests
        refine .inl (congrArg (Rose.node a) (List.ext_getElem hlen fun i hi hi' => ?_))
        have hdigest : S.digest H ts[i] = S.digest H us[i] := by
          have hat := congrArg (fun l => l[i]?) hdigests
          simp only [List.getElem?_map, List.getElem?_eq_getElem hi, List.getElem?_eq_getElem hi',
            Option.map_some, Option.some.injEq] at hat
          exact hat
        refine (ih _ (List.getElem_mem hi) (hts _ (List.getElem_mem hi))
          (hus _ (List.getElem_mem hi')) hdigest).resolve_right fun hc => hcol ?_
        exact hc.lift (List.getElem_mem hi) (List.getElem_mem hi')
    · exact .inr ⟨_, _, .refl, .refl, hpre, h⟩

end Scheme

end Merkle
