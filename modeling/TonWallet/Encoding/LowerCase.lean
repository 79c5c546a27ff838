import TonWallet.Encoding.Utf8
import TonWallet.Lib.Segments
import Mathlib.Data.List.Forall2

/-!
# Lower case

What the lower case of a character is depends on the tables of the platform, and
for some characters on those around them. All that matters for names is what no
table changes: a letter becomes at least one character, and neither control
characters, nor the space or the point are letters or become of letters.

* `exists_toLowerCase`: the reserved characters of a text are those of its lower
  case.
* `gaps_toLowerCase`: so are the empty segments between its points.
-/

namespace TonWallet.Encoding

open Segments

/-- `'.'`. -/
def dot : Char16 := 0x2E

/-- The point, the space and the control characters. -/
def Reserved (n : ℕ) : Prop := n ≤ 0x20 ∨ n = 0x2E ∨ 0x7F ≤ n ∧ n ≤ 0x9F

instance (n : ℕ) : Decidable (Reserved n) := inferInstanceAs (Decidable (_ ∨ _))

/-- What may be written in lower case for a code point. -/
structure Lowered (n : ℕ) (block : List ℕ) : Prop where
  ne_nil : block ≠ []
  scalar : Scalar n → ∀ m ∈ block, Scalar m
  fixed : Reserved n → block = [n]
  unreserved : ¬ Reserved n → ∀ m ∈ block, ¬ Reserved m

/-- The tables of the platform: what is written for a code point, between those before it, the
nearest first, and those after it. -/
structure CaseMapping where
  lower : List ℕ → ℕ → List ℕ → List ℕ
  lowered : ∀ before n after, Lowered n (lower before n after)

namespace CaseMapping

variable (M : CaseMapping)

/-- What is written for each of the code points after `before`. -/
def blocks : List ℕ → List ℕ → List (List ℕ)
  | _, [] => []
  | before, n :: after => M.lower before n after :: blocks (n :: before) after

/-- `String.toLowerCase()`. -/
def toLowerCase (s : Text) : Text := (M.blocks [] (codePoints s)).flatten.flatMap codeUnits

theorem forall₂_blocks (before ns : List ℕ) : List.Forall₂ Lowered ns (M.blocks before ns) := by
  induction ns generalizing before with
  | nil => exact .nil
  | cons n ns ih => exact .cons (M.lowered before n ns) (ih (n :: before))

end CaseMapping

/-- The lower case of ASCII. -/
def asciiLower (n : ℕ) : ℕ := if 0x41 ≤ n ∧ n ≤ 0x5A then n + 0x20 else n

theorem lowered_asciiLower (n : ℕ) : Lowered n [asciiLower n] := by
  unfold asciiLower
  constructor
  · exact List.cons_ne_nil _ _
  · intro hn m hm
    rw [List.mem_singleton.mp hm]
    unfold Scalar at *
    split <;> omega
  · intro hn
    rw [if_neg (by unfold Reserved at hn; omega)]
  · intro hn m hm
    rw [List.mem_singleton.mp hm]
    unfold Reserved at *
    split <;> omega

/-- The tables for ASCII alone. -/
def asciiMapping : CaseMapping where
  lower _ n _ := [asciiLower n]
  lowered _ n _ := lowered_asciiLower n

/-! ## Code points and code units -/

/-- A code unit is its code point, or a surrogate. -/
theorem mem_codeUnits {n : ℕ} (hn : Scalar n) {c : Char16} (hc : c ∈ codeUnits n) :
    c.toNat = n ∨ 0xD800 ≤ c.toNat := by
  rw [codeUnits] at hc
  split at hc
  · rename_i hlt
    rw [List.mem_singleton.mp hc, BitVec.toNat_ofNat]
    exact .inl (Nat.mod_eq_of_lt hlt)
  · rw [Scalar] at hn
    simp only [List.mem_cons, List.not_mem_nil, or_false] at hc
    obtain rfl | rfl := hc <;> rw [BitVec.toNat_ofNat] <;> omega

theorem ne_of_reserved {n m : ℕ} {p : ℕ → Prop} (hp : ∀ k, p k → k < 0xD800) (hn : p n)
    (h : n = m ∨ 0xD800 ≤ n) : p m := by
  obtain rfl | h := h
  · exact hn
  · exact absurd (hp n hn) (by omega)

/-- A character below the surrogates is a code point. -/
theorem exists_codeUnits {p : ℕ → Prop} (hp : ∀ n, p n → n < 0xD800) {ns : List ℕ}
    (h : ∀ n ∈ ns, Scalar n) :
    (∃ c ∈ ns.flatMap codeUnits, p c.toNat) ↔ ∃ n ∈ ns, p n := by
  constructor
  · rintro ⟨c, hc, hpc⟩
    obtain ⟨n, hn, hcn⟩ := List.mem_flatMap.mp hc
    exact ⟨n, hn, ne_of_reserved hp hpc (mem_codeUnits (h n hn) hcn)⟩
  · rintro ⟨n, hn, hpn⟩
    have hlt := hp n hpn
    refine ⟨BitVec.ofNat 16 n, List.mem_flatMap.mpr ⟨n, hn, ?_⟩, ?_⟩
    · rw [codeUnits, if_pos (by omega)]
      exact List.mem_singleton_self _
    · rwa [BitVec.toNat_ofNat, Nat.mod_eq_of_lt (by omega)]

/-- The points of a text are points among its code points. -/
theorem gaps_codeUnits {ns : List ℕ} (h : ∀ n ∈ ns, Scalar n) :
    gaps dot (ns.flatMap codeUnits) = gaps 0x2E ns := by
  rw [List.flatMap_def]
  refine gaps_flatten (List.forall₂_map_right_iff.mpr (List.forall₂_same.mpr fun n hn => ?_))
  refine ⟨fun hdot => by subst hdot; rfl, fun hdot => ⟨?_, fun hmem => hdot ?_⟩⟩
  · rw [codeUnits]
    split <;> exact List.cons_ne_nil _ _
  · have hunit := mem_codeUnits (h n hn) hmem
    have : dot.toNat = 0x2E := rfl
    omega

/-! ## The lower case of a text -/

variable (M : CaseMapping) {s : Text}

theorem scalar_blocks {ns : List ℕ} {bs : List (List ℕ)} (h : List.Forall₂ Lowered ns bs)
    (hns : ∀ n ∈ ns, Scalar n) : ∀ m ∈ bs.flatten, Scalar m := by
  induction h with
  | nil => exact List.forall_mem_nil _
  | @cons n b ns bs hb _ ih =>
    obtain ⟨hn, hns⟩ := List.forall_mem_cons.mp hns
    rw [List.flatten_cons, List.forall_mem_append]
    exact ⟨hb.scalar hn, ih hns⟩

theorem exists_blocks {p : ℕ → Prop} (hp : ∀ n, p n → Reserved n) {ns : List ℕ}
    {bs : List (List ℕ)} (h : List.Forall₂ Lowered ns bs) :
    (∃ m ∈ bs.flatten, p m) ↔ ∃ n ∈ ns, p n := by
  induction h with
  | nil => rfl
  | @cons n b ns bs hb _ ih =>
    rw [List.flatten_cons, List.exists_mem_cons_iff, ← ih]
    simp only [List.mem_append, or_and_right, exists_or]
    refine or_congr_left ?_
    by_cases hr : Reserved n
    · rw [hb.fixed hr]
      simp only [List.mem_singleton, exists_eq_left]
    · exact iff_of_false (fun ⟨m, hm, hpm⟩ => hb.unreserved hr m hm (hp m hpm))
        fun h => hr (hp n h)

theorem paired_toLowerCase (hs : Paired s) : Paired (M.toLowerCase s) :=
  paired_flatMap (scalar_blocks (M.forall₂_blocks _ _) hs)

/-- The lower case has the reserved characters of the text and no others. -/
theorem exists_toLowerCase {p : ℕ → Prop} (hp : ∀ n, p n → Reserved n) (hs : Paired s) :
    (∃ c ∈ M.toLowerCase s, p c.toNat) ↔ ∃ c ∈ s, p c.toNat := by
  have hlt : ∀ n, p n → n < 0xD800 := by
    intro n hn
    have := hp n hn
    rw [Reserved] at this
    omega
  have hblocks := M.forall₂_blocks [] (codePoints s)
  have htext := exists_codeUnits hlt hs
  rw [flatMap_codePoints] at htext
  rw [CaseMapping.toLowerCase, exists_codeUnits hlt (scalar_blocks hblocks hs),
    exists_blocks hp hblocks, htext]

/-- The lower case has the empty segments of the text. -/
theorem gaps_toLowerCase (hs : Paired s) : gaps dot (M.toLowerCase s) = gaps dot s := by
  have hblocks := M.forall₂_blocks [] (codePoints s)
  have htext := gaps_codeUnits hs
  rw [flatMap_codePoints] at htext
  rw [CaseMapping.toLowerCase, gaps_codeUnits (scalar_blocks hblocks hs), htext]
  refine gaps_flatten (hblocks.imp fun n b hb => ⟨fun hn => ?_, fun hn => ⟨hb.ne_nil, ?_⟩⟩)
  · rw [hb.fixed (.inr (.inl hn)), hn]
  · intro hdot
    by_cases hr : Reserved n
    · rw [hb.fixed hr, List.mem_singleton] at hdot
      exact hn hdot.symm
    · exact hb.unreserved hr _ hdot (.inr (.inl rfl))

theorem toLowerCase_dot : M.toLowerCase [dot] = [dot] := by
  have hblock : M.lower [] 0x2E [] = [0x2E] := (M.lowered _ _ _).fixed (.inr (.inl rfl))
  show (M.lower [] 0x2E [] ++ []).flatMap codeUnits = _
  rw [hblock]
  rfl

end TonWallet.Encoding
