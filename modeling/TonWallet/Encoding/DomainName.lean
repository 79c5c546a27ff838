import TonWallet.Encoding.LowerCase

/-!
# Domain names as bytes

The labels of a name, in lower case, are written in reverse order, each followed
by a zero character. A name of less than 126 characters has one more zero before
it; without control characters and empty labels it is clear whether it does.

* `decodeLabels_domainToBytes`: the labels are read from the bytes.
* `domainToBytes_exact`: two names have the same bytes if and only if they differ
  in case only, and which names are rejected.
-/

namespace TonWallet.Encoding

open Segments

/-- An `IllegalArgumentException`. -/
structure IllegalArgument where
  message : Text
deriving DecidableEq, Repr

/-- The labels, the last one first, with a zero after each, and with one before them if there are
less than 126 characters (lines 37–41). -/
def rawDomain (arr : List Text) : Text :=
  let rawDomain := [0].intercalate arr.reverse ++ [0]
  if rawDomain.length < 126 then 0 :: rawDomain else rawDomain

/-- `domainToBytes` (`DnsUtils.kt` lines 5–44). -/
def domainToBytes (M : CaseMapping) (domain : Text) : Except IllegalArgument Bytes :=
  if domain = [] then .error ⟨text "empty domain"⟩
  else if domain = [dot] then .ok [0]
  else
    let lowerCaseDomain := M.toLowerCase domain
    if lowerCaseDomain.any fun c => c.toNat ≤ 32 then
      .error ⟨text "bytes in range 0..32 are not allowed in domain names"⟩
    else if lowerCaseDomain.any fun c => 127 ≤ c.toNat ∧ c.toNat ≤ 159 then
      .error ⟨text "bytes in range 127..159 are not allowed in domain names"⟩
    else
      let arr := lowerCaseDomain.splitOn dot
      if arr.any List.isEmpty then
        .error ⟨text "domain name cannot have an empty component"⟩
      else .ok (toByteArray (rawDomain arr))

/-! ## The labels -/

/-- The labels of a name in lower case; the root has none. -/
def labels (s : Text) : List Text := if s = [dot] then [] else s.splitOn dot

/-- The labels that were written: a zero at the beginning is not one of those that end labels. -/
def decodeLabels (bytes : Bytes) : List Text :=
  let raw := decodeToString bytes
  let raw := if raw.head? = some 0 then raw.tail else raw
  (raw.splitOn 0).dropLast.reverse

/-- Labels as they are written: there is one, none is empty, and none has a zero. -/
structure Writable (arr : List Text) : Prop where
  ne_nil : arr ≠ []
  label_ne_nil : ∀ l ∈ arr, l ≠ []
  no_zero : ∀ l ∈ arr, 0 ∉ l
  paired : ∀ l ∈ arr, Paired l

/-- A control character. -/
def Control (n : ℕ) : Prop := n ≤ 32 ∨ 127 ≤ n ∧ n ≤ 159

theorem Control.reserved {n : ℕ} (h : Control n) : Reserved n := by
  unfold Control at h
  unfold Reserved
  omega

/-- Texts joined by a character that is no surrogate are without unpaired ones if the joined one
is. -/
theorem paired_intercalate {c : Char16} (hc : ¬ (0xD800 ≤ c.toNat ∧ c.toNat < 0xE000))
    (ls : List Text) : Paired ([c].intercalate ls) ↔ ∀ l ∈ ls, Paired l := by
  induction ls with
  | nil => exact iff_of_true (List.forall_mem_nil _) (List.forall_mem_nil _)
  | cons l ls ih =>
    cases ls with
    | nil => rw [List.intercalate_singleton, List.forall_mem_singleton]
    | cons l' ls =>
      rw [List.intercalate_cons_cons, List.append_assoc, List.singleton_append,
        paired_append_cons hc, ih]
      simp only [List.forall_mem_cons]

theorem labels_injective : Function.Injective labels := by
  intro s t h
  unfold labels at h
  split at h <;> split at h
  · rename_i hs ht
    rw [hs, ht]
  · exact absurd h.symm (List.splitOn_ne_nil _ _)
  · exact absurd h (List.splitOn_ne_nil _ _)
  · have hs : [dot].intercalate (s.splitOn dot) = s := List.intercalate_splitOn dot
    rw [← hs, h, List.intercalate_splitOn]

/-! ## Reading the labels -/

section
variable {arr : List Text} (h : Writable arr)
include h

theorem Writable.head_ne_zero : ([0].intercalate arr.reverse ++ [0]).head? ≠ some (0 : Char16) := by
  obtain ⟨l, ls, hrev⟩ := List.exists_cons_of_ne_nil (List.reverse_eq_nil_iff.not.mpr h.ne_nil)
  have hl : l ∈ arr := List.mem_reverse.mp (hrev ▸ List.mem_cons_self)
  obtain ⟨c, l, rfl⟩ := List.exists_cons_of_ne_nil (h.label_ne_nil l hl)
  rw [hrev, List.intercalate_cons_cons_left, List.cons_append, List.head?_cons]
  exact fun hzero => h.no_zero _ hl (Option.some.inj hzero ▸ List.mem_cons_self)

theorem Writable.splitOn_zero :
    ([0].intercalate arr.reverse ++ [0]).splitOn (0 : Char16) = arr.reverse ++ [[]] := by
  have hsplit := List.splitOn_intercalate (0 : Char16)
    (fun l hl => h.no_zero l (List.mem_reverse.mp hl)) (List.reverse_eq_nil_iff.not.mpr h.ne_nil)
  rw [List.splitOn_append_cons_self, hsplit, List.splitOn_nil]

theorem Writable.paired_rawDomain : Paired (rawDomain arr) := by
  have hzero : ¬ (0xD800 ≤ (0 : Char16).toNat ∧ (0 : Char16).toNat < 0xE000) := by decide
  have hraw : Paired ([0].intercalate arr.reverse ++ [0]) :=
    (paired_append_cons hzero).mpr ⟨(paired_intercalate hzero _).mpr fun l hl =>
      h.paired l (List.mem_reverse.mp hl), List.forall_mem_nil _⟩
  unfold rawDomain
  dsimp only
  split
  · exact (paired_append_cons (s := []) hzero).mpr ⟨List.forall_mem_nil _, hraw⟩
  · exact hraw

/-- The labels are read from the bytes, with a zero before them or without. -/
theorem Writable.decodeLabels_rawDomain : decodeLabels (toByteArray (rawDomain arr)) = arr := by
  have hraw : (if (rawDomain arr).head? = some 0 then (rawDomain arr).tail else rawDomain arr)
      = [0].intercalate arr.reverse ++ [0] := by
    unfold rawDomain
    dsimp only
    split
    · rfl
    · rw [if_neg h.head_ne_zero]
  unfold decodeLabels
  rw [h.paired_rawDomain.decodeToString_toByteArray]
  dsimp only
  rw [hraw, h.splitOn_zero, List.dropLast_concat, List.reverse_reverse]

end

/-! ## What is accepted -/

variable {M : CaseMapping} {domain : Text}

/-- The names that are not accepted: the empty one, those with an empty label, and those with a
control character. -/
def Rejected (domain : Text) : Prop :=
  domain = [] ∨ (domain ≠ [dot] ∧ [] ∈ domain.splitOn dot) ∨ ∃ c ∈ domain, Control c.toNat

theorem not_rejected_dot : ¬ Rejected [dot] := by
  rintro (h | ⟨h, -⟩ | ⟨c, hc, h⟩)
  · cases h
  · exact h rfl
  · rw [List.mem_singleton.mp hc] at h
    revert h
    unfold Control
    decide

/-- A name is rejected for its lower case. -/
theorem rejected_iff (hs : Paired domain) (hnil : domain ≠ []) (hdot : domain ≠ [dot]) :
    Rejected domain ↔ ((∃ c ∈ M.toLowerCase domain, c.toNat ≤ 32) ∨
      ∃ c ∈ M.toLowerCase domain, 127 ≤ c.toNat ∧ c.toNat ≤ 159) ∨
        [] ∈ (M.toLowerCase domain).splitOn dot := by
  have hcontrol := exists_toLowerCase M (fun _ => Control.reserved) hs
  have hempty : [] ∈ (M.toLowerCase domain).splitOn dot ↔ [] ∈ domain.splitOn dot := by
    rw [nil_mem_splitOn, nil_mem_splitOn, gaps_toLowerCase M hs]
  rw [Rejected, or_iff_right hnil, and_iff_right hdot, or_comm, ← hcontrol, hempty]
  simp only [Control, and_or_left, exists_or]

/-- The labels of a text without zeros. -/
theorem writable_splitOn {s : Text} (hs : Paired s) (hzero : 0 ∉ s)
    (hlabel : [] ∉ s.splitOn dot) : Writable (s.splitOn dot) where
  ne_nil := List.splitOn_ne_nil _ _
  label_ne_nil _ hl hnil := hlabel (hnil ▸ hl)
  no_zero _ hl h := hzero (mem_of_mem_splitOn hl h)
  paired := by
    refine (paired_intercalate (c := dot) (by decide) _).mp ?_
    rwa [List.intercalate_splitOn]

/-- What is written for a name. -/
theorem domainToBytes_eq (hs : Paired domain) :
    (Rejected domain ∧ ∃ e, domainToBytes M domain = .error e) ∨
    (¬ Rejected domain ∧ domain = [dot] ∧ domainToBytes M domain = .ok [0]) ∨
    (¬ Rejected domain ∧ domain ≠ [dot] ∧ Writable ((M.toLowerCase domain).splitOn dot) ∧
      domainToBytes M domain
        = .ok (toByteArray (rawDomain ((M.toLowerCase domain).splitOn dot)))) := by
  by_cases hnil : domain = []
  · exact .inl ⟨.inl hnil, _, if_pos hnil⟩
  by_cases hdot : domain = [dot]
  · exact .inr (.inl ⟨hdot ▸ not_rejected_dot, hdot, (if_neg hnil).trans (if_pos hdot)⟩)
  rw [rejected_iff (M := M) hs hnil hdot, domainToBytes, if_neg hnil, if_neg hdot]
  dsimp only
  by_cases hlow : ∃ c ∈ M.toLowerCase domain, c.toNat ≤ 32
  · exact .inl ⟨.inl (.inl hlow), _, if_pos (by simpa using hlow)⟩
  rw [if_neg (by simpa using hlow)]
  by_cases hhigh : ∃ c ∈ M.toLowerCase domain, 127 ≤ c.toNat ∧ c.toNat ≤ 159
  · exact .inl ⟨.inl (.inr hhigh), _, if_pos (by simpa using hhigh)⟩
  rw [if_neg (by simpa using hhigh)]
  by_cases hlabel : [] ∈ (M.toLowerCase domain).splitOn dot
  · exact .inl ⟨.inr hlabel, _, if_pos (List.any_eq_true.mpr ⟨[], hlabel, rfl⟩)⟩
  have hlabels : ¬ ((M.toLowerCase domain).splitOn dot).any List.isEmpty := by
    rw [List.any_eq_true]
    rintro ⟨l, hl, hnil⟩
    exact hlabel (List.isEmpty_iff.mp hnil ▸ hl)
  rw [if_neg hlabels]
  exact .inr (.inr ⟨not_or.mpr ⟨not_or.mpr ⟨hlow, hhigh⟩, hlabel⟩, hdot,
    writable_splitOn (paired_toLowerCase M hs) (fun h => hlow ⟨0, h, Nat.zero_le _⟩) hlabel, rfl⟩)

/-- The bytes that are written for a name in lower case. -/
def lowerBytes (s : Text) : Bytes :=
  if s = [dot] then [0] else toByteArray (rawDomain (s.splitOn dot))

/-- The bytes of a name depend on its lower case only, and its labels are read from them. -/
theorem decodeLabels_domainToBytes (hs : Paired domain) {bytes : Bytes}
    (h : domainToBytes M domain = .ok bytes) :
    bytes = lowerBytes (M.toLowerCase domain) ∧
      decodeLabels bytes = labels (M.toLowerCase domain) := by
  obtain ⟨-, e, he⟩ | ⟨-, hdot, he⟩ | ⟨-, hdot, hw, he⟩ := domainToBytes_eq (M := M) hs
  · cases he.symm.trans h
  · obtain rfl := Except.ok.inj (he.symm.trans h)
    rw [hdot, toLowerCase_dot]
    exact ⟨rfl, by decide +kernel⟩
  · obtain rfl := Except.ok.inj (he.symm.trans h)
    have hlower : M.toLowerCase domain ≠ [dot] := by
      intro hlower
      refine hw.label_ne_nil [] ?_ rfl
      rw [hlower]
      decide +kernel
    rw [hw.decodeLabels_rawDomain, lowerBytes, if_neg hlower, labels, if_neg hlower]
    exact ⟨rfl, rfl⟩

/-- **Names as bytes.** Two names that are accepted have the same bytes if and only if they have the
same lower case, the labels are read from the bytes, and a name is rejected if and only if it is
empty, has an empty label or has a control character. -/
theorem domainToBytes_exact (M : CaseMapping) :
    (∀ a b x y, Paired a → Paired b → domainToBytes M a = .ok x → domainToBytes M b = .ok y →
      (x = y ↔ M.toLowerCase a = M.toLowerCase b)) ∧
    (∀ a x, Paired a → domainToBytes M a = .ok x → decodeLabels x = labels (M.toLowerCase a)) ∧
    ∀ a, Paired a → ((∃ e, domainToBytes M a = .error e) ↔ Rejected a) := by
  refine ⟨fun a b x y ha hb hx hy => ?_, fun a x ha hx => (decodeLabels_domainToBytes ha hx).2,
    fun a ha => ?_⟩
  · obtain ⟨hxbytes, hxlabels⟩ := decodeLabels_domainToBytes ha hx
    obtain ⟨hybytes, hylabels⟩ := decodeLabels_domainToBytes hb hy
    constructor
    · intro h
      refine labels_injective ?_
      rw [← hxlabels, h, hylabels]
    · intro h
      rw [hxbytes, h, hybytes]
  · obtain ⟨hr, he⟩ | ⟨hr, -, hok⟩ | ⟨hr, -, -, hok⟩ := domainToBytes_eq (M := M) ha
    · exact iff_of_true he hr
    · exact iff_of_false (fun ⟨e, he⟩ => by cases hok.symm.trans he) hr
    · exact iff_of_false (fun ⟨e, he⟩ => by cases hok.symm.trans he) hr

theorem domainToBytes_exact_alice : decodeLabels (toByteArray (text "\x00ton\x00alice\x00"))
    = labels (asciiMapping.toLowerCase (text "Alice.ton")) :=
  (domainToBytes_exact asciiMapping).2.1 (text "Alice.ton") _ (by decide +kernel)
    (by decide +kernel)

end TonWallet.Encoding
