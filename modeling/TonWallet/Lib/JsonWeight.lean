import TonWallet.Lib.Digits
import TonWallet.Lib.Json
import Mathlib.Algebra.BigOperators.Group.List.Basic
import Mathlib.Algebra.GroupWithZero.Nat
import Mathlib.Tactic.Ring

/-!
# The weight of JSON

What a value is printed as is the lightest text of it, if the weight of a code
unit is not less than that of its escape.

* `total_print_le`: no text of a value is lighter than what the value is
  printed as.
-/

namespace Json

/-- A weight of code units. What JSON is written with weighs 1, and nothing weighs more than the
longest escape. -/
structure Weight where
  of : BitVec 16 → ℕ
  pos : ∀ c, 0 < of c
  le : ∀ c, of c ≤ 6
  control : ∀ c, c.toNat < 0x20 → of c = 6
  unit : ∀ c ∈ escapeUnits, of c = 1
  mark : ∀ c ∈ [comma, colon, minus, leftBracket, rightBracket, leftBrace, rightBrace], of c = 1
  digit : ∀ c, isDigit c → of c = 1

/-- Where what is read is made into something else, and the rest is kept. -/
theorem mapped_eq_some {α β : Type*} {x : Option (α × Str)} {f : α → β} {b : β} {r : Str}
    (h : (x.map fun a => (f a.1, a.2)) = some (b, r)) : ∃ a, x = some (a, r) ∧ f a = b := by
  obtain ⟨⟨a, r'⟩, hx, he⟩ := Option.map_eq_some_iff.mp h
  obtain ⟨hb, rfl⟩ := Prod.mk.inj he
  exact ⟨a, hx, hb⟩

namespace Weight

variable (w : Weight)

/-- The weight of a text. -/
def total (s : Str) : ℕ := (s.map w.of).sum

@[simp] theorem total_nil : w.total [] = 0 := rfl

@[simp] theorem total_cons (c : BitVec 16) (s : Str) : w.total (c :: s) = w.of c + w.total s := by
  rw [total, List.map_cons, List.sum_cons, total]

@[simp] theorem total_append (s t : Str) : w.total (s ++ t) = w.total s + w.total t := by
  rw [total, List.map_append, List.sum_append, total, total]

theorem length_le_total (s : Str) : s.length ≤ w.total s := by
  induction s with
  | nil => exact Nat.le_refl 0
  | cons c s ih =>
    have := w.pos c
    rw [total_cons, List.length_cons]
    omega

theorem total_le (s : Str) : w.total s ≤ 6 * s.length := by
  induction s with
  | nil => exact Nat.le_refl 0
  | cons c s ih =>
    have := w.le c
    rw [total_cons, List.length_cons]
    omega

theorem total_eq_length {s : Str} (h : ∀ c ∈ s, w.of c = 1) : w.total s = s.length := by
  induction s with
  | nil => rfl
  | cons c s ih =>
    obtain ⟨hc, hs⟩ := List.forall_mem_cons.mp h
    rw [total_cons, List.length_cons, hc, ih hs, Nat.add_comm]

/-- What is left of a text is not heavier. -/
theorem total_suffix {s t : Str} (h : s <:+ t) : w.total s ≤ w.total t := by
  obtain ⟨u, rfl⟩ := h
  rw [total_append]
  omega

theorem total_skip (s : Str) : w.total (skip s) ≤ w.total s :=
  w.total_suffix (List.dropWhile_suffix _)

/-! ## Strings -/

theorem total_shortEscape {e : BitVec 16 × BitVec 16} (he : e ∈ shortEscapes) :
    w.total [backslash, e.2] = 2 := by
  have hall : (shortEscapes.all fun e => e.2 ∈ escapeUnits) = true := by decide
  have he := of_decide_eq_true (List.all_eq_true.mp hall e he)
  have hb := w.unit backslash (by decide)
  simp [hb, w.unit _ he]

theorem total_hexDigit {n : ℕ} (hn : n < 16) : w.of (hexDigit n) = 1 :=
  w.unit _ (by revert n; decide)

/-- The escape of a code unit that has no escape of two. -/
theorem total_escape_eq {c : BitVec 16} (h : shortEscapes.find? (·.1 = c) = none) :
    w.total (escape c) = w.of c := by
  rw [Json.escape, h]
  by_cases hlt : c.toNat < 0x20
  · have hb := w.unit backslash (by decide)
    have hu := w.unit 0x75 (by decide)
    have h0 := w.unit 0x30 (by decide)
    have hd1 := w.total_hexDigit (n := c.toNat / 16) (by omega)
    have hd0 := w.total_hexDigit (n := c.toNat % 16) (by omega)
    simp only [if_pos hlt, total_cons, total_nil, hb, hu, h0, hd1, hd0, w.control c hlt]
  · simp only [if_neg hlt, total_cons, total_nil, Nat.add_zero]

theorem total_escape_of_short {c : BitVec 16} {e : BitVec 16 × BitVec 16}
    (h : shortEscapes.find? (·.1 = c) = some e) : w.total (escape c) = 2 := by
  rw [Json.escape, h]
  exact w.total_shortEscape (List.mem_of_find?_eq_some h)

theorem total_escape_le (c : BitVec 16) : w.total (escape c) ≤ 6 := by
  cases h : shortEscapes.find? (·.1 = c) with
  | none =>
    rw [w.total_escape_eq h]
    exact w.le c
  | some e =>
    rw [w.total_escape_of_short h]
    decide

/-- No code unit that stands for itself is lighter than its escape. -/
theorem total_escape_self {c : BitVec 16} (hq : c ≠ quote) (hb : c ≠ backslash) :
    w.total (escape c) ≤ w.of c := by
  cases h : shortEscapes.find? (·.1 = c) with
  | none => exact Nat.le_of_eq (w.total_escape_eq h)
  | some e =>
    have he : e.1 = c := by simpa using List.find?_some h
    have hall : (shortEscapes.all fun e =>
        e.1 = quote ∨ e.1 = backslash ∨ e.1.toNat < 0x20) = true := by
      decide
    have hlt := of_decide_eq_true (List.all_eq_true.mp hall e (List.mem_of_find?_eq_some h))
    rw [he] at hlt
    rw [w.total_escape_of_short h, w.control c ((hlt.resolve_left hq).resolve_left hb)]
    decide

/-- No escape of two is lighter than that of the code unit it stands for. -/
theorem total_escape_unescape {e c : BitVec 16} (h : unescape e = some c) :
    w.total (escape c) ≤ w.of backslash + w.of e := by
  have hb := w.unit backslash (by decide)
  have he := w.pos e
  rw [unescape] at h
  split at h
  · obtain rfl := Option.some.inj h
    have hself := w.total_escape_self (c := e) (by subst e; decide) (by subst e; decide)
    omega
  · obtain ⟨p, hp, rfl⟩ := Option.map_eq_some_iff.mp h
    cases hf : shortEscapes.find? (·.1 = p.1) with
    | none =>
      have hmem := List.find?_eq_none.mp hf p (List.mem_of_find?_eq_some hp)
      simp at hmem
    | some q =>
      rw [w.total_escape_of_short hf]
      omega

/-- No text of a string is lighter than what the string is printed as. -/
theorem total_stringBody {s v r : Str} (h : stringBody s = some (v, r)) :
    w.total (v.flatMap escape) + 1 + w.total r ≤ w.total s := by
  have hquote := w.unit quote (by decide)
  have hbackslash := w.unit backslash (by decide)
  fun_induction stringBody s generalizing v with
  | case1 | case3 | case5 | case6 | case8 => cases h
  | case2 s =>
    obtain ⟨rfl, rfl⟩ := Prod.mk.injEq _ _ _ _ ▸ Option.some.inj h
    simp [hquote]
  | case4 h₃ h₂ h₁ h₀ s n₃ n₂ n₁ n₀ _ _ _ _ _ ih =>
    obtain ⟨v', hbody, rfl⟩ := mapped_eq_some h
    have hih := ih hbody
    have hle := w.total_escape_le (BitVec.ofNat 16 (((n₃ * 16 + n₂) * 16 + n₁) * 16 + n₀))
    have hlen := w.length_le_total [backslash, 0x75, h₃, h₂, h₁, h₀]
    simp only [List.flatMap_cons, total_append, total_cons, total_nil, List.length_cons,
      List.length_nil] at hlen ⊢
    omega
  | case7 e s _ c hc _ ih =>
    obtain ⟨v', hbody, rfl⟩ := mapped_eq_some h
    have hih := ih hbody
    have hle := w.total_escape_unescape hc
    simp only [List.flatMap_cons, total_append, total_cons]
    omega
  | case9 c s hq hb ih =>
    obtain ⟨v', hbody, rfl⟩ := mapped_eq_some h
    have hih := ih hbody
    have hle := w.total_escape_self hq hb
    simp only [List.flatMap_cons, total_append, total_cons]
    omega

theorem total_printString (s : Str) :
    w.total (printString s) = w.total (s.flatMap escape) + 2 := by
  have hquote := w.unit quote (by decide)
  simp only [printString, List.cons_append, total_cons, total_append, total_nil, hquote]
  omega

/-! ## Numbers -/

theorem isDigit_ofNat {c : BitVec 16} (h : isDigit c = true) : (Char.ofNat c.toNat).isDigit := by
  have hall : ∀ n < 0x3A, 0x30 ≤ n → (Char.ofNat n).isDigit := by decide
  rw [isDigit, decide_eq_true_eq] at h
  exact hall _ (by omega) h.1

/-- No text of a number is lighter than what the number is printed as. -/
theorem total_natural {s r : Str} {n : ℕ} (h : natural s = some (n, r)) :
    w.total (printNat n) + w.total r ≤ w.total s := by
  have hsplit : w.total s = w.total (s.takeWhile isDigit) + w.total (s.dropWhile isDigit) := by
    rw [← total_append, List.takeWhile_append_dropWhile]
  have hdigits : ∀ c ∈ s.takeWhile isDigit, isDigit c = true :=
    List.all_eq_true.mp List.all_takeWhile
  rw [natural] at h
  generalize s.takeWhile isDigit = ds at h hsplit hdigits
  cases ds with
  | nil => cases h
  | cons d ds =>
    obtain ⟨rfl, rfl⟩ := Prod.mk.injEq _ _ _ _ ▸ Option.some.inj h
    have hchars : ∀ c ∈ (d :: ds).map fun c => Char.ofNat c.toNat, c.isDigit := by
      intro c hc
      obtain ⟨e, he, rfl⟩ := List.mem_map.mp hc
      exact isDigit_ofNat (hdigits e he)
    have hlt := Digits.ofDigitChars_lt hchars 0
    rw [List.length_map, Nat.zero_add, Nat.one_mul] at hlt
    have hlen := (Nat.length_toDigits_le_iff (b := 10) (by decide) (by simp)).mpr hlt
    rw [← w.total_eq_length fun c hc => w.digit c (hdigits c hc)] at hlen
    have hprint := w.total_eq_length fun c hc => w.digit c (isDigit_of_mem_printNat (n :=
      Nat.ofDigitChars 10 ((d :: ds).map fun c => Char.ofNat c.toNat) 0) c hc)
    rw [hprint, printNat, List.length_map]
    omega

/-! ## Values -/

section
variable {α : Type*} {item : Str → Option (α × Str)} {f : α → Str} {close : BitVec 16}

theorem total_itemsFrom
    (hitem : ∀ {s a r}, item s = some (a, r) → w.total (f a) + w.total r ≤ w.total s)
    {n : ℕ} {s r : Str} {l : List α} (h : itemsFrom item close n s = some (l, r)) :
    w.total ([comma].intercalate (l.map f)) + w.of close + w.total r ≤ w.total s := by
  induction n generalizing s l with
  | zero => cases h
  | succ n ih =>
    obtain ⟨⟨a, rest⟩, ha, h⟩ := Option.bind_eq_some_iff.mp h
    have hle := hitem ha
    have hskip := w.total_skip rest
    cases hc : skip rest with
    | nil =>
      rw [hc] at h
      cases h
    | cons c t =>
      rw [hc] at h
      rw [hc, total_cons] at hskip
      simp only at h
      split at h
      · rename_i hcomma
        obtain ⟨l', hrest, rfl⟩ := mapped_eq_some h
        have hih := ih hrest
        cases l' with
        | nil =>
          simp only [List.map_cons, List.map_nil, List.intercalate_singleton,
            List.intercalate_nil, total_nil] at hih ⊢
          omega
        | cons b l' =>
          simp only [List.map_cons, List.intercalate_cons_cons, total_append, total_cons,
            total_nil, ← hcomma] at hih ⊢
          omega
      · obtain ⟨hclose, h⟩ := Option.ite_none_right_eq_some.mp h
        obtain ⟨rfl, rfl⟩ := Prod.mk.injEq _ _ _ _ ▸ Option.some.inj h
        rw [List.map_singleton, List.intercalate_singleton, ← hclose]
        omega

theorem total_items
    (hitem : ∀ {s a r}, item s = some (a, r) → w.total (f a) + w.total r ≤ w.total s)
    {s r : Str} {l : List α} (h : items item close s = some (l, r)) :
    w.total ([comma].intercalate (l.map f)) + w.of close + w.total r ≤ w.total s := by
  have hskip := w.total_skip s
  cases hc : skip s with
  | nil =>
    rw [items, hc] at h
    cases h
  | cons c t =>
    rw [items, hc] at h
    rw [hc, total_cons] at hskip
    simp only at h
    split at h
    · rename_i hclose
      obtain ⟨rfl, rfl⟩ := Prod.mk.injEq _ _ _ _ ▸ Option.some.inj h
      rw [List.map_nil, List.intercalate_nil, total_nil, ← hclose]
      omega
    · exact w.total_itemsFrom hitem h

end

theorem total_printMember (m : Str × Value) :
    w.total (printMember m) = w.total (m.1.flatMap escape) + 3 + w.total (print m.2) := by
  have hcolon := w.mark colon (by decide)
  rw [printMember, total_append, total_printString, total_cons, hcolon]
  omega

theorem total_memberOf {fuel : ℕ}
    (hvalue : ∀ {s v r}, value fuel s = some (v, r) → w.total (print v) + w.total r ≤ w.total s)
    {s r : Str} {m : Str × Value} (h : memberOf (value fuel) s = some (m, r)) :
    w.total (printMember m) + w.total r ≤ w.total s := by
  have hskip := w.total_skip s
  have hquote := w.unit quote (by decide)
  have hcolon := w.mark colon (by decide)
  rw [memberOf] at h
  cases hc : skip s with
  | nil =>
    rw [hc] at h
    cases h
  | cons c t =>
    rw [hc] at h
    rw [hc, total_cons] at hskip
    obtain ⟨rfl, h⟩ := Option.ite_none_right_eq_some.mp h
    obtain ⟨⟨k, u⟩, hk, h⟩ := Option.bind_eq_some_iff.mp h
    have hbody := w.total_stringBody hk
    have hskip' := w.total_skip u
    cases hc' : skip u with
    | nil =>
      rw [hc'] at h
      cases h
    | cons c' t' =>
      rw [hc'] at h
      rw [hc', total_cons] at hskip'
      obtain ⟨rfl, h⟩ := Option.ite_none_right_eq_some.mp h
      obtain ⟨v, hv, rfl⟩ := mapped_eq_some h
      have hle := hvalue hv
      rw [total_printMember]
      simp only
      omega

theorem total_literal {l s r : Str} {v v' : Value} (h : literal l v s = some (v', r)) :
    v' = v ∧ w.total l + w.total r = w.total s := by
  obtain ⟨hbegin, h⟩ := Option.ite_none_right_eq_some.mp h
  obtain ⟨rfl, rfl⟩ := Prod.mk.injEq _ _ _ _ ▸ Option.some.inj h
  obtain ⟨t, rfl⟩ := List.isPrefixOf_iff_prefix.mp hbegin
  rw [List.drop_left, total_append]
  exact ⟨rfl, rfl⟩

theorem total_printNumber (n : ℤ) :
    w.total (printNumber n) ≤ w.of minus + w.total (printNat n.natAbs) ∧
      (0 ≤ n → w.total (printNumber n) = w.total (printNat n.natAbs)) := by
  rw [printNumber]
  split
  · exact ⟨Nat.le_of_eq (w.total_cons ..), fun h => by omega⟩
  · exact ⟨by omega, fun _ => rfl⟩

theorem total_array (l : List Value) :
    w.total (print (.array l)) = w.total ([comma].intercalate (l.map print)) + 2 := by
  have hl := w.mark leftBracket (by decide)
  have hr := w.mark rightBracket (by decide)
  rw [print, printItems_eq, total_cons, total_append, total_cons, total_nil, hl, hr]
  omega

theorem total_object (l : List (Str × Value)) :
    w.total (print (.object l)) = w.total ([comma].intercalate (l.map printMember)) + 2 := by
  have hl := w.mark leftBrace (by decide)
  have hr := w.mark rightBrace (by decide)
  rw [print, printMembers_eq, total_cons, total_append, total_cons, total_nil, hl, hr]
  omega

/-- No text of a value is lighter than what the value is printed as. -/
theorem total_value {fuel : ℕ} {s r : Str} {v : Value} (h : value fuel s = some (v, r)) :
    w.total (print v) + w.total r ≤ w.total s := by
  induction fuel generalizing s r v with
  | zero => cases h
  | succ fuel ih =>
    have hskip := w.total_skip s
    rw [value] at h
    cases hc : skip s with
    | nil =>
      rw [hc] at h
      cases h
    | cons c t =>
      rw [hc] at h
      rw [hc, total_cons] at hskip
      have hpos := w.pos c
      simp only at h
      split at h
      · obtain ⟨a, ha, rfl⟩ := mapped_eq_some h
        have hbody := w.total_stringBody ha
        rw [print, total_printString]
        omega
      split at h
      · obtain ⟨l, hl, rfl⟩ := mapped_eq_some h
        have hitems := w.total_items (f := print) ih hl
        have hclose := w.mark rightBracket (by decide)
        rw [total_array]
        omega
      split at h
      · obtain ⟨l, hl, rfl⟩ := mapped_eq_some h
        have hitems := w.total_items (f := printMember) (w.total_memberOf ih) hl
        have hclose := w.mark rightBrace (by decide)
        rw [total_object]
        omega
      split at h
      · rename_i hminus
        obtain ⟨n, hn, rfl⟩ := mapped_eq_some (f := fun n : ℕ => Value.number (-n)) h
        have hnat := w.total_natural hn
        have hnum := (w.total_printNumber (-n)).1
        rw [Int.natAbs_neg, Int.natAbs_natCast, ← hminus] at hnum
        rw [print]
        omega
      split at h
      · obtain ⟨n, hn, rfl⟩ := mapped_eq_some (f := fun n : ℕ => Value.number n) h
        have hnat := w.total_natural hn
        have hnum := (w.total_printNumber n).2 (by simp)
        rw [Int.natAbs_natCast] at hnum
        rw [total_cons] at hnat
        rw [print]
        omega
      · rw [← total_cons] at hskip
        simp only [Option.orElse_eq_orElse, Option.orElse_eq_or, Option.or_eq_some_iff] at h
        have hlit : ∀ (l : Str) (u : Value), print u = l → literal l u (c :: t) = some (v, r) →
            w.total (print v) + w.total r ≤ w.total s := by
          intro l u hu h
          obtain ⟨rfl, htotal⟩ := w.total_literal h
          rw [hu]
          omega
        rcases h with h | ⟨-, h | ⟨-, h⟩⟩
        · exact hlit nullLiteral .null rfl h
        · exact hlit trueLiteral (.bool true) rfl h
        · exact hlit falseLiteral (.bool false) rfl h

/-- No text of a value is lighter than what the value is printed as. -/
theorem total_print_le {s : Str} {v : Value} (h : parse s = some v) :
    w.total (print v) ≤ w.total s := by
  obtain ⟨⟨u, r⟩, hu, h⟩ := Option.bind_eq_some_iff.mp h
  obtain ⟨-, h⟩ := Option.ite_none_right_eq_some.mp h
  have hle := w.total_value hu
  obtain rfl := Option.some.inj h
  simp only
  omega

/-- A member of a record is part of its text. -/
theorem total_member_le {l : List (Str × Value)} {m : Str × Value} (hm : m ∈ l) :
    w.total (printMember m) + 2 ≤ w.total (print (.object l)) := by
  rw [total_object]
  have hle : ∀ ts : List Str, ∀ t ∈ ts, w.total t ≤ w.total ([comma].intercalate ts) := by
    intro ts
    induction ts with
    | nil => exact List.forall_mem_nil _
    | cons u ts ih =>
      cases ts with
      | nil => simp
      | cons v ts =>
        intro t ht
        rw [List.intercalate_cons_cons, total_append, total_append]
        rcases List.mem_cons.mp ht with rfl | ht
        · omega
        · have := ih t ht
          omega
  have := hle _ _ (List.mem_map_of_mem (f := printMember) hm)
  omega

end Weight

end Json
