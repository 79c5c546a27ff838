import Mathlib.Data.Int.Notation
import Mathlib.Data.List.Basic
import Mathlib.Tactic.Common

/-!
# JSON

Texts are lists of UTF-16 code units, numbers are whole. The printer writes no
white space; the parser skips it.

* `parse_print`: a printed value is parsed to itself.
* `field_member`, `field_skip`, `field_optional`: what is found in a record that
  is written member by member, leaving out those that have no value.
-/

namespace Json

/-- A text. -/
abbrev Str := List (BitVec 16)

/-- A JSON value. -/
inductive Value where
  | null
  | bool (b : Bool)
  | number (n : ℤ)
  | string (s : Str)
  | array (items : List Value)
  | object (members : List (Str × Value))

/-- Induction over values. -/
theorem Value.ind {P : Value → Prop} (null : P .null) (bool : ∀ b, P (.bool b))
    (number : ∀ n, P (.number n)) (string : ∀ s, P (.string s))
    (array : ∀ items, (∀ v ∈ items, P v) → P (.array items))
    (object : ∀ members, (∀ m ∈ members, P m.2) → P (.object members)) : ∀ v, P v
  | .null => null
  | .bool b => bool b
  | .number n => number n
  | .string s => string s
  | .array items => array items fun v _ => ind null bool number string array object v
  | .object members =>
    object members fun m _ => ind null bool number string array object m.2
termination_by v => sizeOf v
decreasing_by
  · have := List.sizeOf_lt_of_mem ‹_›
    simp only [Value.array.sizeOf_spec]
    omega
  · have := List.sizeOf_lt_of_mem ‹_›
    have hm : sizeOf m = 1 + sizeOf m.1 + sizeOf m.2 := by cases m; rfl
    simp only [Value.object.sizeOf_spec]
    omega

/-! ## Code units -/

def quote : BitVec 16 := 0x22
def backslash : BitVec 16 := 0x5C
def comma : BitVec 16 := 0x2C
def colon : BitVec 16 := 0x3A
def minus : BitVec 16 := 0x2D
def leftBracket : BitVec 16 := 0x5B
def rightBracket : BitVec 16 := 0x5D
def leftBrace : BitVec 16 := 0x7B
def rightBrace : BitVec 16 := 0x7D

/-- `null`, `true` and `false`. -/
def nullLiteral : Str := [0x6E, 0x75, 0x6C, 0x6C]
def trueLiteral : Str := [0x74, 0x72, 0x75, 0x65]
def falseLiteral : Str := [0x66, 0x61, 0x6C, 0x73, 0x65]

/-- White space. -/
def isSpace (c : BitVec 16) : Bool := c = 0x20 ∨ c = 0x09 ∨ c = 0x0A ∨ c = 0x0D

/-- A decimal digit. -/
def isDigit (c : BitVec 16) : Bool := 0x30 ≤ c.toNat ∧ c.toNat ≤ 0x39

/-- The code units with an escape of two, and its second one. -/
def shortEscapes : List (BitVec 16 × BitVec 16) :=
  [(quote, quote), (backslash, backslash), (0x08, 0x62), (0x0C, 0x66), (0x0A, 0x6E), (0x0D, 0x72),
    (0x09, 0x74)]

/-- The digit that the printer writes. -/
def hexDigit (n : ℕ) : BitVec 16 := BitVec.ofNat 16 (if n < 10 then 0x30 + n else 0x57 + n)

/-- The value of a digit in either case. -/
def hexValue (c : BitVec 16) : Option ℕ :=
  if isDigit c then some (c.toNat - 0x30)
  else if 0x61 ≤ c.toNat ∧ c.toNat ≤ 0x66 then some (c.toNat - 0x57)
  else if 0x41 ≤ c.toNat ∧ c.toNat ≤ 0x46 then some (c.toNat - 0x37)
  else none

/-! ## Printing -/

/-- A code unit in a string. -/
def escape (c : BitVec 16) : Str :=
  match shortEscapes.find? (·.1 = c) with
  | some e => [backslash, e.2]
  | none =>
    if c.toNat < 0x20 then
      [backslash, 0x75, 0x30, 0x30, hexDigit (c.toNat / 16), hexDigit (c.toNat % 16)]
    else [c]

/-- A string in quotes. -/
def printString (s : Str) : Str := quote :: s.flatMap escape ++ [quote]

/-- The decimal digits. -/
def printNat (n : ℕ) : Str := (Nat.toDigits 10 n).map fun c => BitVec.ofNat 16 c.toNat

/-- A number, with a minus if it is negative. -/
def printNumber (n : ℤ) : Str :=
  if n < 0 then minus :: printNat n.natAbs else printNat n.natAbs

mutual

/-- The text of a value. -/
def print : Value → Str
  | .null => nullLiteral
  | .bool true => trueLiteral
  | .bool false => falseLiteral
  | .number n => printNumber n
  | .string s => printString s
  | .array items => leftBracket :: ([comma].intercalate (printItems items) ++ [rightBracket])
  | .object members => leftBrace :: ([comma].intercalate (printMembers members) ++ [rightBrace])

/-- The texts of the items of an array. -/
def printItems : List Value → List Str
  | [] => []
  | v :: items => print v :: printItems items

/-- The texts of the members of an object. -/
def printMembers : List (Str × Value) → List Str
  | [] => []
  | m :: members => (printString m.1 ++ colon :: print m.2) :: printMembers members

end

/-! ## Parsing -/

/-- The rest of the text after white space. -/
def skip (s : Str) : Str := s.dropWhile isSpace

/-- The code unit of an escape of two. -/
def unescape (c : BitVec 16) : Option (BitVec 16) :=
  if c = 0x2F then some c else (shortEscapes.find? (·.2 = c)).map (·.1)

/-- A string, after its first quote. -/
def stringBody : Str → Option (Str × Str)
  | [] => none
  | c :: s =>
    if c = quote then some ([], s)
    else if c = backslash then
      match s with
      | [] => none
      | e :: s =>
        if e = 0x75 then
          match s with
          | h₃ :: h₂ :: h₁ :: h₀ :: s =>
            match hexValue h₃, hexValue h₂, hexValue h₁, hexValue h₀ with
            | some n₃, some n₂, some n₁, some n₀ =>
              (stringBody s).map fun r =>
                (BitVec.ofNat 16 (((n₃ * 16 + n₂) * 16 + n₁) * 16 + n₀) :: r.1, r.2)
            | _, _, _, _ => none
          | _ => none
        else
          match unescape e with
          | some c => (stringBody s).map fun r => (c :: r.1, r.2)
          | none => none
    else (stringBody s).map fun r => (c :: r.1, r.2)

/-- A whole number without a sign. -/
def natural (s : Str) : Option (ℕ × Str) :=
  match s.takeWhile isDigit with
  | [] => none
  | ds => some (Nat.ofDigitChars 10 (ds.map fun c => Char.ofNat c.toNat) 0, s.dropWhile isDigit)

section
variable {α : Type*} (item : Str → Option (α × Str)) (close : BitVec 16)

/-- One item or more, separated by commas. -/
def itemsFrom : ℕ → Str → Option (List α × Str)
  | 0, _ => none
  | n + 1, s =>
    (item s).bind fun r =>
      match skip r.2 with
      | [] => none
      | c :: s =>
        if c = comma then (itemsFrom n s).map fun rs => (r.1 :: rs.1, rs.2)
        else if c = close then some ([r.1], s)
        else none

/-- The items up to the closing bracket. -/
def items (s : Str) : Option (List α × Str) :=
  match skip s with
  | [] => none
  | c :: r => if c = close then some ([], r) else itemsFrom item close s.length s

/-- A name, a colon and a value. -/
def memberOf (s : Str) : Option ((Str × α) × Str) :=
  match skip s with
  | [] => none
  | c :: s =>
    if c = quote then
      (stringBody s).bind fun k =>
        match skip k.2 with
        | [] => none
        | c :: s => if c = colon then (item s).map fun r => ((k.1, r.1), r.2) else none
    else none

end

/-- The rest of a text that begins with a literal. -/
def literal (l : Str) (v : Value) (s : Str) : Option (Value × Str) :=
  if l.isPrefixOf s then some (v, s.drop l.length) else none

/-- A value, nested at most `fuel` times, and the rest of the text. -/
def value : ℕ → Str → Option (Value × Str)
  | 0, _ => none
  | fuel + 1, s =>
    match skip s with
    | [] => none
    | c :: r =>
      if c = quote then (stringBody r).map fun a => (.string a.1, a.2)
      else if c = leftBracket then
        (items (value fuel) rightBracket r).map fun a => (.array a.1, a.2)
      else if c = leftBrace then
        (items (memberOf (value fuel)) rightBrace r).map fun a => (.object a.1, a.2)
      else if c = minus then (natural r).map fun a => (.number (-a.1), a.2)
      else if isDigit c then (natural (c :: r)).map fun a => (.number a.1, a.2)
      else
        literal nullLiteral .null (c :: r) <|> literal trueLiteral (.bool true) (c :: r)
          <|> literal falseLiteral (.bool false) (c :: r)

/-- The value a text is. -/
def parse (s : Str) : Option Value :=
  (value s.length s).bind fun r => if skip r.2 = [] then some r.1 else none

/-! ## Strings and numbers -/

theorem skip_cons {c : BitVec 16} {s : Str} (h : isSpace c = false) : skip (c :: s) = c :: s := by
  rw [skip, List.dropWhile_cons, if_neg (by simp [h])]

theorem hexValue_hexDigit : ∀ n < 16, hexValue (hexDigit n) = some n := by decide

theorem unescape_shortEscapes : ∀ e ∈ shortEscapes, e.2 ≠ 0x75 ∧ unescape e.2 = some e.1 := by
  have hall : (shortEscapes.all fun e => e.2 ≠ 0x75 ∧ unescape e.2 = some e.1) = true := by decide
  exact fun e he => of_decide_eq_true (List.all_eq_true.mp hall e he)

/-- What a code unit is written as is read as that code unit. -/
theorem stringBody_escape (c : BitVec 16) (s : Str) :
    stringBody (escape c ++ s) = (stringBody s).map fun r => (c :: r.1, r.2) := by
  cases hf : shortEscapes.find? (·.1 = c) with
  | some e =>
    obtain ⟨hu, he⟩ := unescape_shortEscapes e (List.mem_of_find?_eq_some hf)
    have hc : e.1 = c := by simpa using List.find?_some hf
    rw [escape, hf]
    simp only [List.cons_append, List.nil_append]
    rw [stringBody.eq_def]
    simp only [if_neg (show backslash ≠ quote by decide), if_true, if_neg hu, he, hc]
  | none =>
    have hq : c ≠ quote ∧ c ≠ backslash := by
      constructor <;>
      · rintro rfl
        revert hf
        decide
    rw [escape, hf]
    by_cases hlt : c.toNat < 0x20
    · have h1 := hexValue_hexDigit (c.toNat / 16) (by omega)
      have h0 := hexValue_hexDigit (c.toNat % 16) (by omega)
      have hz : hexValue 0x30 = some 0 := by decide
      have hval : ((0 * 16 + 0) * 16 + c.toNat / 16) * 16 + c.toNat % 16 = c.toNat := by omega
      simp only [if_pos hlt, List.cons_append, List.nil_append]
      rw [stringBody.eq_def]
      simp only [if_neg (show backslash ≠ quote by decide), if_true, hz, h1, h0, hval,
        BitVec.ofNat_toNat, BitVec.setWidth_eq]
    · simp only [if_neg hlt, List.cons_append, List.nil_append]
      rw [stringBody.eq_def]
      simp only [if_neg hq.1, if_neg hq.2]

theorem stringBody_print (s r : Str) :
    stringBody (s.flatMap escape ++ quote :: r) = some (s, r) := by
  induction s with
  | nil =>
    rw [List.flatMap_nil, List.nil_append, stringBody.eq_def]
    simp only [if_true]
  | cons c s ih => rw [List.flatMap_cons, List.append_assoc, stringBody_escape, ih, Option.map_some]

/-- The code units that escapes are made of. -/
def escapeUnits : Str :=
  [quote, backslash, 0x62, 0x66, 0x6E, 0x72, 0x74, 0x75, 0x30] ++ (List.range 16).map hexDigit

/-- A code unit that is in no escape is in what is printed only if it is in what was to be
printed. -/
theorem mem_of_mem_printString {x : BitVec 16} (hx : x ∉ escapeUnits) {s : Str}
    (h : x ∈ printString s) : x ∈ s := by
  have hshort : ∀ e ∈ shortEscapes, e.2 ∈ escapeUnits := by
    have hall : (shortEscapes.all fun e => e.2 ∈ escapeUnits) = true := by decide
    exact fun e he => of_decide_eq_true (List.all_eq_true.mp hall e he)
  obtain ⟨hquote, hbackslash, hu, h0⟩ : quote ∈ escapeUnits ∧ backslash ∈ escapeUnits ∧
      0x75 ∈ escapeUnits ∧ 0x30 ∈ escapeUnits := by decide
  have hhex : ∀ n < 16, hexDigit n ∈ escapeUnits := by decide
  have hne : x ≠ quote := fun e => hx (e ▸ hquote)
  simp only [printString, List.cons_append, List.mem_cons, List.mem_append, List.mem_flatMap,
    List.not_mem_nil, or_false, hne, false_or] at h
  obtain ⟨c, hc, h⟩ := h
  suffices he : x = c from he ▸ hc
  rw [escape] at h
  split at h
  · rename_i e he
    rcases List.mem_pair.mp h with rfl | rfl
    · exact absurd hbackslash hx
    · exact absurd (hshort e (List.mem_of_find?_eq_some he)) hx
  · split at h
    · exfalso
      simp only [List.mem_cons, List.not_mem_nil, or_false] at h
      rcases h with rfl | rfl | rfl | rfl | rfl | rfl
      · exact hx hbackslash
      · exact hx hu
      · exact hx h0
      · exact hx h0
      · exact hx (hhex _ (by omega))
      · exact hx (hhex _ (by omega))
    · exact List.mem_singleton.mp h

/-- The text does not go on with a digit. -/
def NoDigit (r : Str) : Prop := ∀ c ∈ r.head?, isDigit c = false

theorem noDigit_cons {c : BitVec 16} {r : Str} (h : isDigit c = false) : NoDigit (c :: r) := by
  rintro d ⟨rfl⟩
  exact h

theorem toNat_digit {c : Char} (h : c.isDigit) :
    (BitVec.ofNat 16 c.toNat).toNat = c.toNat ∧ 0x30 ≤ c.toNat ∧ c.toNat ≤ 0x39 := by
  have h' : 48 ≤ c.toNat ∧ c.toNat ≤ 57 := Char.isDigit_iff_toNat.mp h
  simp only [BitVec.toNat_ofNat]
  omega

theorem isDigit_of_mem_printNat {n : ℕ} : ∀ c ∈ printNat n, isDigit c := by
  intro c hc
  obtain ⟨d, hd, rfl⟩ := List.mem_map.mp hc
  have h := toNat_digit (Nat.isDigit_of_mem_toDigits (by decide) (by decide) hd)
  simp only [isDigit, decide_eq_true_eq]
  omega

theorem printNat_ne_nil (n : ℕ) : printNat n ≠ [] := by
  simp [printNat, Nat.toDigits_ne_nil]

theorem printNat_chars (n : ℕ) :
    (printNat n).map (fun c => Char.ofNat c.toNat) = Nat.toDigits 10 n := by
  rw [printNat, List.map_map]
  conv_rhs => rw [← List.map_id (Nat.toDigits 10 n)]
  refine List.map_congr_left fun c hc => ?_
  have h := toNat_digit (Nat.isDigit_of_mem_toDigits (by decide) (by decide) hc)
  rw [Function.comp_apply, h.1, Char.ofNat_toNat, id]

theorem natural_print {n : ℕ} {r : Str} (hr : NoDigit r) :
    natural (printNat n ++ r) = some (n, r) := by
  have hr' : r.takeWhile isDigit = [] ∧ r.dropWhile isDigit = r := by
    cases r with
    | nil => exact ⟨rfl, rfl⟩
    | cons c r => simp [hr c rfl]
  have htake : (printNat n ++ r).takeWhile isDigit = printNat n := by
    rw [List.takeWhile_append_of_pos isDigit_of_mem_printNat, hr'.1, List.append_nil]
  have hdrop : (printNat n ++ r).dropWhile isDigit = r := by
    rw [List.dropWhile_append_of_pos isDigit_of_mem_printNat, hr'.2]
  rw [natural, htake, hdrop]
  split
  · exact absurd ‹_› (printNat_ne_nil n)
  · rw [printNat_chars, Nat.ofDigitChars_ten_toDigits]

/-! ## Values -/

theorem printItems_eq (l : List Value) : printItems l = l.map print := by
  induction l with
  | nil => rfl
  | cons v l ih => rw [printItems, ih, List.map_cons]

/-- The text of a member. -/
def printMember (m : Str × Value) : Str := printString m.1 ++ colon :: print m.2

theorem printMembers_eq (l : List (Str × Value)) : printMembers l = l.map printMember := by
  induction l with
  | nil => rfl
  | cons m l ih => rw [printMembers, ih, List.map_cons, printMember]

section
variable {α : Type*} {item : Str → Option (α × Str)} {text : α → Str} {close : BitVec 16}

/-- Printed items, separated by commas, are read again. -/
theorem itemsFrom_print (hclose : isSpace close = false ∧ isDigit close = false ∧ close ≠ comma)
    {l : List α} (hl : l ≠ []) (hitem : ∀ a ∈ l, ∀ r, NoDigit r → item (text a ++ r) = some (a, r))
    (r : Str) {n : ℕ} (hn : l.length ≤ n) :
    itemsFrom item close n ([comma].intercalate (l.map text) ++ close :: r) = some (l, r) := by
  induction l generalizing n with
  | nil => exact absurd rfl hl
  | cons a l ih =>
    obtain ⟨ha, hl'⟩ := List.forall_mem_cons.mp hitem
    obtain ⟨n, rfl⟩ : ∃ m, n = m + 1 := Nat.exists_eq_add_one.mpr (Nat.lt_of_lt_of_le (by simp) hn)
    cases l with
    | nil =>
      rw [List.map_singleton, List.intercalate_singleton, itemsFrom, ha _ (noDigit_cons hclose.2.1),
        Option.bind_some, skip_cons hclose.1]
      simp only [if_neg hclose.2.2, if_true]
    | cons b l =>
      have hn' : (b :: l).length ≤ n := Nat.le_of_succ_le_succ hn
      rw [List.map_cons, List.map_cons, List.intercalate_cons_cons, List.append_assoc,
        List.append_assoc, itemsFrom, List.singleton_append, ha _ (noDigit_cons (by decide)),
        Option.bind_some, skip_cons (by decide)]
      simp only [if_true]
      rw [← List.map_cons, ih (by simp) hl' hn', Option.map_some]

theorem length_le_intercalate {ts : List Str} (h : ∀ t ∈ ts, t ≠ []) :
    ts.length ≤ ([comma].intercalate ts).length ∧
      ∀ t ∈ ts, t.length ≤ ([comma].intercalate ts).length := by
  induction ts with
  | nil => simp
  | cons t ts ih =>
    obtain ⟨ht, hts⟩ := List.forall_mem_cons.mp h
    have hpos := List.length_pos_of_ne_nil ht
    obtain ⟨ih, ih'⟩ := ih hts
    cases ts with
    | nil =>
      simp only [List.intercalate_singleton, List.length_singleton, List.mem_singleton]
      exact ⟨hpos, fun u hu => hu ▸ Nat.le_refl _⟩
    | cons u ts =>
      rw [List.intercalate_cons_cons]
      simp only [List.length_append, List.length_cons] at ih ⊢
      refine ⟨by omega, fun v hv => ?_⟩
      rcases List.mem_cons.mp hv with rfl | hv
      · omega
      · have := ih' v hv
        omega

theorem items_print (hclose : isSpace close = false ∧ isDigit close = false ∧ close ≠ comma)
    {l : List α} (hitem : ∀ a ∈ l, ∀ r, NoDigit r → item (text a ++ r) = some (a, r))
    (hhead : ∀ a ∈ l, ∃ c s, text a = c :: s ∧ isSpace c = false ∧ c ≠ close) (r : Str) :
    items item close ([comma].intercalate (l.map text) ++ close :: r) = some (l, r) := by
  cases l with
  | nil =>
    rw [List.map_nil, List.intercalate_nil, List.nil_append, items, skip_cons hclose.1]
    simp only [if_true]
  | cons a l =>
    have hne : ∀ t ∈ (a :: l).map text, t ≠ [] := by
      intro t ht
      obtain ⟨b, hb, rfl⟩ := List.mem_map.mp ht
      obtain ⟨c, s, hc, -⟩ := hhead b hb
      simp [hc]
    have hlen := (length_le_intercalate hne).1
    obtain ⟨c, s, hc, hspace, hne⟩ := hhead a (List.mem_cons_self ..)
    obtain ⟨s', hs'⟩ : ∃ s', [comma].intercalate ((a :: l).map text) = c :: s' := by
      cases l with
      | nil => exact ⟨s, by rw [List.map_singleton, List.intercalate_singleton, hc]⟩
      | cons b l =>
        rw [List.map_cons, List.map_cons, List.intercalate_cons_cons, hc]
        exact ⟨_, rfl⟩
    have hskip : skip ([comma].intercalate ((a :: l).map text) ++ close :: r)
        = c :: (s' ++ close :: r) := by
      rw [hs', List.cons_append, skip_cons hspace]
    rw [items, hskip]
    simp only [if_neg hne]
    refine itemsFrom_print hclose (by simp) hitem r ?_
    rw [List.length_map] at hlen
    rw [List.length_append]
    omega

end

theorem printNumber_head (n : ℤ) :
    ∃ c s, printNumber n = c :: s ∧ (c = minus ∨ isDigit c = true) := by
  rw [printNumber]
  split
  · exact ⟨_, _, rfl, Or.inl rfl⟩
  · cases h : printNat n.natAbs with
    | nil => exact absurd h (printNat_ne_nil _)
    | cons c s =>
      have hd := isDigit_of_mem_printNat (n := n.natAbs) c (by simp [h])
      exact ⟨c, s, rfl, Or.inr hd⟩

theorem isDigit_ne {c : BitVec 16} (h : isDigit c = true) :
    isSpace c = false ∧ c ≠ quote ∧ c ≠ leftBracket ∧ c ≠ rightBracket ∧ c ≠ leftBrace ∧
      c ≠ minus := by
  refine ⟨?_, ?_, ?_, ?_, ?_, ?_⟩
  · by_contra hs
    simp only [isSpace, Bool.not_eq_false, decide_eq_true_eq] at hs
    rcases hs with rfl | rfl | rfl | rfl <;> revert h <;> decide
  all_goals
    rintro rfl
    revert h
    decide

/-- What a value's text begins with. -/
theorem print_head (v : Value) :
    ∃ c s, print v = c :: s ∧ isSpace c = false ∧ c ≠ rightBracket := by
  cases v with
  | null => exact ⟨_, _, rfl, by decide, by decide⟩
  | bool b => cases b <;> exact ⟨_, _, rfl, by decide, by decide⟩
  | number n =>
    obtain ⟨c, s, hc, rfl | hd⟩ := printNumber_head n
    · exact ⟨_, s, hc, by decide, by decide⟩
    · exact ⟨c, s, hc, (isDigit_ne hd).1, (isDigit_ne hd).2.2.2.1⟩
  | string s => exact ⟨_, _, rfl, by decide, by decide⟩
  | array items => exact ⟨_, _, rfl, by decide, by decide⟩
  | object members => exact ⟨_, _, rfl, by decide, by decide⟩

theorem value_number (n : ℤ) {fuel : ℕ} {r : Str} (hr : NoDigit r) :
    value (fuel + 1) (printNumber n ++ r) = some (.number n, r) := by
  rw [printNumber]
  split
  · rw [List.cons_append, value, skip_cons (by decide)]
    simp only [if_neg (show minus ≠ quote by decide), if_neg (show minus ≠ leftBracket by decide),
      if_neg (show minus ≠ leftBrace by decide), if_true, natural_print hr, Option.map_some]
    have hn : -(n.natAbs : ℤ) = n := by omega
    rw [hn]
  · have hnat := natural_print (n := n.natAbs) hr
    obtain ⟨c, s, hc⟩ := List.exists_cons_of_ne_nil (printNat_ne_nil n.natAbs)
    have hd := isDigit_of_mem_printNat (n := n.natAbs) c (by simp [hc])
    obtain ⟨h1, h2, h3, -, h4, h5⟩ := isDigit_ne hd
    rw [hc, List.cons_append] at hnat ⊢
    rw [value, skip_cons h1]
    simp only [if_neg h2, if_neg h3, if_neg h4, if_neg h5, if_pos hd, hnat, Option.map_some]
    have hn : (n.natAbs : ℤ) = n := by omega
    rw [hn]

theorem fuel_pos {v : Value} {fuel : ℕ} (h : (print v).length ≤ fuel) : ∃ n, fuel = n + 1 := by
  obtain ⟨c, s, hc, -⟩ := print_head v
  rw [hc] at h
  exact Nat.exists_eq_add_one.mpr (Nat.lt_of_lt_of_le (by simp) h)

/-- The parts of a bracketed text are shorter than the whole. -/
theorem length_part {ts : List Str} {c d : BitVec 16} {fuel : ℕ} (hne : ∀ t ∈ ts, t ≠ [])
    (h : (c :: ([comma].intercalate ts ++ [d])).length ≤ fuel + 1) : ∀ t ∈ ts, t.length ≤ fuel := by
  intro t ht
  have := (length_le_intercalate hne).2 t ht
  rw [List.length_cons, List.length_append] at h
  omega

/-- A printed value is read again, whatever follows it. -/
theorem value_print (v : Value) : ∀ {fuel : ℕ} {r : Str}, (print v).length ≤ fuel → NoDigit r →
    value fuel (print v ++ r) = some (v, r) := by
  induction v using Value.ind <;> intro fuel r hfuel hr <;> obtain ⟨fuel, rfl⟩ := fuel_pos hfuel
  case null => rfl
  case bool b => cases b <;> rfl
  case number n => exact value_number n hr
  case string s =>
    rw [print, printString, List.cons_append, List.cons_append, List.append_assoc, value,
      skip_cons (by decide)]
    simp only [if_true, List.singleton_append, stringBody_print, Option.map_some]
  case array l ih =>
    rw [print, printItems_eq] at hfuel ⊢
    have hlen := length_part (fun t ht => by
      obtain ⟨v, -, rfl⟩ := List.mem_map.mp ht
      obtain ⟨c, s, hc, -⟩ := print_head v
      simp [hc]) hfuel
    have hitems : items (value fuel) rightBracket
        ([comma].intercalate (l.map print) ++ rightBracket :: r) = some (l, r) :=
      items_print (by decide) (fun v hv r => ih v hv (hlen _ (List.mem_map_of_mem hv)))
        (fun v _ => print_head v) r
    rw [List.cons_append, List.append_assoc, List.singleton_append, value, skip_cons (by decide)]
    simp only [if_neg (show leftBracket ≠ quote by decide), if_true, hitems, Option.map_some]
  case object l ih =>
    rw [print, printMembers_eq] at hfuel ⊢
    have hlen := length_part (fun t ht => by
      obtain ⟨m, -, rfl⟩ := List.mem_map.mp ht
      simp [printMember, printString]) hfuel
    have hmember : ∀ m ∈ l, ∀ r, NoDigit r →
        memberOf (value fuel) (printMember m ++ r) = some (m, r) := by
      intro m hm r hr
      have hlenm := hlen _ (List.mem_map_of_mem hm)
      have hv : (print m.2).length ≤ fuel := by
        rw [printMember, List.length_append, List.length_cons] at hlenm
        omega
      rw [printMember, printString, List.cons_append, List.cons_append, List.cons_append,
        List.append_assoc, List.append_assoc, memberOf, skip_cons (by decide)]
      simp only [if_true, List.nil_append, List.cons_append, stringBody_print,
        Option.bind_some, skip_cons (show isSpace colon = false by decide), ih m hm hv hr,
        Option.map_some]
    have hitems : items (memberOf (value fuel)) rightBrace
        ([comma].intercalate (l.map printMember) ++ rightBrace :: r) = some (l, r) :=
      items_print (by decide) hmember (fun m _ => ⟨_, _, rfl, by decide, by decide⟩) r
    rw [List.cons_append, List.append_assoc, List.singleton_append, value, skip_cons (by decide)]
    simp only [if_neg (show leftBrace ≠ quote by decide),
      if_neg (show leftBrace ≠ leftBracket by decide), if_true, hitems, Option.map_some]

/-- The parser inverts the printer. -/
theorem parse_print (v : Value) : parse (print v) = some v := by
  have h := value_print v (Nat.le_refl _) (r := []) (by simp [NoDigit])
  rw [List.append_nil] at h
  rw [parse, h]
  rfl

/-! ## Records -/

/-- The members of a record: those that have a value. -/
def present (fields : List (Str × Option Value)) : List (Str × Value) :=
  fields.filterMap fun f => f.2.map fun v => (f.1, v)

/-- All members are known. -/
def knows (names : List Str) (members : List (Str × Value)) : Bool :=
  members.all fun m => m.1 ∈ names

section
variable {α : Type*} (decode : Value → Option α)

/-- The value of a member, the last one of its name; all of that name have to be right. -/
def field (name : Str) (members : List (Str × Value)) : Option (Option α) :=
  ((members.filter (·.1 = name)).mapM fun m => decode m.2).map List.getLast?

/-- A value that may be `null`. -/
def nullable : Value → Option (Option α)
  | .null => some none
  | v => (decode v).map some

end

section
variable {α : Type*} {decode : Value → Option α} {name : Str}
  {fields : List (Str × Option Value)}

theorem knows_present {names : List Str} (h : ∀ f ∈ fields, f.1 ∈ names) :
    knows names (present fields) = true := by
  simp only [knows, List.all_eq_true, decide_eq_true_eq]
  intro m hm
  obtain ⟨f, hf, he⟩ := List.mem_filterMap.mp hm
  obtain ⟨v, -, rfl⟩ := Option.map_eq_some_iff.mp he
  exact h f hf

theorem filter_present (hn : (fields.map (·.1)).Nodup) {v : Option Value}
    (h : (name, v) ∈ fields) :
    (present fields).filter (·.1 = name) = v.toList.map fun v => (name, v) := by
  induction fields with
  | nil => cases h
  | cons f fields ih =>
    obtain ⟨hf, hn⟩ := List.nodup_cons.mp hn
    rcases List.mem_cons.mp h with rfl | h
    · have hrest : (present fields).filter (·.1 = name) = [] := by
        refine List.filter_eq_nil_iff.mpr fun m hm => ?_
        obtain ⟨f, hf', he⟩ := List.mem_filterMap.mp hm
        obtain ⟨w, -, rfl⟩ := Option.map_eq_some_iff.mp he
        simp only [decide_eq_true_eq]
        rintro rfl
        exact hf (List.mem_map.mpr ⟨f, hf', rfl⟩)
      cases v with
      | none => exact hrest
      | some w =>
        have hcons : present ((name, some w) :: fields) = (name, w) :: present fields := rfl
        rw [hcons, List.filter_cons_of_pos (by simp), hrest]
        rfl
    · have hne : f.1 ≠ name := by
        rintro rfl
        exact hf (List.mem_map.mpr ⟨_, h, rfl⟩)
      cases hv : f.2 with
      | none =>
        have hcons : present (f :: fields) = present fields := by simp [present, hv]
        rw [hcons, ih hn h]
      | some w =>
        have hcons : present (f :: fields) = (f.1, w) :: present fields := by simp [present, hv]
        rw [hcons, List.filter_cons_of_neg (by simpa using hne), ih hn h]

/-- A member that is there is found, one that is left out is not. -/
theorem field_present (hn : (fields.map (·.1)).Nodup) {v : Option Value} (h : (name, v) ∈ fields) :
    field decode name (present fields) = v.elim (some none) fun v => (decode v).map some := by
  rw [field, filter_present hn h]
  cases v with
  | none => rfl
  | some v => cases hd : decode v <;> simp [hd]

theorem mem_of_mapM {γ : Type*} {f : γ → Option α} {l : List γ} {as : List α} {a : α}
    (h : l.mapM f = some as) (ha : a ∈ as) : ∃ c ∈ l, f c = some a := by
  induction l generalizing as with
  | nil =>
    cases h
    cases ha
  | cons c l ih =>
    simp only [List.mapM_cons, Option.bind_eq_bind, Option.bind_eq_some_iff, Option.pure_def,
      Option.some.injEq] at h
    obtain ⟨b, hb, bs, hbs, rfl⟩ := h
    rcases List.mem_cons.mp ha with rfl | ha
    · exact ⟨c, List.mem_cons_self .., hb⟩
    · obtain ⟨d, hd, hfd⟩ := ih hbs ha
      exact ⟨d, List.mem_cons_of_mem _ hd, hfd⟩

/-- The value of a member is one that was decoded. -/
theorem field_spec {members : List (Str × Value)} {a : α}
    (h : field decode name members = some (some a)) :
    ∃ v, (name, v) ∈ members ∧ decode v = some a := by
  obtain ⟨as, has, ha⟩ := Option.map_eq_some_iff.mp h
  obtain ⟨m, hm, hdecode⟩ := mem_of_mapM has (List.mem_of_getLast? ha)
  obtain ⟨hmem, hname⟩ := List.mem_filter.mp hm
  obtain rfl := of_decide_eq_true hname
  exact ⟨m.2, hmem, hdecode⟩

end

end Json
