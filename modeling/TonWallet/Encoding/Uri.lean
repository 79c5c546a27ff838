import TonWallet.Encoding.Currency
import TonWallet.Lib.JsonWeight
import TonWallet.Lib.Segments
import Mathlib.Data.List.Nodup

/-!
# Routes

A route is a path, a query and a fragment. The query is split at `&` and each
segment at its first `=`; the arguments are percent-decoded. A placeholder of a
path stands for one code unit or more, none of them a `/`. Numbers are written
in decimal.

* `percentDecode_twice`: exactly the texts without `%` survive two decodings.
* `rawParameters_length`, `capture_spec`: arguments are no longer than the values
  the route was made of.
* `queryParameter_route`, `capture_values`: values without separators are read
  as they were written.
-/

namespace TonWallet.Encoding

open Nat (toDigits ofDigitChars)

def percent : Char16 := 0x25
def ampersand : Char16 := 0x26
def slash : Char16 := 0x2F
def equals : Char16 := 0x3D
def questionMark : Char16 := 0x3F
def hash : Char16 := 0x23

/-! ## Percent-decoding -/

/-- The byte of two hexadecimal digits. -/
def hexByte (h l : Char16) : Option Byte :=
  (Json.hexValue h).bind fun a => (Json.hexValue l).map fun b => BitVec.ofNat 8 (a * 16 + b)

/-- `Uri.decode`, after the bytes of escapes that have not been decoded yet. An escape that is
none becomes U+FFFD. -/
def percentDecodeFrom (pending : Bytes) : Text → Text
  | [] => decodeToString pending
  | c :: s =>
    if c = percent then
      match s with
      | h :: l :: u =>
        match hexByte h l with
        | some b => percentDecodeFrom (pending ++ [b]) u
        | none => decodeToString pending ++ 0xFFFD :: percentDecodeFrom [] (h :: l :: u)
      | s => decodeToString pending ++ 0xFFFD :: percentDecodeFrom [] s
    else decodeToString pending ++ c :: percentDecodeFrom [] s

/-- `Uri.decode`. -/
def percentDecode (s : Text) : Text := percentDecodeFrom [] s

example : percentDecode (text "a%26b%") = text "a&b\uFFFD" := by decide +kernel

theorem length_codeUnits (n : ℕ) :
    (codeUnits n).length ≤ 2 ∧ (n < 0x10000 → (codeUnits n).length = 1) ∧ codeUnits n ≠ [] := by
  rw [codeUnits]
  split <;> simp_all

/-- A first byte gives a code unit, or begins a sequence. -/
theorem length_utf8Lead (b : Byte) :
    (utf8Lead b.toNat).1.length ≤ 1 ∧
      ((utf8Lead b.toNat).2.isSome → (utf8Lead b.toNat).1 = []) ∧
      ((utf8Lead b.toNat).2 = none → (utf8Lead b.toNat).1 ≠ []) := by
  obtain ⟨-, hone, hne⟩ := length_codeUnits b.toNat
  have hlen := hone (by omega)
  rw [utf8Lead]
  split
  · simp [hlen, hne]
  · split
    · simp
    · split
      · simp
      · split <;> simp

/-- Decoding gives no more code units than there are bytes, those of the sequence that has been
begun counting as one. -/
theorem length_utf8Decode (st : Option Utf8State) (s : Bytes) :
    (utf8Decode st s).length ≤ s.length + st.toList.length := by
  have hlead : ∀ (b : Byte) (s : Bytes),
      (∀ st, (utf8Decode st s).length ≤ s.length + st.toList.length) →
      ((utf8Lead b.toNat).1 ++ utf8Decode (utf8Lead b.toNat).2 s).length ≤ s.length + 1 := by
    intro b s ih
    obtain ⟨hle, hsome, -⟩ := length_utf8Lead b
    have h := ih (utf8Lead b.toNat).2
    rw [List.length_append]
    cases hst : (utf8Lead b.toNat).2 with
    | none =>
      rw [hst] at h
      simp only [Option.toList_none, List.length_nil] at h
      omega
    | some st =>
      rw [hst] at h hsome
      rw [hsome rfl]
      simp only [Option.toList_some, List.length_singleton] at h
      simpa using h
  induction s generalizing st with
  | nil => cases st <;> simp [utf8Decode]
  | cons b s ih =>
    cases st with
    | none => exact hlead b s ih
    | some st =>
      rw [utf8Decode]
      simp only [Option.toList_some, List.length_cons]
      split
      · split
        · have := (length_codeUnits (st.code * 0x40 + b.toNat % 0x40)).1
          have := ih none
          simp only [Option.toList_none, List.length_nil] at this
          rw [List.length_append]
          omega
        · exact (ih _).trans (by simp)
      · rw [List.cons_append, List.length_cons]
        have := hlead b s ih
        omega

theorem utf8Decode_eq_nil {st : Option Utf8State} {s : Bytes} (h : utf8Decode st s = []) :
    st = none ∧ s = [] := by
  induction s generalizing st with
  | nil => cases st <;> simp_all [utf8Decode]
  | cons b s ih =>
    exfalso
    obtain ⟨-, -, hne⟩ := length_utf8Lead b
    cases st with
    | none =>
      rw [utf8Decode, List.append_eq_nil_iff] at h
      exact hne (ih h.2).1 h.1
    | some st =>
      rw [utf8Decode] at h
      split at h
      · split at h
        · exact (length_codeUnits _).2.2 (List.append_eq_nil_iff.mp h).1
        · exact absurd (ih h).1 (by simp)
      · simp at h

theorem length_decodeToString (s : Bytes) : (decodeToString s).length ≤ s.length :=
  length_utf8Decode none s

/-- Percent-decoding makes no text longer. -/
theorem length_percentDecodeFrom (pending : Bytes) (s : Text) :
    (percentDecodeFrom pending s).length ≤ pending.length + s.length := by
  fun_induction percentDecodeFrom pending s with
  | case1 pending => exact length_decodeToString pending
  | case2 pending h l u b hb ih =>
    simp only [List.length_append, List.length_cons, List.length_nil] at ih ⊢
    omega
  | _ pending =>
    have := length_decodeToString pending
    simp only [List.length_append, List.length_cons, List.length_nil] at *
    omega

theorem length_percentDecode (s : Text) : (percentDecode s).length ≤ s.length := by
  have h := length_percentDecodeFrom [] s
  rwa [List.length_nil, Nat.zero_add] at h

theorem percentDecodeFrom_eq_nil {pending : Bytes} {s : Text}
    (h : percentDecodeFrom pending s = []) : pending = [] ∧ s = [] := by
  fun_induction percentDecodeFrom pending s with
  | case1 pending => exact ⟨(utf8Decode_eq_nil h).2, rfl⟩
  | case2 pending d l u b hb ih => simpa using (ih h).1
  | _ => simp at h

theorem percentDecode_eq_nil {s : Text} (h : percentDecode s = []) : s = [] :=
  (percentDecodeFrom_eq_nil h).2

theorem percentDecode_of_not_mem {s : Text} (h : percent ∉ s) : percentDecode s = s := by
  induction s with
  | nil => rfl
  | cons c s ih =>
    have ih : percentDecodeFrom [] s = s := ih (List.not_mem_of_not_mem_cons h)
    rw [percentDecode, percentDecodeFrom.eq_def]
    simp only [if_neg (List.ne_of_not_mem_cons h).symm, ih]
    rfl

/-- A text that keeps its length had no escapes. -/
theorem percent_not_mem_of_length {s : Text} (h : (percentDecode s).length = s.length) :
    percent ∉ percentDecode s := by
  have hcons : ∀ (c : Char16) (u : Text), c ≠ percent → percent ∉ u →
      percent ∉ decodeToString [] ++ c :: u := by
    intro c u hc hu
    simpa [decodeToString, utf8Decode, hu] using Ne.symm hc
  have key : ∀ pending : Bytes, pending = [] → (percentDecodeFrom pending s).length = s.length →
      percent ∉ percentDecodeFrom pending s := by
    clear h
    intro pending hp h
    fun_induction percentDecodeFrom pending s with
    | case1 pending => simp [hp, decodeToString, utf8Decode]
    | case2 pending d l u b hb ih =>
      have := length_percentDecodeFrom (pending ++ [b]) u
      simp only [hp, List.nil_append, List.length_cons, List.length_nil] at h this
      omega
    | case3 pending d l u hb ih | case4 pending u hu ih =>
      subst hp
      exact hcons _ _ (by decide) (ih rfl (by simpa [decodeToString, utf8Decode] using h))
    | case5 pending c u hc ih =>
      subst hp
      exact hcons _ _ hc (ih rfl (by simpa [decodeToString, utf8Decode] using h))
  exact key [] rfl h

/-- A weight of code units. A `%` weighs so much that no escape of a byte is lighter than a code
unit. -/
def unitWeight (c : Char16) : ℕ := if c.toNat < 0x20 then 6 else if c = percent then 5 else 1

theorem unitWeight_le (c : Char16) : 0 < unitWeight c ∧ unitWeight c ≤ 6 := by
  rw [unitWeight]
  split
  · decide
  · split <;> decide

theorem unitWeight_control (c : Char16) (h : c.toNat < 0x20) : unitWeight c = 6 := if_pos h

theorem unitWeight_escape (c : Char16) (hc : c ∈ Json.escapeUnits) : unitWeight c = 1 := by
  have hall : (Json.escapeUnits.all fun c => 0x20 ≤ c.toNat ∧ c ≠ percent) = true := by decide
  obtain ⟨hle, hne⟩ := of_decide_eq_true (List.all_eq_true.mp hall c hc)
  rw [unitWeight, if_neg (by omega), if_neg hne]

theorem unitWeight_mark (c : Char16) (hc : c ∈ [Json.comma, Json.colon, Json.minus,
    Json.leftBracket, Json.rightBracket, Json.leftBrace, Json.rightBrace]) : unitWeight c = 1 := by
  simp only [List.mem_cons, List.not_mem_nil, or_false] at hc
  rcases hc with rfl | rfl | rfl | rfl | rfl | rfl | rfl <;> rfl

theorem unitWeight_digit (c : Char16) (h : Json.isDigit c) : unitWeight c = 1 := by
  have hne : c ≠ percent := by
    rintro rfl
    revert h
    decide
  simp only [Json.isDigit, decide_eq_true_eq] at h
  rw [unitWeight, if_neg (by omega), if_neg hne]

def routeWeight : Json.Weight where
  of := unitWeight
  pos c := (unitWeight_le c).1
  le c := (unitWeight_le c).2
  control := unitWeight_control
  unit := unitWeight_escape
  mark := unitWeight_mark
  digit := unitWeight_digit

theorem count_percent_cons (c : Char16) (s : Text) :
    1 + (c :: s).count percent ≤ routeWeight.of c + s.count percent := by
  have hpos := routeWeight.pos c
  by_cases hc : c = percent
  · subst c
    have hpercent : routeWeight.of percent = 5 := rfl
    rw [List.count_cons_self]
    omega
  · rw [List.count_cons_of_ne hc]
    omega

/-- Percent-decoding makes every text with a `%` lighter. -/
theorem total_percentDecodeFrom (pending : Bytes) (s : Text) :
    routeWeight.total (percentDecodeFrom pending s) + s.count percent
      ≤ 6 * pending.length + routeWeight.total s := by
  have hbytes : ∀ bytes : Bytes, routeWeight.total (decodeToString bytes) ≤ 6 * bytes.length := by
    intro bytes
    have hlen := length_decodeToString bytes
    have hle := routeWeight.total_le (decodeToString bytes)
    omega
  have hpercent : routeWeight.of percent = 5 := rfl
  have hreplaced : routeWeight.of 0xFFFD = 1 := rfl
  fun_induction percentDecodeFrom pending s with
  | case1 pending => simpa using hbytes pending
  | case2 pending h l u b hb ih =>
    have hh := count_percent_cons h (l :: u)
    have hl := count_percent_cons l u
    simp only [List.length_append, List.length_singleton, Json.Weight.total_cons,
      List.count_cons_self] at ih ⊢
    omega
  | case3 pending h l u hb ih | case4 pending u hu ih =>
    have hpending := hbytes pending
    simp only [List.length_nil, Json.Weight.total_append, Json.Weight.total_cons,
      List.count_cons_self] at ih ⊢
    omega
  | case5 pending c u hc ih =>
    have hpending := hbytes pending
    rw [List.count_cons_of_ne hc]
    simp only [List.length_nil, Json.Weight.total_append, Json.Weight.total_cons] at ih ⊢
    omega

theorem total_percentDecode (s : Text) :
    routeWeight.total (percentDecode s) + s.count percent ≤ routeWeight.total s := by
  have h := total_percentDecodeFrom [] s
  rwa [List.length_nil, Nat.mul_zero, Nat.zero_add] at h

/-! ## Queries -/

/-- The path of a route: what stands before its query and its fragment. -/
def pathOf (route : Text) : Text := route.takeWhile fun c => c ≠ questionMark ∧ c ≠ hash

/-- The query of a route: what stands between the first `?` and the first `#`. -/
def queryOf (route : Text) : Text :=
  match route.dropWhile fun c => c ≠ questionMark ∧ c ≠ hash with
  | [] => []
  | c :: s => if c = questionMark then s.takeWhile (· ≠ hash) else []

/-- The first value of a name, as it is written. -/
def rawParameter (name query : Text) : Option Text :=
  ((query.splitOn ampersand).find? fun s => (name ++ [equals]).isPrefixOf s).map
    (·.drop (name.length + 1))

/-- `Uri.getQueryParameters(name)`, the first of them. -/
def queryParameter (name route : Text) : Option Text :=
  (rawParameter name (queryOf route)).map percentDecode

/-- A segment of a query, and a query, as the routes are put together. -/
def segmentOf (p : Text × Text) : Text := p.1 ++ equals :: p.2
def query (ps : List (Text × Text)) : Text := [ampersand].intercalate (ps.map segmentOf)

/-- `"$path?$name=$value&…"`. -/
def route (path : Text) (ps : List (Text × Text)) : Text := path ++ questionMark :: query ps

section
variable {path : Text} {ps : List (Text × Text)}

theorem ne_of_path (h : questionMark ∉ path ∧ hash ∉ path) :
    ∀ c ∈ path, decide (c ≠ questionMark ∧ c ≠ hash) = true :=
  fun _ hc => decide_eq_true ⟨fun e => h.1 (e ▸ hc), fun e => h.2 (e ▸ hc)⟩

theorem pathOf_route (h : questionMark ∉ path ∧ hash ∉ path) :
    pathOf (route path ps) = path := by
  rw [pathOf, route, List.takeWhile_append_of_pos (ne_of_path h)]
  simp

/-- A path without `?` and `#` is its own path. -/
theorem pathOf_self {s : Text} : pathOf s = s ↔ questionMark ∉ s ∧ hash ∉ s := by
  rw [pathOf, List.takeWhile_eq_self_iff]
  constructor
  · intro h
    exact ⟨fun hc => by simpa using h _ hc, fun hc => by simpa using h _ hc⟩
  · exact fun h => ne_of_path h

theorem queryOf_route (h : questionMark ∉ path ∧ hash ∉ path) :
    queryOf (route path ps) = (query ps).takeWhile (· ≠ hash) := by
  rw [queryOf, route, List.dropWhile_append_of_pos (ne_of_path h)]
  simp

/-- The first value of a name is that of a segment. -/
theorem rawParameter_spec {p : Text × Text} {q : Text} (h : rawParameter p.1 q = some p.2) :
    segmentOf p ∈ q.splitOn ampersand := by
  obtain ⟨s, hs, hv⟩ := Option.map_eq_some_iff.mp h
  obtain ⟨v, hv'⟩ : p.1 ++ [equals] <+: s := by simpa using List.find?_some hs
  rw [← hv', List.drop_left' (by simp)] at hv
  have hsplit : s = segmentOf p := by simp [← hv', hv, segmentOf]
  exact hsplit ▸ List.mem_of_find?_eq_some hs

/-- A name has a value if there is a segment of that name. -/
theorem rawParameter_of_mem {p : Text × Text} {q : Text} (h : segmentOf p ∈ q.splitOn ampersand) :
    ∃ v, rawParameter p.1 q = some v := by
  have hp : segmentOf p = (p.1 ++ [equals]) ++ p.2 := by simp [segmentOf]
  have hsome : ((q.splitOn ampersand).find? fun s => (p.1 ++ [equals]).isPrefixOf s).isSome := by
    rw [List.find?_isSome]
    exact ⟨segmentOf p, h, by simp [hp]⟩
  obtain ⟨s, hs⟩ := Option.isSome_iff_exists.mp hsome
  exact ⟨_, by rw [rawParameter, hs, Option.map_some]⟩

theorem segment_inj {p p' : Text × Text} (h : equals ∉ p.1) (h' : equals ∉ p'.1)
    (he : segmentOf p = segmentOf p') : p = p' :=
  Prod.ext_iff.mpr (Segments.separated_inj h h' he)

/-- What is left of a value at the end of a route. -/
def firstPart (s : Text) : Text := (s.takeWhile (· ≠ hash)).takeWhile (· ≠ ampersand)

theorem segment_eq (p : Text × Text) : segmentOf p = (p.1 ++ [equals]) ++ p.2 := by simp [segmentOf]

theorem drop_segment (p : Text × Text) : (segmentOf p).drop (p.1.length + 1) = p.2 := by
  rw [segment_eq, List.drop_left' (by simp)]

theorem isPrefixOf_segment {name : Text} {p : Text × Text} (hn : equals ∉ name)
    (hp : equals ∉ p.1) : (name ++ [equals]).isPrefixOf (segmentOf p) = decide (name = p.1) := by
  rw [Bool.eq_iff_iff, List.isPrefixOf_iff_prefix, decide_eq_true_iff]
  constructor
  · rintro ⟨v, hv⟩
    exact congrArg Prod.fst (segment_inj (p := (name, v)) hn hp (by rw [segment_eq, ← hv]))
  · rintro rfl
    rw [segment_eq]
    exact List.prefix_append ..

theorem takeWhile_segment {name : Text} (value : Text) {c : Char16} (hn : c ∉ name)
    (hc : c ≠ equals) :
    (segmentOf (name, value)).takeWhile (· ≠ c) = segmentOf (name, value.takeWhile (· ≠ c)) := by
  have hname : ∀ d ∈ name ++ [equals], decide (d ≠ c) = true := by
    intro d hd
    refine decide_eq_true ?_
    rintro rfl
    simp only [List.mem_append, List.mem_singleton] at hd
    exact hd.elim hn hc
  rw [segment_eq, segment_eq, List.takeWhile_append_of_pos hname]

/-- A value is that of the first segment or one of the others. -/
theorem rawParameter_cons {p : Text × Text} {name q : Text} (hp : ampersand ∉ segmentOf p)
    (hn : equals ∉ name) (hp' : equals ∉ p.1) :
    rawParameter name (segmentOf p ++ ampersand :: q)
      = if name = p.1 then some p.2 else rawParameter name q := by
  rw [rawParameter, List.splitOn_append_cons_self_of_not_mem hp, List.find?_cons,
    isPrefixOf_segment hn hp']
  by_cases he : name = p.1
  · simp only [he, decide_true, if_true, Option.map_some, drop_segment]
  · simp only [he, decide_false, if_false]
    rfl

/-- What stands before the first separator of a segment does not depend on what follows it. -/
theorem takeWhile_segments (s : Text) {q : Text} (hq : ∀ c ∈ q.head?, c = ampersand) :
    ((s ++ q).takeWhile (· ≠ hash)).takeWhile (· ≠ ampersand)
      = (s.takeWhile (· ≠ hash)).takeWhile (· ≠ ampersand) := by
  induction s with
  | nil =>
    cases q with
    | nil => rfl
    | cons c q =>
      obtain rfl := hq c rfl
      rw [List.nil_append, List.takeWhile_cons_of_pos (by decide),
        List.takeWhile_cons_of_neg (by decide)]
      rfl
  | cons c s ih =>
    rw [List.cons_append, List.takeWhile_cons, List.takeWhile_cons]
    by_cases hc : c = hash
    · simp [hc]
    · simp only [ne_eq, hc, not_false_eq_true, decide_true, if_true, List.takeWhile_cons]
      rw [ih]

/-- The value of the first name is what is left of it at a separator. -/
theorem rawParameter_segment {name : Text} (value : Text) {q : Text}
    (hq : ∀ c ∈ q.head?, c = ampersand) (ha : ampersand ∉ name) (hh : hash ∉ name)
    (he : equals ∉ name) :
    rawParameter name ((segmentOf (name, value) ++ q).takeWhile (· ≠ hash))
      = some (firstPart value) := by
  have hhead := Segments.head_splitOn ampersand
    ((segmentOf (name, value) ++ q).takeWhile (· ≠ hash))
  rw [takeWhile_segments _ hq, takeWhile_segment _ hh (by decide),
    takeWhile_segment _ ha (by decide)] at hhead
  obtain ⟨rest, hrest⟩ := List.head?_eq_some_iff.mp hhead
  rw [rawParameter, hrest, List.find?_cons, isPrefixOf_segment he he]
  simp only [decide_true, Option.map_some, Option.some.injEq]
  exact drop_segment (name, _)

/-- In a query whose values have no separators, but for the last one, all values are read as they
were written, but for the last one, which is cut off. -/
theorem rawParameter_query {p : Text × Text} (hnames : ((ps ++ [p]).map (·.1)).Nodup)
    (hps : ∀ p' ∈ ps, ampersand ∉ segmentOf p' ∧ hash ∉ segmentOf p' ∧ equals ∉ p'.1)
    (hp : ampersand ∉ p.1 ∧ hash ∉ p.1 ∧ equals ∉ p.1) :
    (∀ p' ∈ ps, rawParameter p'.1 ((query (ps ++ [p])).takeWhile (· ≠ hash)) = some p'.2) ∧
      rawParameter p.1 ((query (ps ++ [p])).takeWhile (· ≠ hash)) = some (firstPart p.2) := by
  induction ps with
  | nil =>
    refine ⟨fun _ h => (nomatch h), ?_⟩
    rw [List.nil_append, query, List.map_singleton, List.intercalate_singleton,
      ← List.append_nil (segmentOf p)]
    exact rawParameter_segment p.2 (fun _ h => nomatch h) hp.1 hp.2.1 hp.2.2
  | cons p₀ ps ih =>
    obtain ⟨⟨hamp, hhash, heq⟩, hps'⟩ := List.forall_mem_cons.mp hps
    rw [List.cons_append, List.map_cons, List.nodup_cons] at hnames
    obtain ⟨ih, ihp⟩ := ih hnames.2 hps'
    have hquery : query (p₀ :: ps ++ [p]) = segmentOf p₀ ++ ampersand :: query (ps ++ [p]) := by
      obtain ⟨p₁, ps₁, h₁⟩ := List.exists_cons_of_ne_nil (List.append_ne_nil_of_right_ne_nil ps
        (List.cons_ne_nil p []))
      rw [List.cons_append, h₁]
      simp [query, List.intercalate_cons_cons]
    have hcons : (query (p₀ :: ps ++ [p])).takeWhile (· ≠ hash)
        = segmentOf p₀ ++ ampersand :: (query (ps ++ [p])).takeWhile (· ≠ hash) := by
      have hall : ∀ c ∈ segmentOf p₀, decide (c ≠ hash) = true :=
        fun c hc => decide_eq_true fun e : c = hash => hhash (e ▸ hc)
      rw [hquery, List.takeWhile_append_of_pos hall, List.takeWhile_cons_of_pos (by decide)]
    have hne : ∀ n ∈ (ps ++ [p]).map (·.1), n ≠ p₀.1 := fun n hn e => hnames.1 (e ▸ hn)
    rw [hcons]
    refine ⟨List.forall_mem_cons.mpr ⟨?_, fun p' hp' => ?_⟩, ?_⟩
    · rw [rawParameter_cons hamp heq heq, if_pos rfl]
    · rw [rawParameter_cons hamp (hps' p' hp').2.2 heq, if_neg (hne _ ?_), ih p' hp']
      exact List.mem_map_of_mem (List.mem_append_left _ hp')
    · rw [rawParameter_cons hamp hp.2.2 heq, if_neg (hne _ ?_), ihp]
      exact List.mem_map_of_mem (List.mem_append_right _ (List.mem_singleton_self p))

theorem firstPart_of_not_mem {s : Text} (ha : ampersand ∉ s) (hh : hash ∉ s) :
    firstPart s = s := by
  have hne : ∀ {x : Char16}, x ∉ s → s.takeWhile (· ≠ x) = s := fun h =>
    List.takeWhile_eq_self_iff.mpr fun c hc => decide_eq_true fun e => h (e ▸ hc)
  rw [firstPart, hne hh, hne ha]

/-- Values without separators are read, percent-decoded, as they were written. -/
theorem queryParameter_route (hpath : questionMark ∉ path ∧ hash ∉ path)
    (hnames : (ps.map (·.1)).Nodup)
    (hps : ∀ p ∈ ps, ampersand ∉ segmentOf p ∧ hash ∉ segmentOf p ∧ equals ∉ p.1) {p : Text × Text}
    (hp : p ∈ ps) : queryParameter p.1 (route path ps) = some (percentDecode p.2) := by
  rcases List.eq_nil_or_concat ps with rfl | ⟨init, q, rfl⟩
  · cases hp
  rw [List.concat_eq_append] at *
  have hq := hps q (by simp)
  have hsegment : (ampersand ∉ q.1 ∧ hash ∉ q.1) ∧ ampersand ∉ q.2 ∧ hash ∉ q.2 := by
    simp only [segment_eq, List.mem_append, not_or] at hq
    exact ⟨⟨hq.1.1.1, hq.2.1.1.1⟩, hq.1.2, hq.2.1.2⟩
  obtain ⟨hinit, hlast⟩ := rawParameter_query hnames
    (fun p' hp' => hps p' (List.mem_append_left _ hp')) ⟨hsegment.1.1, hsegment.1.2, hq.2.2⟩
  rw [queryParameter, queryOf_route hpath]
  rcases List.mem_append.mp hp with hp | hp
  · rw [hinit p hp, Option.map_some]
  · rw [List.mem_singleton.mp hp, hlast, firstPart_of_not_mem hsegment.2.1 hsegment.2.2,
      Option.map_some]

/-- A query is cut off at a `#`. -/
theorem length_takeWhile_lt {s : Text} (v : Text) (h : hash ∈ s) :
    ((s ++ v).takeWhile (· ≠ hash)).length < s.length := by
  have hle := (List.takeWhile_sublist (fun c : Char16 => decide (c ≠ hash)) (l := s)).length_le
  have hne : (s.takeWhile (· ≠ hash)).length ≠ s.length := by
    intro he
    have hall := List.takeWhile_eq_self_iff.mp ((List.takeWhile_prefix _).eq_of_length he)
    simpa using hall hash h
  rw [List.takeWhile_append, if_neg hne]
  omega

/-- The last name of a query has a value, whatever the value has in it. -/
theorem rawParameter_last {q : Text} {p : Text × Text} (hq : hash ∉ q)
    (hp : ampersand ∉ p.1 ∧ hash ∉ p.1) :
    ∃ v, rawParameter p.1 ((q ++ ampersand :: segmentOf p).takeWhile (· ≠ hash)) = some v := by
  have hne : ∀ {s : Text} {x : Char16}, x ∉ s → ∀ c ∈ s, decide (c ≠ x) = true :=
    fun h c hc => decide_eq_true fun e => h (e ▸ hc)
  have hname : hash ∉ p.1 ++ [equals] ∧ ampersand ∉ p.1 ++ [equals] := by
    simp only [List.mem_append, List.mem_singleton, not_or]
    exact ⟨⟨hp.2, by decide⟩, hp.1, by decide⟩
  have htake : (q ++ ampersand :: segmentOf p).takeWhile (· ≠ hash)
      = q ++ ampersand :: (p.1 ++ [equals] ++ p.2.takeWhile (· ≠ hash)) := by
    rw [List.takeWhile_append_of_pos (hne hq), List.takeWhile_cons_of_pos (by decide),
      show segmentOf p = p.1 ++ [equals] ++ p.2 by simp [segmentOf],
      List.takeWhile_append_of_pos (hne hname.1)]
  generalize p.2.takeWhile (· ≠ hash) = w at htake
  refine rawParameter_of_mem (p := (p.1, w.takeWhile (· ≠ ampersand))) ?_
  rw [htake, List.splitOn_append_cons_self]
  refine List.mem_append_right _ ?_
  have hsegment : segmentOf (p.1, w.takeWhile (· ≠ ampersand))
      = (p.1 ++ [equals] ++ w).takeWhile (· ≠ ampersand) := by
    rw [List.takeWhile_append_of_pos (hne hname.2)]
    simp [segmentOf]
  rw [hsegment]
  exact List.mem_of_head? (Segments.head_splitOn ampersand _)

theorem length_segment (p : Text × Text) :
    (segmentOf p).length = p.1.length + p.2.length + 1 := by
  rw [segmentOf, List.length_append, List.length_cons]
  omega

theorem length_query (hne : ps ≠ []) :
    (query ps).length + 1 = ((ps.map segmentOf).map fun s => s.length + 1).sum := by
  induction ps with
  | nil => exact absurd rfl hne
  | cons p ps ih =>
    cases ps with
    | nil => simp [query]
    | cons p' ps =>
      have ih := ih (by simp)
      rw [query] at ih ⊢
      rw [List.map_cons, List.map_cons, List.intercalate_cons_cons, List.map_cons, List.sum_cons,
        ← List.map_cons, ← ih]
      simp only [List.length_append, List.length_singleton]
      omega

/-- What is read from a query, under names that differ, is not longer than what was written. It
is as long only if no value has a separator in it. -/
theorem rawParameters_length {qs : List (Text × Text)} (hne : qs ≠ [])
    (hnames : (qs.map (·.1)).Nodup) (hequals : ∀ p ∈ qs, equals ∉ p.1)
    (hqs : ∀ p ∈ qs, rawParameter p.1 ((query ps).takeWhile (· ≠ hash)) = some p.2) :
    (query qs).length ≤ (query ps).length ∧ ((query qs).length = (query ps).length →
      hash ∉ query ps ∧ (query ps).count ampersand + 1 = qs.length) := by
  have hle : ((query ps).takeWhile (· ≠ hash)).length ≤ (query ps).length :=
    (List.takeWhile_sublist _).length_le
  have hnd : (qs.map segmentOf).Nodup := by
    refine List.Nodup.map_on ?_ (List.Nodup.of_map _ hnames)
    exact fun p hp p' hp' he => segment_inj (hequals p hp) (hequals p' hp') he
  have hmem : ∀ s ∈ qs.map segmentOf, s ∈ ((query ps).takeWhile (· ≠ hash)).splitOn ampersand := by
    intro s hs
    obtain ⟨p, hp, rfl⟩ := List.mem_map.mp hs
    exact rawParameter_spec (hqs p hp)
  obtain ⟨hsegs, heq⟩ := Segments.segments_length hnd hmem
  rw [← length_query hne] at hsegs heq
  refine ⟨by omega, fun h => ?_⟩
  have hself : (query ps).takeWhile (· ≠ hash) = query ps :=
    (List.takeWhile_prefix _).eq_of_length (by omega)
  rw [hself, List.length_map] at heq
  refine ⟨fun hmem => ?_, heq (by omega)⟩
  have := List.takeWhile_eq_self_iff.mp hself hash hmem
  simp at this

end

/-! ## Placeholders -/

/-- The texts of the placeholders of a path, which are separated by `literals`: each is as short
as it can be. -/
def captures : List Text → Text → Option (List Text)
  | [], s => if s ≠ [] ∧ slash ∉ s then some [s] else none
  | literal :: literals, s =>
    (List.range s.length).findSome? fun n =>
      let v := s.take (n + 1)
      if slash ∉ v ∧ literal <+: s.drop (n + 1) then
        (captures literals ((s.drop (n + 1)).drop literal.length)).map (v :: ·)
      else none

/-- The texts of the placeholders of a path that begins with a literal. -/
def matchPath (literal : Text) (literals : List Text) (path : Text) : Option (List Text) :=
  if literal <+: path then captures literals (path.drop literal.length) else none

/-- Texts, separated by literals. -/
def weave : List Text → List Text → Text
  | [], vs => vs.flatten
  | _, [] => []
  | literal :: literals, v :: vs => v ++ literal ++ weave literals vs

/-- What a placeholder can stand for. -/
def Capturable (v : Text) : Prop := v ≠ [] ∧ slash ∉ v

theorem captures_spec {literals vs : List Text} {s : Text} (h : captures literals s = some vs) :
    weave literals vs = s ∧ vs.length = literals.length + 1 ∧ ∀ v ∈ vs, Capturable v := by
  induction literals generalizing s vs with
  | nil =>
    obtain ⟨hs, he⟩ := Option.ite_none_right_eq_some.mp h
    obtain rfl := Option.some.inj he
    simpa [weave, Capturable] using hs
  | cons literal literals ih =>
    rw [captures] at h
    obtain ⟨n, hn, h⟩ := List.exists_of_findSome?_eq_some h
    obtain ⟨⟨hslash, hlit⟩, h⟩ := Option.ite_none_right_eq_some.mp h
    obtain ⟨ws, hws, rfl⟩ := Option.map_eq_some_iff.mp h
    obtain ⟨hweave, hlen, hall⟩ := ih hws
    rw [List.mem_range] at hn
    refine ⟨?_, by rw [List.length_cons, List.length_cons, hlen], ?_⟩
    · rw [weave, hweave, List.append_assoc, List.prefix_iff_eq_append.mp hlit,
        List.take_append_drop]
    · rintro v (_ | ⟨_, hv⟩)
      · refine ⟨?_, hslash⟩
        rw [← List.length_pos_iff, List.length_take]
        omega
      · exact hall v hv

/-- There is a match if there are texts to be captured. -/
theorem captures_weave {literals vs : List Text} (hlen : vs.length = literals.length + 1)
    (h : ∀ v ∈ vs, Capturable v) : (captures literals (weave literals vs)).isSome := by
  induction literals generalizing vs with
  | nil =>
    obtain ⟨v, rfl⟩ := List.length_eq_one_iff.mp hlen
    have hv := h v (by simp)
    simp [weave, captures, hv.1, hv.2]
  | cons literal literals ih =>
    obtain ⟨v, ws, rfl⟩ := List.exists_cons_of_length_eq_add_one hlen
    obtain ⟨⟨hne, hslash⟩, hws⟩ := List.forall_mem_cons.mp h
    have hpos := List.length_pos_of_ne_nil hne
    have ih := ih (by simpa using hlen) hws
    rw [captures, List.findSome?_isSome_iff]
    refine ⟨v.length - 1, ?_, ?_⟩
    · rw [List.mem_range, weave, List.length_append, List.length_append]
      omega
    · have htake : (weave (literal :: literals) (v :: ws)).take (v.length - 1 + 1) = v := by
        rw [weave, Nat.sub_add_cancel hpos, List.append_assoc, List.take_left]
      have hdrop : (weave (literal :: literals) (v :: ws)).drop (v.length - 1 + 1)
          = literal ++ weave literals ws := by
        rw [weave, Nat.sub_add_cancel hpos, List.append_assoc, List.drop_left]
      simp only [htake, hdrop, List.drop_left, hslash, List.prefix_append, not_false_eq_true,
        and_self, if_true, Option.isSome_map, ih]

theorem count_weave {literals vs : List Text} (c : Char16)
    (hlen : vs.length = literals.length + 1) :
    (weave literals vs).count c = (literals.map (·.count c)).sum + (vs.map (·.count c)).sum := by
  induction literals generalizing vs with
  | nil =>
    obtain ⟨v, rfl⟩ := List.length_eq_one_iff.mp hlen
    simp [weave]
  | cons literal literals ih =>
    obtain ⟨v, ws, rfl⟩ := List.exists_cons_of_length_eq_add_one hlen
    have hlen' : ws.length = literals.length + 1 := by simpa using hlen
    rw [weave, List.count_append, List.count_append, ih hlen']
    simp only [List.map_cons, List.sum_cons]
    omega

/-- Texts without a separator are determined by literals that begin with it. -/
theorem weave_inj {c : Char16} {literals vs ws : List Text}
    (hlit : ∀ l ∈ literals, l.head? = some c) (hvs : ∀ v ∈ vs, c ∉ v) (hws : ∀ w ∈ ws, c ∉ w)
    (hlenv : vs.length = literals.length + 1)
    (hlenw : ws.length = literals.length + 1) (h : weave literals vs = weave literals ws) :
    vs = ws := by
  induction literals generalizing vs ws with
  | nil =>
    obtain ⟨v, rfl⟩ := List.length_eq_one_iff.mp hlenv
    obtain ⟨w, rfl⟩ := List.length_eq_one_iff.mp hlenw
    simpa [weave] using h
  | cons literal literals ih =>
    obtain ⟨v, vs, rfl⟩ := List.exists_cons_of_length_eq_add_one hlenv
    obtain ⟨w, ws, rfl⟩ := List.exists_cons_of_length_eq_add_one hlenw
    obtain ⟨hl, hlit'⟩ := List.forall_mem_cons.mp hlit
    obtain ⟨hv, hvs'⟩ := List.forall_mem_cons.mp hvs
    obtain ⟨hw, hws'⟩ := List.forall_mem_cons.mp hws
    obtain ⟨l, rfl⟩ := List.head?_eq_some_iff.mp hl
    rw [weave, weave, List.append_assoc, List.append_assoc, List.cons_append,
      List.cons_append] at h
    obtain ⟨rfl, hrest⟩ := Segments.separated_inj hv hw h
    have hlenv' : vs.length = literals.length + 1 := by simpa using hlenv
    have hlenw' : ws.length = literals.length + 1 := by simpa using hlenw
    rw [ih hlit' hvs' hws' hlenv' hlenw' (List.append_cancel_left hrest)]

theorem mem_weave {literals vs : List Text} {c : Char16} (h : c ∈ weave literals vs) :
    (∃ l ∈ literals, c ∈ l) ∨ ∃ v ∈ vs, c ∈ v := by
  induction literals generalizing vs with
  | nil => exact .inr (by simpa [weave] using h)
  | cons literal literals ih =>
    cases vs with
    | nil => cases h
    | cons v vs =>
      rw [weave, List.mem_append, List.mem_append] at h
      rcases h with (h | h) | h
      · exact .inr ⟨v, List.mem_cons_self .., h⟩
      · exact .inl ⟨literal, List.mem_cons_self .., h⟩
      · rcases ih h with ⟨l, hl, h⟩ | ⟨w, hw, h⟩
        · exact .inl ⟨l, List.mem_cons_of_mem _ hl, h⟩
        · exact .inr ⟨w, List.mem_cons_of_mem _ hw, h⟩

theorem sum_count_eq_zero {c : Char16} {vs : List Text} :
    (vs.map (·.count c)).sum = 0 ↔ ∀ v ∈ vs, c ∉ v := by
  induction vs with
  | nil => simp
  | cons v vs ih => simp [ih, List.count_eq_zero]

/-- Values without a separator that the literals begin with are captured. -/
theorem captures_values {literals vs : List Text}
    (hlit : ∀ l ∈ literals, l.head? = some ampersand) (hlen : vs.length = literals.length + 1)
    (h : ∀ v ∈ vs, Capturable v) (hvs : ∀ v ∈ vs, ampersand ∉ v) :
    captures literals (weave literals vs) = some vs := by
  obtain ⟨ws, hws⟩ := Option.isSome_iff_exists.mp (captures_weave hlen h)
  obtain ⟨hweave, hlenw, -⟩ := captures_spec hws
  have hcount := count_weave ampersand hlenw
  rw [hweave, count_weave ampersand hlen] at hcount
  have hzero := sum_count_eq_zero.mpr hvs
  have hws' : ∀ w ∈ ws, ampersand ∉ w := sum_count_eq_zero.mp (by omega)
  rw [hws, weave_inj hlit hvs hws' hlen hlenw hweave.symm]

/-! ## Numbers -/

/-- `Long.toString()`. -/
def longToString (n : BitVec 64) : Text := Json.printNumber n.toInt

/-- `String.toLong()`, as a `Long`. -/
def stringToLong (s : Text) : Option (BitVec 64) := (toLong s).map (BitVec.ofInt 64)

theorem digits_printNat (n : ℕ) : digits 10 0 (Json.printNat n) = some n := by
  have hprint : Json.printNat n = ascii (toDigits 10 n) := rfl
  rw [hprint, digits_ascii fun c hc => Nat.isDigit_of_mem_toDigits (by decide) (by decide) hc,
    Nat.ofDigitChars_ten_toDigits]

/-- A number that is written is read again. -/
theorem toLong_printNumber {n : ℤ} (h : longMin ≤ n ∧ n ≤ longMax) :
    toLong (Json.printNumber n) = some n := by
  have hne := Json.printNat_ne_nil n.natAbs
  rw [toLong, Json.printNumber]
  by_cases hn : n < 0
  · have habs : -(n.natAbs : ℤ) = n := by omega
    have hminus : Json.minus = 0x2D := rfl
    rw [if_pos hn, parse, if_pos hminus, if_neg hne, digits_printNat]
    change ((some (n.natAbs : ℤ)).map fun m => -m).filter (fun v => longMin ≤ v) = some n
    rw [Option.map_some, habs, Option.filter_some, if_pos (by simpa using h.1)]
  · have habs : (n.natAbs : ℤ) = n := by omega
    rw [if_neg hn, parse_of_digits hne (digits_printNat _) (by decide) (by decide)
      (by rw [habs]; exact h.2), habs]

theorem stringToLong_longToString (n : BitVec 64) : stringToLong (longToString n) = some n := by
  have hlo := BitVec.le_toInt n
  have hhi := BitVec.toInt_lt (x := n)
  rw [stringToLong, longToString, toLong_printNumber (by simp only [longMin, longMax]; omega),
    Option.map_some, BitVec.ofInt_toInt]

theorem digits_lt {s : Text} {acc n : ℕ} (h : digits 10 acc s = some n) :
    n < (acc + 1) * 10 ^ s.length := by
  induction s generalizing acc with
  | nil =>
    obtain rfl := Option.some.inj h
    simp
  | cons c s ih =>
    obtain ⟨d, hd, h⟩ := Option.bind_eq_some_iff.mp h
    have hlt : d < 10 := by simpa using (Option.filter_eq_some_iff.mp hd).2
    have ih := ih h
    rw [List.length_cons, Nat.pow_succ]
    calc n < (acc * 10 + d + 1) * 10 ^ s.length := ih
      _ ≤ ((acc + 1) * 10) * 10 ^ s.length := Nat.mul_le_mul_right _ (by omega)
      _ = (acc + 1) * (10 ^ s.length * 10) := by ring

theorem length_printNat {s : Text} {n : ℕ} (hs : s ≠ []) (h : digits 10 0 s = some n) :
    (Json.printNat n).length ≤ s.length := by
  rw [Json.printNat, List.length_map]
  exact (Nat.length_toDigits_le_iff (by decide) (List.length_pos_of_ne_nil hs)).mpr
    (by simpa using digits_lt h)

/-- The digits of a number, after its sign. -/
theorem digits_of_toLong {s : Text} {n : ℤ} (h : toLong s = some n) :
    (longMin ≤ n ∧ n ≤ longMax) ∧ ∃ t k, t ≠ [] ∧ digits 10 0 t = some k ∧
      (n = k ∧ (s = t ∨ s = 0x2B :: t) ∨ n = -k ∧ s = 0x2D :: t) := by
  have hdigits : ∀ {t : Text} {m : ℤ}, (do let k ← digits 10 0 t; pure (k : ℤ)) = some m →
      ∃ k : ℕ, digits 10 0 t = some k ∧ m = k := by
    intro t m hm
    obtain ⟨k, hk, he⟩ := Option.bind_eq_some_iff.mp hm
    exact ⟨k, hk, (Option.some.inj he).symm⟩
  have hbounds : longMin ≤ 0 ∧ 0 ≤ longMax := by decide
  rw [toLong, parse.eq_def] at h
  split at h
  · cases h
  · rename_i c s
    split at h
    · rename_i hc
      obtain ⟨hs, h⟩ := Option.ite_none_left_eq_some.mp h
      obtain ⟨h, hlo⟩ := Option.filter_eq_some_iff.mp h
      obtain ⟨m, hm, rfl⟩ := Option.map_eq_some_iff.mp h
      obtain ⟨k, hk, rfl⟩ := hdigits hm
      exact ⟨⟨by simpa using hlo, by omega⟩, s, k, hs, hk, .inr ⟨rfl, hc ▸ rfl⟩⟩
    · split at h
      · rename_i hc
        obtain ⟨hs, h⟩ := Option.ite_none_left_eq_some.mp h
        obtain ⟨h, hhi⟩ := Option.filter_eq_some_iff.mp h
        obtain ⟨m, hm, rfl⟩ := Option.map_eq_some_iff.mp h
        obtain ⟨k, hk, rfl⟩ := hdigits hm
        exact ⟨⟨by omega, by simpa using hhi⟩, s, k, hs, hk, .inl ⟨rfl, .inr (hc ▸ rfl)⟩⟩
      · obtain ⟨h, hhi⟩ := Option.filter_eq_some_iff.mp h
        obtain ⟨m, hm, rfl⟩ := Option.map_eq_some_iff.mp h
        obtain ⟨k, hk, rfl⟩ := hdigits hm
        exact ⟨⟨by omega, by simpa using hhi⟩, c :: s, k, by simp, hk, .inl ⟨rfl, .inl rfl⟩⟩

/-- No text of a number is shorter than the number is written. -/
theorem length_printNumber {s : Text} {n : ℤ} (h : toLong s = some n) :
    (Json.printNumber n).length ≤ s.length := by
  obtain ⟨-, t, k, ht, hk, ⟨rfl, rfl | rfl⟩ | ⟨rfl, rfl⟩⟩ := digits_of_toLong h
  all_goals
    have hnat := length_printNat ht hk
    rw [Json.printNumber]
    split <;> simp <;> omega

theorem not_mem_digits {s : Text} {acc n : ℕ} {x : Char16} (hx : digit 10 x = none)
    (h : digits 10 acc s = some n) : x ∉ s := by
  induction s generalizing acc with
  | nil => exact List.not_mem_nil
  | cons c s ih =>
    obtain ⟨d, hd, h⟩ := Option.bind_eq_some_iff.mp h
    rw [List.mem_cons, not_or]
    refine ⟨?_, ih h⟩
    rintro rfl
    rw [hx] at hd
    cases hd

/-- What is no digit and no sign is not in the text of a number. -/
theorem not_mem_of_toLong {s : Text} {n : ℤ} {x : Char16} (hx : digit 10 x = none)
    (hp : x ≠ 0x2B) (hm : x ≠ 0x2D) (h : toLong s = some n) : x ∉ s := by
  obtain ⟨-, t, k, -, hk, ⟨-, rfl | rfl⟩ | ⟨-, rfl⟩⟩ := digits_of_toLong h
  · exact not_mem_digits hx hk
  · exact fun hmem => (List.mem_cons.mp hmem).elim hp (not_mem_digits hx hk)
  · exact fun hmem => (List.mem_cons.mp hmem).elim hm (not_mem_digits hx hk)

theorem length_longToString {s : Text} {n : BitVec 64} (h : stringToLong s = some n) :
    (longToString n).length ≤ s.length := by
  obtain ⟨k, hk, rfl⟩ := Option.map_eq_some_iff.mp h
  have hrange := (digits_of_toLong hk).1
  simp only [longMin, longMax] at hrange
  rw [longToString, BitVec.toInt_ofInt_eq_self (by decide) (by omega) (by omega)]
  exact length_printNumber hk

end TonWallet.Encoding
