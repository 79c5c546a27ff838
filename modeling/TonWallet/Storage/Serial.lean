import TonWallet.Encoding.Text
import TonWallet.Lib.Json

/-!
# Serialised values

The serializers of the values that the stored records are made of: an array of
bytes is an array of signed numbers, and a number has to fit its type. The
preferences hold the texts of the records.

* `bytes_roundtrip`, `nullableField_present`: what is written is read again.
-/

namespace TonWallet.Storage

open Encoding

/-! ## Writing -/

/-- A `Long`. -/
abbrev Long := BitVec 64

/-- A `Long`. -/
def longToJson (n : Long) : Json.Value := .number n.toInt

/-- A `ByteArray`. -/
def bytesToJson (bytes : Bytes) : Json.Value := .array (bytes.map fun b => .number b.toInt)

/-- A value that may be `null`. -/
def nullableToJson {α : Type} (encode : α → Json.Value) : Option α → Json.Value
  | none => .null
  | some a => encode a

/-! ## Reading -/

/-- A `String`. -/
def stringOfJson : Json.Value → Option Text
  | .string s => some s
  | _ => none

/-- A number of a type with these bounds. -/
def numberOfJson (lo hi : ℤ) : Json.Value → Option ℤ
  | .number n => if lo ≤ n ∧ n ≤ hi then some n else none
  | _ => none

/-- An `Int`. -/
def intOfJson : Json.Value → Option ℤ := numberOfJson intMin intMax

/-- A `Byte`. -/
def byteOfJson (v : Json.Value) : Option Byte :=
  (numberOfJson (-128) 127 v).map (BitVec.ofInt 8)

/-- A `Long`. -/
def longOfJson (v : Json.Value) : Option Long :=
  (numberOfJson longMin longMax v).map (BitVec.ofInt 64)

/-- The members of an object. -/
def membersOfJson : Json.Value → Option (List (Text × Json.Value))
  | .object members => some members
  | _ => none

/-- The members of an object that has no others than `names`. -/
def objectOfJson (names : List Text) (v : Json.Value) : Option (List (Text × Json.Value)) :=
  (membersOfJson v).filter (Json.knows names)

/-- A nullable member whose default is null. -/
def nullableField {α : Type} (decode : Json.Value → Option α) (name : Text)
    (members : List (Text × Json.Value)) : Option (Option α) :=
  (Json.field (Json.nullable decode) name members).map Option.join

/-- A member without a default. -/
def requiredField {α : Type} (decode : Json.Value → Option α) (name : Text)
    (members : List (Text × Json.Value)) : Option α :=
  (Json.field decode name members).join

/-- A member with a default. -/
def defaultField {α : Type} (decode : Json.Value → Option α) (name : Text) (value : α)
    (members : List (Text × Json.Value)) : Option α :=
  (Json.field decode name members).map fun o => o.getD value

/-- An array. -/
def listOfJson {α : Type} (decode : Json.Value → Option α) : Json.Value → Option (List α)
  | .array items => items.mapM decode
  | _ => none

/-- A `ByteArray`. -/
def bytesOfJson : Json.Value → Option Bytes := listOfJson byteOfJson

/-! ## Round trips -/

theorem numberOfJson_number {lo hi n : ℤ} (h : lo ≤ n ∧ n ≤ hi) :
    numberOfJson lo hi (.number n) = some n := by
  rw [numberOfJson, if_pos h]

theorem numberOfJson_range {lo hi n : ℤ} {v : Json.Value} (h : numberOfJson lo hi v = some n) :
    lo ≤ n ∧ n ≤ hi := by
  cases v <;> simp only [numberOfJson, reduceCtorEq] at h
  case number m =>
    obtain ⟨hm, he⟩ := Option.ite_none_right_eq_some.mp h
    exact Option.some.inj he ▸ hm

theorem byteOfJson_toInt (b : Byte) : byteOfJson (.number b.toInt) = some b := by
  have hlo := BitVec.le_toInt b
  have hhi := BitVec.toInt_lt (x := b)
  rw [byteOfJson, numberOfJson_number (by omega), Option.map_some, BitVec.ofInt_toInt]

theorem longOfJson_longToJson (n : Long) : longOfJson (longToJson n) = some n := by
  have hlo := BitVec.le_toInt n
  have hhi := BitVec.toInt_lt (x := n)
  rw [longOfJson, longToJson, numberOfJson_number (by simp only [longMin, longMax]; omega),
    Option.map_some, BitVec.ofInt_toInt]

/-- Lists are read as they were written, if their elements are. -/
theorem list_roundtrip {α : Type} {encode : α → Json.Value} {decode : Json.Value → Option α}
    {l : List α} (h : ∀ a ∈ l, decode (encode a) = some a) :
    listOfJson decode (.array (l.map encode)) = some l := by
  rw [listOfJson]
  induction l with
  | nil => rfl
  | cons a l ih =>
    obtain ⟨ha, hl⟩ := List.forall_mem_cons.mp h
    rw [List.map_cons, List.mapM_cons, ha, ih hl]
    rfl

/-- An array of bytes is read as it was written. -/
theorem bytes_roundtrip (bytes : Bytes) : bytesOfJson (bytesToJson bytes) = some bytes :=
  list_roundtrip fun b _ => byteOfJson_toInt b

/-- The members that are written are known. -/
theorem objectOfJson_present {names : List Text} {fields : List (Text × Option Json.Value)}
    (h : fields.map (·.1) = names) :
    objectOfJson names (.object (Json.present fields)) = some (Json.present fields) := by
  have hknown : ∀ f ∈ fields, f.1 ∈ names := fun _ hf => h ▸ List.mem_map_of_mem hf
  rw [objectOfJson, membersOfJson, Option.filter_some, if_pos (Json.knows_present hknown)]

theorem bytesToJson_ne_null (bytes : Bytes) : bytesToJson bytes ≠ .null := by
  rw [bytesToJson]
  exact Json.Value.noConfusion

section
variable {α : Type} {encode : α → Json.Value} {decode : Json.Value → Option α}
  {fields : List (Text × Option Json.Value)}

/-- A value that is not written as `null` is read as present. -/
theorem nullable_roundtrip {v : Json.Value} {a : α} (hv : v ≠ .null) (h : decode v = some a) :
    Json.nullable decode v = some (some a) := by
  cases v with
  | null => exact absurd rfl hv
  | _ => simp only [Json.nullable, h, Option.map_some]

theorem nullable_nullableToJson {x : Option α}
    (hx : ∀ a ∈ x, encode a ≠ .null ∧ decode (encode a) = some a) :
    Json.nullable decode (nullableToJson encode x) = some x := by
  cases x with
  | none => rfl
  | some a => exact nullable_roundtrip (hx a rfl).1 (hx a rfl).2

/-- A nullable member is read as it was written. -/
theorem nullableField_present (name : Text) (hn : (fields.map (·.1)).Nodup) {x : Option α}
    (h : (name, x.map encode) ∈ fields)
    (hx : ∀ a ∈ x, encode a ≠ .null ∧ decode (encode a) = some a) :
    nullableField decode name (Json.present fields) = some x := by
  rw [nullableField, Json.field_present hn h]
  cases x with
  | none => rfl
  | some a =>
    obtain ⟨hv, hd⟩ := hx a rfl
    rw [Option.map_some, Option.elim_some, nullable_roundtrip hv hd]
    rfl

/-- A member without a default is read as it was written. -/
theorem requiredField_present (name : Text) (hn : (fields.map (·.1)).Nodup) {v : Json.Value}
    {a : α} (h : (name, some v) ∈ fields) (ha : decode v = some a) :
    requiredField decode name (Json.present fields) = some a := by
  rw [requiredField, Json.field_present hn h, Option.elim_some, ha]
  rfl

/-- A member that is left out when it has its default is read as it was written. -/
theorem defaultField_present [DecidableEq α] (name : Text) (value : α)
    (hn : (fields.map (·.1)).Nodup) {v : Json.Value} {a : α}
    (h : (name, if a = value then none else some v) ∈ fields) (ha : decode v = some a) :
    defaultField decode name value (Json.present fields) = some a := by
  rw [defaultField, Json.field_present hn h]
  by_cases hv : a = value
  · rw [if_pos hv, hv]
    rfl
  · rw [if_neg hv, Option.elim_some, ha]
    rfl

/-- What is read in a member is what its decoder has read. -/
theorem nullableField_spec {members : List (Text × Json.Value)} {name : Text} {a : α}
    (h : nullableField decode name members = some (some a)) : ∃ v, decode v = some a := by
  obtain ⟨o, ho, hjoin⟩ := Option.map_eq_some_iff.mp h
  rw [Option.join_eq_some_iff] at hjoin
  subst hjoin
  obtain ⟨v, -, hv⟩ := Json.field_spec ho
  refine ⟨v, ?_⟩
  cases v with
  | null => cases hv
  | _ => exact (Option.map_eq_some_iff.mp hv).elim fun b hb => Option.some.inj hb.2 ▸ hb.1

end

end TonWallet.Storage
