import TonWallet.Lib.Overlay
import TonWallet.Storage.Keys
import TonWallet.Storage.Serial

/-!
# The passcode record

`updatePasscodeData` decodes the stored record, replaces the fields it is given,
and encodes the result. A record is the partial record of its fields, and an
update lays one over another.

* `updates_survive`: updates of which no two give the same field leave the same
  record in any order.
-/

namespace TonWallet.Storage

open Encoding Overlay

/-! ## The record as JSON -/

namespace PasscodeData

/-- The members of the record, in the order of the class. The default of each is null, so that a
null is left out. -/
def fields (d : PasscodeData) : List (Text × Option Json.Value) :=
  [(text "tonPublicKey", d.tonPublicKey.map .string),
    (text "encryptedPinData", d.encryptedPinData.map .string),
    (text "encryptedBiometricData", d.encryptedBiometricData.map .string),
    (text "passcodeSalt", d.passcodeSalt.map bytesToJson),
    (text "passcodeType", d.passcodeType.map .number)]

/-- The names of the members. -/
def names : List Text := (fields {}).map (·.1)

/-- The generated serializer, writing. -/
def toJson (d : PasscodeData) : Json.Value := .object (Json.present d.fields)

/-- The generated serializer, reading. -/
def ofJson (v : Json.Value) : Option PasscodeData := do
  let members ← objectOfJson names v
  let tonPublicKey ← nullableField stringOfJson (text "tonPublicKey") members
  let encryptedPinData ← nullableField stringOfJson (text "encryptedPinData") members
  let encryptedBiometricData ← nullableField stringOfJson (text "encryptedBiometricData") members
  let passcodeSalt ← nullableField bytesOfJson (text "passcodeSalt") members
  let passcodeType ← nullableField intOfJson (text "passcodeType") members
  return {
    tonPublicKey := tonPublicKey
    encryptedPinData := encryptedPinData
    encryptedBiometricData := encryptedBiometricData
    passcodeSalt := passcodeSalt
    passcodeType := passcodeType }

/-- `json.encodeToString`. -/
def encodeToString (d : PasscodeData) : Text := Json.print d.toJson

/-- `json.decodeFromString`. -/
def decodeFromString (s : Text) : Option PasscodeData := (Json.parse s).bind ofJson

/-- `passcodeType` is an `Int`. -/
def HasInt (d : PasscodeData) : Prop := ∀ t ∈ d.passcodeType, intMin ≤ t ∧ t ≤ intMax

theorem names_nodup : names.Nodup := by decide

theorem ofJson_toJson {d : PasscodeData} (h : d.HasInt) : ofJson d.toJson = some d := by
  have hn : (d.fields.map (·.1)).Nodup := names_nodup
  have hnames : d.fields.map (·.1) = names := rfl
  have hstring : ∀ (x : Option Text), ∀ s ∈ x,
      Json.Value.string s ≠ .null ∧ stringOfJson (.string s) = some s := by simp [stringOfJson]
  have hbytes : ∀ b ∈ d.passcodeSalt,
      bytesToJson b ≠ .null ∧ bytesOfJson (bytesToJson b) = some b :=
    fun b _ => ⟨bytesToJson_ne_null b, bytes_roundtrip b⟩
  have hint : ∀ t ∈ d.passcodeType,
      Json.Value.number t ≠ .null ∧ intOfJson (.number t) = some t :=
    fun t ht => ⟨by simp, numberOfJson_number (h t ht)⟩
  rw [ofJson, toJson, objectOfJson_present hnames]
  simp only [Option.bind_eq_bind, Option.bind_some, Option.pure_def,
    nullableField_present (text "tonPublicKey") hn (by simp [fields]) (hstring d.tonPublicKey),
    nullableField_present (text "encryptedPinData") hn (by simp [fields])
      (hstring d.encryptedPinData),
    nullableField_present (text "encryptedBiometricData") hn (by simp [fields])
      (hstring d.encryptedBiometricData),
    nullableField_present (text "passcodeSalt") hn (by simp [fields]) hbytes,
    nullableField_present (text "passcodeType") hn (by simp [fields]) hint]

theorem decode_encode {d : PasscodeData} (h : d.HasInt) :
    decodeFromString d.encodeToString = some d := by
  rw [decodeFromString, encodeToString, Json.parse_print, Option.bind_some, ofJson_toJson h]

/-- What can be decoded has an `Int`. -/
theorem hasInt_of_decode {s : Text} {d : PasscodeData} (h : decodeFromString s = some d) :
    d.HasInt := by
  obtain ⟨v, -, h⟩ := Option.bind_eq_some_iff.mp h
  simp only [ofJson, Option.bind_eq_bind, Option.bind_eq_some_iff, Option.pure_def,
    Option.some.injEq] at h
  obtain ⟨members, -, -, -, -, -, -, -, -, -, passcodeType, htype, rfl⟩ := h
  rintro t rfl
  obtain ⟨v, hv⟩ := nullableField_spec htype
  exact numberOfJson_range hv

end PasscodeData

/-! ## The update -/

/-- `getPasscodeEncryptedData` (`Storage.kt` lines 154–158). -/
def DataStore.getPasscodeData (p : DataStore) : Except ReadError (Option PasscodeData) :=
  getRecord PasscodeData.decodeFromString p applicationPasscodeKey

/-- `updatePasscodeData` (`Storage.kt` lines 160–191). -/
def DataStore.updatePasscodeData (p : DataStore) (update : PasscodeData) : DataStore :=
  edit p fun p => do
    let current ← p.getPasscodeData
    let newData := Storage.updatePasscodeData current update
    return Function.update p applicationPasscodeKey (some (.string newData.encodeToString))

/-! ## Fields -/

/-- The fields of the record. -/
inductive PasscodeField where
  | tonPublicKey
  | encryptedPinData
  | encryptedBiometricData
  | passcodeSalt
  | passcodeType
deriving DecidableEq, Repr

/-- The type of a field. -/
abbrev PasscodeField.Value : PasscodeField → Type
  | .tonPublicKey | .encryptedPinData | .encryptedBiometricData => Text
  | .passcodeSalt => Bytes
  | .passcodeType => ℤ

/-- The fields a record has. -/
def PasscodeData.given (d : PasscodeData) : ∀ f : PasscodeField, Option f.Value
  | .tonPublicKey => d.tonPublicKey
  | .encryptedPinData => d.encryptedPinData
  | .encryptedBiometricData => d.encryptedBiometricData
  | .passcodeSalt => d.passcodeSalt
  | .passcodeType => d.passcodeType

/-- The fields that are stored: none when there is no record. -/
def givenBy (current : Option PasscodeData) : ∀ f : PasscodeField, Option f.Value :=
  fun f => current.bind fun d => d.given f

theorem PasscodeData.given_injective {d e : PasscodeData} (h : d.given = e.given) : d = e := by
  have h1 := congrFun h .tonPublicKey
  have h2 := congrFun h .encryptedPinData
  have h3 := congrFun h .encryptedBiometricData
  have h4 := congrFun h .passcodeSalt
  have h5 := congrFun h .passcodeType
  cases d
  cases e
  simp only [given] at h1 h2 h3 h4 h5
  rw [h1, h2, h3, h4, h5]

/-- Both paths of the update lay the given fields over the stored ones. -/
theorem given_update (current : Option PasscodeData) (update : PasscodeData) :
    (updatePasscodeData current update).given = overlay (givenBy current) update.given := by
  funext f
  cases current with
  | none => cases f <;> simp [updatePasscodeData, overlay, givenBy]
  | some d => cases f <;> rfl

/-! ## Runs -/

/-- The record that is stored has an `Int`. -/
theorem hasInt_of_stored {p : DataStore} {d : PasscodeData}
    (hp : p.getPasscodeData = .ok (some d)) : d.HasInt := by
  rw [DataStore.getPasscodeData, getRecord] at hp
  cases hg : get Value.asString p applicationPasscodeKey with
  | error e =>
    rw [hg] at hp
    cases hp
  | ok value =>
    rw [hg] at hp
    cases value with
    | none => cases hp
    | some value =>
      cases hd : PasscodeData.decodeFromString value with
      | none => simp [decodeJson, hd, bind, Except.bind] at hp
      | some e =>
        simp only [decodeJson, hd, bind, Except.bind, pure, Except.pure, Except.ok.injEq,
          Option.some.injEq] at hp
        exact hp ▸ PasscodeData.hasInt_of_decode hd

theorem hasInt_update {current : Option PasscodeData} {update : PasscodeData}
    (hc : ∀ d ∈ current, d.HasInt) (hu : update.HasInt) :
    (updatePasscodeData current update).HasInt := by
  intro t ht
  have hgiven := congrFun (given_update current update) .passcodeType
  cases hs : update.given .passcodeType with
  | none =>
    rw [over_kept hs] at hgiven
    obtain ⟨d, hd, hdt⟩ := Option.bind_eq_some_iff.mp (hgiven.symm.trans ht)
    exact hc d hd t hdt
  | some t' =>
    rw [over_given hs] at hgiven
    exact hu t (hs.trans (hgiven.symm.trans ht))

theorem getPasscodeData_update {p : DataStore} {current : Option PasscodeData}
    (hp : p.getPasscodeData = .ok current) {update : PasscodeData} (hu : update.HasInt) :
    (p.updatePasscodeData update).getPasscodeData
      = .ok (some (updatePasscodeData current update)) := by
  have hint : (updatePasscodeData current update).HasInt := by
    refine hasInt_update (fun d hd => ?_) hu
    rw [Option.mem_def] at hd
    exact hasInt_of_stored (hd ▸ hp)
  have hedit : p.updatePasscodeData update = Function.update p applicationPasscodeKey
      (some (.string (updatePasscodeData current update).encodeToString)) :=
    edit_ok (by rw [hp]; rfl)
  rw [hedit, DataStore.getPasscodeData, getRecord, get_some (Function.update_self ..)]
  simp only [Value.asString, decodeJson, PasscodeData.decode_encode hint, bind, Except.bind, pure,
    Except.pure]

/-- The updates one after the other. -/
def updateAll (current : Option PasscodeData) (updates : List PasscodeData) :
    Option PasscodeData :=
  updates.foldl (fun current update => some (updatePasscodeData current update)) current

/-- What is stored after a run of updates. -/
theorem getPasscodeData_run {p : DataStore} {initial : Option PasscodeData}
    (hp : p.getPasscodeData = .ok initial) {updates : List PasscodeData}
    (hint : ∀ u ∈ updates, u.HasInt) :
    (updates.foldl DataStore.updatePasscodeData p).getPasscodeData
      = .ok (updateAll initial updates) := by
  induction updates generalizing p initial with
  | nil => exact hp
  | cons u updates ih =>
    obtain ⟨hu, hrest⟩ := List.forall_mem_cons.mp hint
    exact ih (getPasscodeData_update hp hu) hrest

theorem givenBy_updateAll (initial : Option PasscodeData) (updates : List PasscodeData) :
    givenBy (updateAll initial updates)
      = (updates.map PasscodeData.given).foldl overlay (givenBy initial) := by
  induction updates generalizing initial with
  | nil => rfl
  | cons u updates ih =>
    have hstep : givenBy (some (updatePasscodeData initial u))
        = overlay (givenBy initial) u.given :=
      given_update initial u
    rw [updateAll, List.foldl_cons, ← updateAll, ih, hstep, List.map_cons, List.foldl_cons]

/-- Any update leaves a record. -/
theorem updateAll_some {updates : List PasscodeData} (h : updates ≠ [])
    (initial : Option PasscodeData) : ∃ d, updateAll initial updates = some d := by
  obtain ⟨us, u, rfl⟩ := (List.eq_nil_or_concat' updates).resolve_left h
  rw [updateAll, List.foldl_append]
  exact ⟨_, rfl⟩

/-- Updates of which no two give the same field leave the same record in any order. -/
theorem updateAll_perm {updates order : List PasscodeData}
    (hapart : updates.Pairwise fun u v => Apart u.given v.given) (horder : order.Perm updates)
    (initial : Option PasscodeData) : updateAll initial order = updateAll initial updates := by
  by_cases hnil : updates = []
  · rw [hnil] at horder ⊢
    rw [horder.eq_nil]
  obtain ⟨d, hd⟩ := updateAll_some hnil initial
  obtain ⟨e, he⟩ : ∃ e, updateAll initial order = some e :=
    updateAll_some (fun h => hnil (h ▸ horder).symm.eq_nil) initial
  have hgiven : givenBy (updateAll initial order) = givenBy (updateAll initial updates) := by
    rw [givenBy_updateAll, givenBy_updateAll]
    exact foldl_over_perm (List.pairwise_map.mpr hapart) (horder.map _) _
  rw [hd, he] at hgiven ⊢
  rw [PasscodeData.given_injective hgiven]

/-- The three writes of a creation give different fields. -/
theorem creation_apart (publicKey encryptedData encryptedPin : Text) (salt : Bytes) :
    List.Pairwise (fun u v : PasscodeData => Apart u.given v.given)
      [{ tonPublicKey := some publicKey }, { encryptedBiometricData := some encryptedData },
        { encryptedPinData := some encryptedPin, passcodeSalt := some salt }] := by
  simp only [List.pairwise_cons, List.mem_cons, List.not_mem_nil, or_false, forall_eq_or_imp,
    forall_eq, false_imp_iff, implies_true, List.Pairwise.nil, and_true]
  refine ⟨⟨?_, ?_⟩, ?_⟩ <;> intro f <;> cases f <;> simp [PasscodeData.given]

/-- **Partial updates are not lost.** The updates, of which no two give the same field, leave the
same record in any order: each field that is given has that value, the others are kept. So do the
public key, the biometric record and the PIN that a creation writes in three jobs. -/
theorem updates_survive {p : DataStore} {initial : Option PasscodeData}
    (hp : p.getPasscodeData = .ok initial) :
    (∀ updates : List PasscodeData, (∀ u ∈ updates, u.HasInt) →
      (updates.Pairwise fun u v => Apart u.given v.given) →
      ∃ final, (∀ order : List PasscodeData, order.Perm updates →
          (order.foldl DataStore.updatePasscodeData p).getPasscodeData = .ok final) ∧
        ∀ f, (∀ u ∈ updates, ∀ value, u.given f = some value → givenBy final f = some value) ∧
          ((∀ u ∈ updates, u.given f = none) → givenBy final f = givenBy initial f)) ∧
    ∀ (publicKey encryptedData encryptedPin : Text) (salt : Bytes) (order : List PasscodeData),
      order.Perm [{ tonPublicKey := some publicKey },
          { encryptedBiometricData := some encryptedData },
          { encryptedPinData := some encryptedPin, passcodeSalt := some salt }] →
      ∃ d, (order.foldl DataStore.updatePasscodeData p).getPasscodeData = .ok (some d) ∧
        d.tonPublicKey = some publicKey ∧ d.encryptedBiometricData = some encryptedData ∧
        d.encryptedPinData = some encryptedPin ∧ d.passcodeSalt = some salt := by
  constructor
  · intro updates hint hapart
    refine ⟨updateAll initial updates, fun order horder => ?_, fun f => ⟨?_, ?_⟩⟩
    · rw [getPasscodeData_run hp fun u hu => hint u (horder.subset hu),
        updateAll_perm hapart horder]
    · intro u hu value hvalue
      rw [givenBy_updateAll]
      exact foldl_over_given (List.pairwise_map.mpr hapart) (List.mem_map_of_mem hu) hvalue _
    · intro hnone
      rw [givenBy_updateAll]
      exact foldl_over_kept (List.forall_mem_map.mpr hnone) _
  · intro publicKey encryptedData encryptedPin salt order horder
    have hint : ∀ u ∈ order, u.HasInt := by
      intro u hu
      have := horder.subset hu
      simp only [List.mem_cons, List.not_mem_nil, or_false] at this
      rcases this with rfl | rfl | rfl <;> simp [PasscodeData.HasInt]
    have hrun := getPasscodeData_run hp hint
    rw [updateAll_perm (creation_apart publicKey encryptedData encryptedPin salt) horder] at hrun
    exact ⟨_, hrun, by cases initial <;> simp [updatePasscodeData]⟩

/-- A four-digit passcode is stored; then a public key and a PIN are. -/
theorem updates_survive_four_digits :
    ∃ final, (∀ order : List PasscodeData,
        order.Perm [{ tonPublicKey := some (text "PubE") },
          { encryptedPinData := some (text "AQID"), passcodeSalt := some [1, -1] }] →
        (order.foldl DataStore.updatePasscodeData
          (DataStore.updatePasscodeData (fun _ => none) { passcodeType := some 4 })).getPasscodeData
            = .ok final) ∧
      givenBy final .tonPublicKey = some (text "PubE") ∧
      givenBy final .passcodeType = some (4 : ℤ) := by
  have hempty : DataStore.getPasscodeData (fun _ => none) = .ok none := rfl
  have hint : PasscodeData.HasInt { passcodeType := some 4 } := by
    rintro t ⟨rfl⟩
    simp [intMin, intMax]
  have hp := getPasscodeData_update hempty hint
  obtain ⟨final, hsame, hfields⟩ := (updates_survive hp).1
    [{ tonPublicKey := some (text "PubE") },
      { encryptedPinData := some (text "AQID"), passcodeSalt := some [1, -1] }]
    (by simp [PasscodeData.HasInt])
    (by
      simp only [List.pairwise_pair]
      intro f
      cases f <;> simp [PasscodeData.given])
  refine ⟨final, hsame, ?_, ?_⟩
  · exact (hfields .tonPublicKey).1 _ (List.mem_cons_self ..) _ rfl
  · exact (hfields .passcodeType).2 (by simp [PasscodeData.given])

end TonWallet.Storage
