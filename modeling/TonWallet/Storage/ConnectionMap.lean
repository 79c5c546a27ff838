import TonWallet.Lib.Machine
import TonWallet.Storage.Connections
import TonWallet.Storage.Serial

/-!
# The connections as a map

What the stored connections should be, after any saves and removals: a save
replaces the connection with its manifest, a removal takes those with its id away.
The preferences keep them in one set, and a removal clears the entry of the
preferences under the id, which a dApp has chosen, before it reads that set.

* `refines_iff`: the preferences have the connections of the map along exactly the
  runs in which no removal clears the set itself while it has others.
* `TonConnectConnectionData.decode_encode`: the generated serializer reads what it
  has written.
-/

namespace TonWallet.TonConnect

open Encoding Storage

/-! ## The record as JSON -/

namespace TonConnectManifestModel

/-- The members of a manifest. -/
def fields (m : TonConnectManifestModel) : List (Text × Option Json.Value) :=
  [(text "url", some (.string m.url)), (text "name", some (.string m.name)),
    (text "iconUrl", some (.string m.iconUrl)),
    (text "termsOfUseUrl", m.termsOfUseUrl.map .string),
    (text "privacyPolicyUrl", m.privacyPolicyUrl.map .string)]

def names : List Text :=
  [text "url", text "name", text "iconUrl", text "termsOfUseUrl", text "privacyPolicyUrl"]

/-- The generated serializer of `TonConnectManifestModel`. -/
def toJson (m : TonConnectManifestModel) : Json.Value := .object (Json.present m.fields)

def ofJson (v : Json.Value) : Option TonConnectManifestModel := do
  let members ← objectOfJson names v
  return {
    url := ← requiredField stringOfJson (text "url") members
    name := ← requiredField stringOfJson (text "name") members
    iconUrl := ← requiredField stringOfJson (text "iconUrl") members
    termsOfUseUrl := ← nullableField stringOfJson (text "termsOfUseUrl") members
    privacyPolicyUrl := ← nullableField stringOfJson (text "privacyPolicyUrl") members }

theorem ofJson_toJson (m : TonConnectManifestModel) : ofJson m.toJson = some m := by
  have hn : (m.fields.map (·.1)).Nodup := (by decide : names.Nodup)
  have hnames : m.fields.map (·.1) = names := rfl
  have hstring : ∀ s, stringOfJson (.string s) = some s := fun _ => rfl
  have hnullable : ∀ x : Option Text, ∀ s ∈ x,
      Json.Value.string s ≠ .null ∧ stringOfJson (.string s) = some s := by simp [stringOfJson]
  rw [ofJson, toJson, objectOfJson_present hnames]
  simp only [Option.bind_eq_bind, Option.bind_some, Option.pure_def,
    requiredField_present (text "url") hn (by simp [fields]) (hstring m.url),
    requiredField_present (text "name") hn (by simp [fields]) (hstring m.name),
    requiredField_present (text "iconUrl") hn (by simp [fields]) (hstring m.iconUrl),
    nullableField_present (text "termsOfUseUrl") hn (by simp [fields]) (hnullable m.termsOfUseUrl),
    nullableField_present (text "privacyPolicyUrl") hn (by simp [fields])
      (hnullable m.privacyPolicyUrl)]

end TonConnectManifestModel

namespace TonConnectConnectionKeyData

/-- The members of a key pair. -/
def fields (k : TonConnectConnectionKeyData) : List (Text × Option Json.Value) :=
  [(text "publicKey", some (bytesToJson k.publicKey)),
    (text "privateKey", some (bytesToJson k.privateKey))]

def names : List Text := [text "publicKey", text "privateKey"]

/-- The generated serializer of `TonConnectConnectionKeyData`. -/
def toJson (k : TonConnectConnectionKeyData) : Json.Value := .object (Json.present k.fields)

def ofJson (v : Json.Value) : Option TonConnectConnectionKeyData := do
  let members ← objectOfJson names v
  return {
    publicKey := ← requiredField bytesOfJson (text "publicKey") members
    privateKey := ← requiredField bytesOfJson (text "privateKey") members }

theorem ofJson_toJson (k : TonConnectConnectionKeyData) : ofJson k.toJson = some k := by
  have hn : (k.fields.map (·.1)).Nodup := (by decide : names.Nodup)
  have hnames : k.fields.map (·.1) = names := rfl
  rw [ofJson, toJson, objectOfJson_present hnames]
  simp only [Option.bind_eq_bind, Option.bind_some, Option.pure_def,
    requiredField_present (text "publicKey") hn (by simp [fields]) (bytes_roundtrip k.publicKey),
    requiredField_present (text "privateKey") hn (by simp [fields]) (bytes_roundtrip k.privateKey)]

end TonConnectConnectionKeyData

namespace TonConnectConnectionData

/-- The members of a connection. The id of the last event is left out if there was none. -/
def fields (d : TonConnectConnectionData) : List (Text × Option Json.Value) :=
  [(text "manifest", some d.manifest.toJson), (text "id", some (.string d.id)),
    (text "key", some d.key.toJson), (text "walletAddress", some (.string d.walletAddress)),
    (text "lastEventId", if d.lastEventId = -1 then none else some (.number d.lastEventId)),
    (text "payload", d.payload.map .string)]

def names : List Text :=
  [text "manifest", text "id", text "key", text "walletAddress", text "lastEventId", text "payload"]

/-- The generated serializer of `TonConnectConnectionData`. -/
def toJson (d : TonConnectConnectionData) : Json.Value := .object (Json.present d.fields)

def ofJson (v : Json.Value) : Option TonConnectConnectionData := do
  let members ← objectOfJson names v
  return {
    manifest := ← requiredField TonConnectManifestModel.ofJson (text "manifest") members
    id := ← requiredField stringOfJson (text "id") members
    key := ← requiredField TonConnectConnectionKeyData.ofJson (text "key") members
    walletAddress := ← requiredField stringOfJson (text "walletAddress") members
    lastEventId := ← defaultField (numberOfJson longMin longMax) (text "lastEventId") (-1) members
    payload := ← nullableField stringOfJson (text "payload") members }

/-- `json.encodeToString`. -/
def encodeToString (d : TonConnectConnectionData) : Text := Json.print d.toJson

/-- `json.decodeFromString`. -/
def decodeFromString (s : Text) : Option TonConnectConnectionData := (Json.parse s).bind ofJson

/-- `lastEventId` is a `Long`. -/
def HasLong (d : TonConnectConnectionData) : Prop :=
  longMin ≤ d.lastEventId ∧ d.lastEventId ≤ longMax

theorem ofJson_toJson {d : TonConnectConnectionData} (h : d.HasLong) :
    ofJson d.toJson = some d := by
  have hn : (d.fields.map (·.1)).Nodup := (by decide : names.Nodup)
  have hnames : d.fields.map (·.1) = names := rfl
  have hstring : ∀ s, stringOfJson (.string s) = some s := fun _ => rfl
  have hpayload : ∀ s ∈ d.payload,
      Json.Value.string s ≠ .null ∧ stringOfJson (.string s) = some s := by simp [stringOfJson]
  rw [ofJson, toJson, objectOfJson_present hnames]
  simp only [Option.bind_eq_bind, Option.bind_some, Option.pure_def,
    requiredField_present (text "manifest") hn (by simp [fields]) d.manifest.ofJson_toJson,
    requiredField_present (text "id") hn (by simp [fields]) (hstring d.id),
    requiredField_present (text "key") hn (by simp [fields]) d.key.ofJson_toJson,
    requiredField_present (text "walletAddress") hn (by simp [fields]) (hstring d.walletAddress),
    defaultField_present (text "lastEventId") (-1) hn (by simp [fields])
      (numberOfJson_number (n := d.lastEventId) h),
    nullableField_present (text "payload") hn (by simp [fields]) hpayload]

theorem decode_encode {d : TonConnectConnectionData} (h : d.HasLong) :
    decodeFromString d.encodeToString = some d := by
  rw [decodeFromString, encodeToString, Json.parse_print, Option.bind_some, ofJson_toJson h]

end TonConnectConnectionData

end TonWallet.TonConnect

namespace TonWallet.Storage.ConnectionMap

open Encoding TonConnect

/-! ## The map -/

/-- The connections that there should be. -/
abbrev Connections := Set TonConnectConnectionData

/-- The connection with the manifest is replaced. -/
def Connections.save (m : Connections) (d : TonConnectConnectionData) : Connections :=
  insert d {c ∈ m | c.manifest ≠ d.manifest}

/-- The connections with the id are taken away. -/
def Connections.delete (m : Connections) (d : TonConnectConnectionData) : Connections :=
  {c ∈ m | c.id ≠ d.id}

/-! ## The store -/

/-- The operations of the store. The type of `lastEventId` is `Long`. -/
inductive Operation where
  | save (d : TonConnectConnectionData) (h : d.HasLong)
  | delete (d : TonConnectConnectionData)

/-- The preferences, and the connections that there should be. -/
structure Store where
  preferences : DataStore
  connections : Connections

/-- One operation, on both. -/
def step (J : StorageJson) (s : Store) : Operation → Option Store
  | .save d _ => some {
      preferences := saveTonConnectManifest1 J s.preferences d
      connections := s.connections.save d }
  | .delete d => some {
      preferences := deleteTonConnectConnection J s.preferences d
      connections := s.connections.delete d }

/-- The connections that are read are those of the map, and no two of them have one manifest. -/
def Refines (J : StorageJson) (s : Store) : Prop :=
  ∃ l, getTonConnectManifests1 J s.preferences = .ok l ∧ (∀ c, c ∈ l ↔ c ∈ s.connections) ∧
    (l.map (·.manifest)).Nodup

/-- No removal looks for the name of the set, as long as there are connections with other ids. -/
def SparesSet (s : Store) : Operation → Prop
  | .save _ _ => True
  | .delete d => d.id = tonConnectManifestsKey → ∀ c ∈ s.connections, c.id = tonConnectManifestsKey

/-- What the operations keep. -/
structure Faithful (J : StorageJson) (s : Store) (l : List TonConnectConnectionData) : Prop where
  represents : Represents J s.preferences l
  mem_iff : ∀ c, c ∈ l ↔ c ∈ s.connections
  manifests : (l.map (·.manifest)).Nodup
  long : ∀ c ∈ l, c.HasLong

variable {J : StorageJson} {s t : Store} {l : List TonConnectConnectionData}
  {d : TonConnectConnectionData}

theorem Faithful.refines (h : Faithful J s l) : Refines J s :=
  ⟨l, h.represents.read, h.mem_iff, h.manifests⟩

/-- A set that is absent or empty has no connections. -/
theorem faithful_empty {p : DataStore}
    (hp : p tonConnectManifestsKey = none ∨ p tonConnectManifestsKey = some (.stringSet [])) :
    Faithful J ⟨p, ∅⟩ [] := by
  have hread : getTonConnectManifests1 J p = .ok [] := by
    obtain hnone | hset := hp
    · rw [getTonConnectManifests1, get_none hnone]
      rfl
    · rw [getTonConnectManifests1_stringSet hset]
      rfl
  exact ⟨⟨hread, List.nodup_nil⟩, fun c => iff_of_false List.not_mem_nil (Set.notMem_empty c),
    List.nodup_nil, List.forall_mem_nil _⟩

section
variable (hJ : ∀ c : TonConnectConnectionData, c.HasLong →
  J.decodeConnection (J.encodeConnection c) = some c)
include hJ

theorem Faithful.save (h : Faithful J s l) (hd : d.HasLong) :
    Faithful J ⟨saveTonConnectManifest1 J s.preferences d, s.connections.save d⟩
      (saveManifest l d) := by
  have hlong : ∀ c ∈ saveManifest l d, c.HasLong := by
    intro c hc
    obtain ⟨hc, -⟩ | rfl := mem_saveManifest.mp hc
    · exact h.long c hc
    · exact hd
  refine ⟨represents_save d h.represents fun c hc => hJ c (hlong c hc), fun c => ?_, ?_, hlong⟩
  · rw [mem_saveManifest, h.mem_iff, or_comm]
    rfl
  · rw [saveManifest, List.map_append]
    refine List.nodup_append.mpr ⟨h.manifests.sublist (List.filter_sublist.map _),
      List.nodup_singleton _, fun m hm m' hm' => ?_⟩
    obtain ⟨c, hc, rfl⟩ := List.mem_map.mp hm
    rw [List.mem_singleton.mp hm']
    exact of_decide_eq_true (List.mem_filter.mp hc).2

theorem Faithful.delete (h : Faithful J s l) (hid : d.id ≠ tonConnectManifestsKey) :
    Faithful J ⟨deleteTonConnectConnection J s.preferences d, s.connections.delete d⟩
      (deleteConnection l d) := by
  refine ⟨represents_delete h.represents (fun c hc => hJ c (h.long c hc)) hid, fun c => ?_,
    h.manifests.sublist (List.filter_sublist.map _),
    fun c hc => h.long c (mem_deleteConnection.mp hc).1⟩
  rw [mem_deleteConnection, h.mem_iff]
  rfl

omit hJ in
/-- After the set has been removed there are no connections. -/
theorem Faithful.delete_key (h : ∀ c ∈ s.connections, c.id = tonConnectManifestsKey)
    (hid : d.id = tonConnectManifestsKey) :
    Faithful J ⟨deleteTonConnectConnection J s.preferences d, s.connections.delete d⟩ [] := by
  refine ⟨represents_delete_key hid, fun c => iff_of_false List.not_mem_nil ?_, List.nodup_nil,
    List.forall_mem_nil _⟩
  rintro ⟨hc, hne⟩
  exact hne ((h c hc).trans hid.symm)

/-- The operations that spare the set keep the connections. -/
theorem keeps_faithful :
    Machine.Keeps (step J) SparesSet fun s => ∃ l, Faithful J s l := by
  rintro s a t ⟨l, h⟩ hspares ht
  cases a with
  | save d hd =>
    obtain rfl := Option.some.inj ht
    exact ⟨_, h.save hJ hd⟩
  | delete d =>
    obtain rfl := Option.some.inj ht
    by_cases hid : d.id = tonConnectManifestsKey
    · exact ⟨_, Faithful.delete_key (hspares hid) hid⟩
    · exact ⟨_, h.delete hJ hid⟩

omit hJ in
/-- The others lose a connection. -/
theorem loses_connection {a : Operation} (ht : step J s a = some t) (ha : ¬ SparesSet s a) :
    ¬ Refines J t := by
  cases a with
  | save d hd => exact absurd trivial ha
  | delete d =>
    obtain rfl := Option.some.inj ht
    simp only [SparesSet, Classical.not_forall] at ha
    obtain ⟨hid, c, hc, hne⟩ := ha
    rintro ⟨l, hread, hmem, -⟩
    obtain rfl := Except.ok.inj (hread.symm.trans (represents_delete_key (J := J) hid).read)
    exact List.not_mem_nil ((hmem c).mpr ⟨hc, fun he => hne (he.trans hid)⟩)

/-- **The connections are a map.** From a set that is absent or empty, the stored connections are
those of the map along exactly the runs in which no removal clears the set. -/
theorem refines_iff {p : DataStore}
    (hp : p tonConnectManifestsKey = none ∨ p tonConnectManifestsKey = some (.stringSet []))
    (as : List Operation) :
    Machine.Always (step J) (Refines J) ⟨p, ∅⟩ as ↔
      Machine.Guarded (step J) SparesSet ⟨p, ∅⟩ as :=
  Machine.always_iff_guarded (keeps_faithful hJ) (fun _ ⟨_, h⟩ => h.refines)
    (fun _ _ _ _ ht ha => loses_connection ht ha) ⟨[], faithful_empty hp⟩

end

/-! ## Two dApps -/

/-- The storage with the generated serializer of the connections. -/
def generatedJson : StorageJson where
  decodeWalletData _ := none
  decodeWalletVersion _ := none
  decodePasscodeData _ := none
  decodeTransactions _ := none
  decodePrimaryCurrency _ := none
  decodeConnection := TonConnectConnectionData.decodeFromString
  encodeConnection := TonConnectConnectionData.encodeToString

theorem generatedJson_decodes (c : TonConnectConnectionData) (h : c.HasLong) :
    generatedJson.decodeConnection (generatedJson.encodeConnection c) = some c := by
  simp only [generatedJson]
  exact TonConnectConnectionData.decode_encode h

/-- A connection of the dApp of this name, with this client id. -/
def connectionOf (name id : Text) : TonConnectConnectionData where
  manifest := { url := name, name := name, iconUrl := [] }
  id := id
  key := { publicKey := [1], privateKey := [2] }
  walletAddress := text "EQ"

theorem connectionOf_long (name id : Text) : (connectionOf name id).HasLong := by
  show longMin ≤ -1 ∧ (-1 : ℤ) ≤ longMax
  decide

/-- Two dApps are connected, the second one with the given client id, and the second one is
disconnected again. -/
def disconnectSecond (id : Text) : List Operation :=
  [.save (connectionOf (text "a") (text "1")) (connectionOf_long _ _),
    .save (connectionOf (text "b") id) (connectionOf_long _ _),
    .delete (connectionOf (text "b") id)]

theorem refines_two :
    Machine.Always (step generatedJson) (Refines generatedJson) ⟨fun _ => none, ∅⟩
        (disconnectSecond (text "2")) ↔
      Machine.Guarded (step generatedJson) SparesSet ⟨fun _ => none, ∅⟩
        (disconnectSecond (text "2")) :=
  refines_iff generatedJson_decodes (.inl rfl) _

/-- The second dApp gives the name of the set as its client id. With it the first one is
disconnected. -/
theorem set_removed :
    ¬ ∀ (J : StorageJson), (∀ c : TonConnectConnectionData, c.HasLong →
        J.decodeConnection (J.encodeConnection c) = some c) →
      ∀ as : List Operation, Machine.Always (step J) (Refines J) ⟨fun _ => none, ∅⟩ as := by
  intro h
  have halways := h generatedJson generatedJson_decodes (disconnectSecond tonConnectManifestsKey)
  have hguarded := (Machine.always_iff_guarded (keeps_faithful generatedJson_decodes)
    (fun _ ⟨_, h⟩ => h.refines) (fun _ _ _ _ => loses_connection)
    ⟨[], faithful_empty (.inl rfl)⟩).mp halways
  have hspares := (((hguarded _ rfl).2 _ rfl).2 _ rfl).1
  have hid : text "1" = tonConnectManifestsKey :=
    hspares rfl (connectionOf (text "a") (text "1")) (.inr ⟨.inl rfl, by decide +kernel⟩)
  revert hid
  decide +kernel

end TonWallet.Storage.ConnectionMap
