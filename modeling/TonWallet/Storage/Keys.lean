import TonWallet.Storage.Transactions
import TonWallet.TonConnect.Types

/-!
# The names of the preferences

`Storage` keeps everything in one map from names to values of any type. Next to
the fixed names, and the names made of a wallet version, stand the ids of the
connected dApps: a connection has its last event id under its own id, which
comes from the scanned link and is not checked.

* `key_names_separate_iff`: for which ids the two operations on a connection
  leave all other readers alone.
* `wallet_lost`: an id that is the name of a wallet.
-/

namespace TonWallet.Storage

open Encoding Distinct TonConnect

/-! ## Names -/

/-- `WalletVersion.toStringPreferencesKey` (`Storage.kt` lines 378–384). -/
def WalletVersion.toStringPreferencesKey : WalletVersion → Text
  | .V3R1 => text "WALLET_ADDRESS_v3R1"
  | .V3R2 => text "WALLET_ADDRESS_v3R2"
  | .V4R2 => text "WALLET_ADDRESS_v4R2"

/-- `WalletVersion.name`. -/
def WalletVersion.name : WalletVersion → Text
  | .V3R1 => text "V3R1"
  | .V3R2 => text "V3R2"
  | .V4R2 => text "V4R2"

/-- `"${version.name}_transactions"`. -/
def WalletVersion.transactionsKey (version : WalletVersion) : Text :=
  version.name ++ text "_transactions"

/-- The version that is selected. -/
def currentWalletVersionKey : Text := text "CURRENT_WALLET_VERSION"
/-- The record of the passcode. -/
def applicationPasscodeKey : Text := text "APPLICATION_PASSCODE"
/-- The three settings. -/
def settingsNotificationsKey : Text := text "SETTINGS_NOTIFICATIONS_KEY"
def settingsBiometricKey : Text := text "SETTINGS_BIOMETRIC_KEY"
def settingsPrimaryCurrencyKey : Text := text "SETTINGS_PRIMARY_CURRENCY_KEY"
/-- The set of the connections. -/
def tonConnectManifestsKey : Text := text "TON_CONNECT_MANIFESTS_KEY"

/-- The names of everything but the connections. -/
def recordNames : List Text :=
  [WalletVersion.V3R1, .V3R2, .V4R2].flatMap
      (fun v => [v.toStringPreferencesKey, v.transactionsKey])
    ++ [currentWalletVersionKey, applicationPasscodeKey, settingsNotificationsKey,
      settingsBiometricKey, settingsPrimaryCurrencyKey]

/-- All names that the storage uses itself. -/
def keyNames : List Text := tonConnectManifestsKey :: recordNames

/-! ## Values -/

/-- What is stored under a name. -/
inductive Value where
  | string (value : Text)
  | long (value : ℤ)
  | boolean (value : Bool)
  | stringSet (value : List Text)
deriving DecidableEq, Repr

/-- The preferences: a key finds whatever has its name. -/
abbrev DataStore := Text → Option Value

/-- How a reader fails. -/
inductive ReadError where
  | classCast
  | serialization
deriving DecidableEq, Repr

/-- `PrimaryCurrency`. -/
inductive PrimaryCurrency where
  | USD
  | EUR
  | RUB
  | AED
  | CNY
deriving DecidableEq, Repr

/-- The decoders of the storage, `none` for a `SerializationException`, and the encoder it needs
for the connections. -/
structure StorageJson where
  decodeWalletData : Text → Option WalletData
  decodeWalletVersion : Text → Option WalletVersion
  decodePasscodeData : Text → Option PasscodeData
  decodeTransactions : Text → Option (List RawTransaction)
  decodePrimaryCurrency : Text → Option PrimaryCurrency
  decodeConnection : Text → Option TonConnectConnectionData
  encodeConnection : TonConnectConnectionData → Text

/-! ## Readers -/

/-- The cast of a string key. -/
def Value.asString : Value → Option Text
  | .string value => some value
  | _ => none

/-- The cast of a long key. -/
def Value.asLong : Value → Option ℤ
  | .long value => some value
  | _ => none

/-- The cast of a boolean key. -/
def Value.asBoolean : Value → Option Bool
  | .boolean value => some value
  | _ => none

/-- The cast of a string set key. -/
def Value.asStringSet : Value → Option (List Text)
  | .stringSet value => some value
  | _ => none

/-- The value under the name of a key. The type of the key is only used as a cast. -/
def get {α : Type} (cast : Value → Option α) (p : DataStore) (name : Text) :
    Except ReadError (Option α) :=
  match p name with
  | none => .ok none
  | some value =>
    match cast value with
    | some a => .ok (some a)
    | none => .error .classCast

/-- `json.decodeFromString`. -/
def decodeJson {α : Type} (decode : Text → Option α) (value : Text) : Except ReadError α :=
  match decode value with
  | some a => .ok a
  | none => .error .serialization

/-- The record under a name, decoded. -/
def getRecord {α : Type} (decode : Text → Option α) (p : DataStore) (name : Text) :
    Except ReadError (Option α) := do
  match ← get Value.asString p name with
  | none => return none
  | some value => return some (← decodeJson decode value)

section
variable (J : StorageJson) (p : DataStore)

/-- `isWalletExist` (`Storage.kt` lines 48–57). -/
def isWalletExist : Bool :=
  [WalletVersion.V3R1, .V3R2, .V4R2].any fun v => (p v.toStringPreferencesKey).isSome

/-- `getWalletWithVersion` (`Storage.kt` lines 112–115). -/
def getWalletWithVersion (version : WalletVersion) : Except ReadError (Option WalletData) :=
  getRecord J.decodeWalletData p version.toStringPreferencesKey

/-- `getCurrentWalletVersion` (`Storage.kt` lines 117–125). -/
def getCurrentWalletVersion : Except ReadError WalletVersion := do
  return (← getRecord J.decodeWalletVersion p currentWalletVersionKey).getD .V3R2

/-- `getCurrentWallet` (`Storage.kt` lines 92–94). -/
def getCurrentWallet : Except ReadError (Option WalletData) := do
  getWalletWithVersion J p (← getCurrentWalletVersion J p)

/-- `getPasscodeEncryptedData` (`Storage.kt` lines 154–158). -/
def getPasscodeEncryptedData : Except ReadError (Option PasscodeData) :=
  getRecord J.decodePasscodeData p applicationPasscodeKey

/-- The transactions that `getTransactionsFlow` and `getCurrentTransactions` read for a version
(`Storage.kt` lines 193–212). -/
def getTransactions (version : WalletVersion) : Except ReadError (List RawTransaction) := do
  return (← getRecord J.decodeTransactions p version.transactionsKey).getD []

/-- `getNotificationsStateFlow` (`Storage.kt` lines 259–263). -/
def getNotificationsState : Except ReadError Bool := do
  return (← get Value.asBoolean p settingsNotificationsKey).getD true

/-- `getBiometricAuthFlow` (`Storage.kt` lines 272–276). -/
def getBiometricAuth : Except ReadError Bool := do
  return (← get Value.asBoolean p settingsBiometricKey).getD true

/-- `getPrimaryCurrency` (`Storage.kt` lines 286–292). -/
def getPrimaryCurrency : Except ReadError PrimaryCurrency := do
  return (← getRecord J.decodePrimaryCurrency p settingsPrimaryCurrencyKey).getD .USD

/-- `getTonConnectManifests1` (`Storage.kt` lines 327–334). -/
def getTonConnectManifests1 : Except ReadError (List TonConnectConnectionData) := do
  match ← get Value.asStringSet p tonConnectManifestsKey with
  | none => return []
  | some manifests => manifests.mapM (decodeJson J.decodeConnection)

/-- `getTonConnectLastEventId` (`Storage.kt` lines 369–371). -/
def getTonConnectLastEventId (clientId : Text) : Except ReadError ℤ := do
  return (← get Value.asLong p clientId).getD (-1)

/-! ## Writers -/

/-- `dataStore.edit`: nothing is written when the transformation throws. -/
def edit (transform : DataStore → Except ReadError DataStore) : DataStore :=
  match transform p with
  | .ok q => q
  | .error _ => p

/-- `saveTonConnectLastEventId` (`Storage.kt` lines 363–367). -/
def saveTonConnectLastEventId (clientId : Text) (lastEventId : ℤ) : DataStore :=
  edit p fun p => .ok (Function.update p clientId (some (.long lastEventId)))

/-- `toSet` of a list of strings. -/
def toSet (l : List Text) : List Text := distinctBy id l

/-- `deleteTonConnectConnection` (`Storage.kt` lines 344–361). -/
def deleteTonConnectConnection (data : TonConnectConnectionData) : DataStore :=
  edit p fun p => do
    let preferences := Function.update p data.id none
    let currentList ← getTonConnectManifests1 J preferences
    let updatedSet := (currentList.filter fun it => it.id ≠ data.id).map J.encodeConnection
    return Function.update preferences tonConnectManifestsKey (some (.stringSet (toSet updatedSet)))

/-! ## Separation -/

/-- The connection is stored. -/
def StoresConnection (data : TonConnectConnectionData) : Prop :=
  ∃ l, getTonConnectManifests1 J p = .ok l ∧ data ∈ l

/-- What is decoded from the stored connections is encoded so that it can be decoded again. -/
def RoundTrips : Prop :=
  ∀ data, StoresConnection J p data → J.decodeConnection (J.encodeConnection data) = some data

end

/-- The readers of the wallets, of the passcode, of the histories and of the settings return in
`q` what they return in `p`. -/
structure SameRecords (J : StorageJson) (p q : DataStore) : Prop where
  walletExist : isWalletExist q = isWalletExist p
  wallet : ∀ version, getWalletWithVersion J q version = getWalletWithVersion J p version
  version : getCurrentWalletVersion J q = getCurrentWalletVersion J p
  currentWallet : getCurrentWallet J q = getCurrentWallet J p
  passcode : getPasscodeEncryptedData J q = getPasscodeEncryptedData J p
  transactions : ∀ version, getTransactions J q version = getTransactions J p version
  notifications : getNotificationsState q = getNotificationsState p
  biometric : getBiometricAuth q = getBiometricAuth p
  currency : getPrimaryCurrency J q = getPrimaryCurrency J p

/-- The connections with another id than `id` are stored in `q` as they are in `p`. A last event
id is read for every connection that is stored, and for every id that is no other key. -/
structure SameConnections (J : StorageJson) (id : Text) (p q : DataStore) : Prop where
  stored : ∀ data, data.id ≠ id → (StoresConnection J q data ↔ StoresConnection J p data)
  fails : ∀ e, getTonConnectManifests1 J q = .error e ↔ getTonConnectManifests1 J p = .error e
  lastEventId : ∀ other, other ≠ id →
    (other ∉ keyNames ∨ ∃ data, StoresConnection J p data ∧ data.id = other) →
      getTonConnectLastEventId q other = getTonConnectLastEventId p other

/-- All other readers return in `q` what they return in `p`. -/
structure SameReadings (J : StorageJson) (id : Text) (p q : DataStore) : Prop where
  records : SameRecords J p q
  connections : SameConnections J id p q

variable {J : StorageJson} {p q : DataStore} {id : Text}

theorem SameReadings.refl : SameReadings J id p p where
  records := ⟨rfl, fun _ => rfl, rfl, rfl, rfl, fun _ => rfl, rfl, rfl, rfl⟩
  connections := ⟨fun _ _ => Iff.rfl, fun _ => Iff.rfl, fun _ _ _ => rfl⟩

theorem edit_ok {transform : DataStore → Except ReadError DataStore} (h : transform p = .ok q) :
    edit p transform = q := by
  rw [edit, h]

theorem wallet_mem (version : WalletVersion) :
    version.toStringPreferencesKey ∈ recordNames ∧ version.transactionsKey ∈ recordNames := by
  cases version <;> simp [recordNames]

theorem get_none {α : Type} {cast : Value → Option α} {name : Text} (h : p name = none) :
    get cast p name = .ok none := by
  rw [get, h]

theorem get_some {α : Type} {cast : Value → Option α} {name : Text} {value : Value}
    (h : p name = some value) :
    get cast p name =
      match cast value with | some a => .ok (some a) | none => .error .classCast := by
  rw [get, h]

theorem get_congr {α : Type} {cast : Value → Option α} {name : Text} (h : q name = p name) :
    get cast q name = get cast p name := by
  rw [get, h, get]

/-- The readers look only under their names. -/
theorem sameRecords_of_names (h : ∀ name ∈ recordNames, q name = p name) : SameRecords J p q := by
  have hrecord : ∀ {α : Type} (decode : Text → Option α), ∀ name ∈ recordNames,
      getRecord decode q name = getRecord decode p name := by
    intro α decode name hname
    rw [getRecord, get_congr (h name hname), getRecord]
  have hwallet : ∀ version, getWalletWithVersion J q version = getWalletWithVersion J p version :=
    fun version => hrecord _ _ (wallet_mem version).1
  have hversion : getCurrentWalletVersion J q = getCurrentWalletVersion J p := by
    rw [getCurrentWalletVersion, hrecord _ _ (by simp [recordNames]), getCurrentWalletVersion]
  refine ⟨?_, hwallet, hversion, ?_, ?_, fun version => ?_, ?_, ?_, ?_⟩
  · simp only [isWalletExist, h _ (wallet_mem _).1]
  · simp only [getCurrentWallet, hversion, hwallet]
  · exact hrecord _ _ (by simp [recordNames])
  · rw [getTransactions, hrecord _ _ (wallet_mem version).2, getTransactions]
  · rw [getNotificationsState, get_congr (h _ (by simp [recordNames])), getNotificationsState]
  · rw [getBiometricAuth, get_congr (h _ (by simp [recordNames])), getBiometricAuth]
  · rw [getPrimaryCurrency, hrecord _ _ (by simp [recordNames]), getPrimaryCurrency]

theorem SameRecords.symm (h : SameRecords J p q) : SameRecords J q p :=
  ⟨h.walletExist.symm, fun v => (h.wallet v).symm, h.version.symm, h.currentWallet.symm,
    h.passcode.symm, fun v => (h.transactions v).symm, h.notifications.symm, h.biometric.symm,
    h.currency.symm⟩

/-- Every name has a reader that notices a number in the place of nothing. -/
theorem records_differ {n : ℤ} (hid : id ∈ recordNames) (hp : p id = some (.long n))
    (hq : q id = none) : ¬ SameRecords J p q := by
  intro h
  have hp' : ∀ {α : Type} (decode : Text → Option α),
      getRecord decode p id = .error .classCast := by
    intro α decode
    rw [getRecord, get_some hp]
    rfl
  have hq' : ∀ {α : Type} (decode : Text → Option α), getRecord decode q id = .ok none := by
    intro α decode
    rw [getRecord, get_none hq]
    rfl
  have hwallet : ∀ v : WalletVersion, id ≠ v.toStringPreferencesKey := by
    rintro v rfl
    have hv := h.wallet v
    rw [getWalletWithVersion, getWalletWithVersion, hp', hq'] at hv
    cases hv
  have htransactions : ∀ v : WalletVersion, id ≠ v.transactionsKey := by
    rintro v rfl
    have hv := h.transactions v
    rw [getTransactions, getTransactions, hp', hq'] at hv
    cases hv
  simp only [recordNames, List.flatMap_cons, List.flatMap_nil, List.mem_append, List.mem_cons,
    List.not_mem_nil, or_false, hwallet, htransactions, false_or] at hid
  obtain rfl | rfl | rfl | rfl | rfl := hid
  · have hv := h.version
    rw [getCurrentWalletVersion, getCurrentWalletVersion, hp', hq'] at hv
    cases hv
  · have hv := h.passcode
    rw [getPasscodeEncryptedData, getPasscodeEncryptedData, hp', hq'] at hv
    cases hv
  · have hv := h.notifications
    rw [getNotificationsState, getNotificationsState, get_some hp, get_none hq] at hv
    cases hv
  · have hv := h.biometric
    rw [getBiometricAuth, getBiometricAuth, get_some hp, get_none hq] at hv
    cases hv
  · have hv := h.currency
    rw [getPrimaryCurrency, getPrimaryCurrency, hp', hq'] at hv
    cases hv

/-! ## The two writers -/

theorem saveTonConnectLastEventId_eq (p : DataStore) (clientId : Text) (n : ℤ) :
    saveTonConnectLastEventId p clientId n = Function.update p clientId (some (.long n)) := rfl

/-- The stored connections are what is read under one name. -/
theorem getTonConnectManifests1_congr (h : q tonConnectManifestsKey = p tonConnectManifestsKey) :
    getTonConnectManifests1 J q = getTonConnectManifests1 J p := by
  rw [getTonConnectManifests1, get_congr h, getTonConnectManifests1]

theorem getTonConnectManifests1_stringSet {manifests : List Text}
    (h : p tonConnectManifestsKey = some (.stringSet manifests)) :
    getTonConnectManifests1 J p = manifests.mapM (decodeJson J.decodeConnection) := by
  rw [getTonConnectManifests1, get_some h]
  rfl

/-- Encoded connections are decoded again. -/
theorem mapM_decodeJson {l : List TonConnectConnectionData}
    (h : ∀ data ∈ l, J.decodeConnection (J.encodeConnection data) = some data) :
    (l.map J.encodeConnection).mapM (decodeJson J.decodeConnection) = .ok l := by
  induction l with
  | nil => rfl
  | cons data l ih =>
    obtain ⟨hd, hl⟩ := List.forall_mem_cons.mp h
    rw [List.map_cons, List.mapM_cons, ih hl, decodeJson, hd]
    rfl

theorem toSet_sublist (l : List Text) : (toSet l).Sublist l := distinctFrom_sublist []

theorem mem_toSet {l : List Text} {s : Text} : s ∈ toSet l ↔ s ∈ l := by
  have h : s ∈ (toSet l).map id ↔ s ∈ l.map id := mem_map_distinctBy
  rwa [List.map_id, List.map_id] at h

/-- The set of the encoded connections is that of some of them, and has them all. -/
theorem toSet_map_encode {l : List TonConnectConnectionData}
    (h : ∀ data ∈ l, J.decodeConnection (J.encodeConnection data) = some data) :
    ∃ l' : List TonConnectConnectionData,
      toSet (l.map J.encodeConnection) = l'.map J.encodeConnection ∧
        ∀ data, data ∈ l' ↔ data ∈ l := by
  obtain ⟨l', hsub, hset⟩ := List.sublist_map_iff.mp (toSet_sublist (l.map J.encodeConnection))
  refine ⟨l', hset, fun data => ⟨fun hd => hsub.subset hd, fun hd => ?_⟩⟩
  have hmem : J.encodeConnection data ∈ toSet (l.map J.encodeConnection) :=
    mem_toSet.mpr (List.mem_map_of_mem hd)
  rw [hset] at hmem
  obtain ⟨data', hd', he'⟩ := List.mem_map.mp hmem
  -- Two connections with one encoding are decoded from it.
  have hdec := h data' (hsub.subset hd')
  rw [he', h data hd] at hdec
  exact Option.some.inj hdec ▸ hd'

theorem storesConnection_iff {l : List TonConnectConnectionData} {data : TonConnectConnectionData}
    (h : getTonConnectManifests1 J p = .ok l) : StoresConnection J p data ↔ data ∈ l := by
  constructor
  · rintro ⟨l', h', hd⟩
    exact Except.ok.inj (h.symm.trans h') ▸ hd
  · exact fun hd => ⟨l, h, hd⟩

/-- Where a connection is stored, there is a set. -/
theorem StoresConnection.stringSet {data : TonConnectConnectionData}
    (h : StoresConnection J p data) :
    ∃ manifests, p tonConnectManifestsKey = some (.stringSet manifests) := by
  obtain ⟨l, hl, hd⟩ := h
  rw [getTonConnectManifests1] at hl
  cases hk : p tonConnectManifestsKey with
  | none =>
    rw [get_none hk] at hl
    obtain rfl := Except.ok.inj hl
    cases hd
  | some value =>
    rw [get_some hk] at hl
    cases value with
    | stringSet manifests => exact ⟨manifests, rfl⟩
    | _ => cases hl

theorem not_mem_keyNames : id ∉ keyNames ↔ id ≠ tonConnectManifestsKey ∧ id ∉ recordNames := by
  rw [keyNames, List.mem_cons, not_or]

theorem tonConnectManifestsKey_not_mem : tonConnectManifestsKey ∉ recordNames := by decide +kernel

/-- A last event id under a name of its own disturbs no other reader. -/
theorem sameReadings_save (hid : id ∉ keyNames) (p : DataStore) (n : ℤ) :
    SameReadings J id p (saveTonConnectLastEventId p id n) := by
  obtain ⟨hkey, hrecord⟩ := not_mem_keyNames.mp hid
  rw [saveTonConnectLastEventId_eq]
  have hread := getTonConnectManifests1_congr (J := J)
    (Function.update_of_ne hkey.symm (some (.long n)) p)
  refine ⟨sameRecords_of_names fun name hname => ?_, ⟨fun data _ => ?_, fun e => ?_, ?_⟩⟩
  · refine Function.update_of_ne (fun he => hrecord ?_) _ _
    exact he ▸ hname
  · rw [StoresConnection, hread, StoresConnection]
  · rw [hread]
  · intro other hne _
    rw [getTonConnectLastEventId, get_congr (Function.update_of_ne hne _ _),
      getTonConnectLastEventId]

theorem deleteTonConnectConnection_ok {data : TonConnectConnectionData}
    {l : List TonConnectConnectionData}
    (h : getTonConnectManifests1 J (Function.update p data.id none) = .ok l) :
    deleteTonConnectConnection J p data
      = Function.update (Function.update p data.id none) tonConnectManifestsKey (some (.stringSet
        (toSet ((l.filter fun it => it.id ≠ data.id).map J.encodeConnection)))) := by
  refine edit_ok ?_
  simp only [h]
  rfl

/-- So does the removal of a connection, if its id is no other name. -/
theorem sameReadings_delete {data : TonConnectConnectionData} (hid : data.id ∉ keyNames)
    (hJ : RoundTrips J p) : SameReadings J data.id p (deleteTonConnectConnection J p data) := by
  obtain ⟨hkey, hrecord⟩ := not_mem_keyNames.mp hid
  have hread := getTonConnectManifests1_congr (J := J) (Function.update_of_ne hkey.symm none p)
  cases hl : getTonConnectManifests1 J p with
  | error e =>
    have hq : deleteTonConnectConnection J p data = p := by
      simp only [deleteTonConnectConnection, edit, hread, hl]
      rfl
    rw [hq]
    exact SameReadings.refl
  | ok l =>
    obtain ⟨l', hset, hl'⟩ := toSet_map_encode (l := l.filter fun it => it.id ≠ data.id)
      fun c hc => hJ c ((storesConnection_iff hl).mpr (List.mem_of_mem_filter hc))
    have hq : deleteTonConnectConnection J p data = Function.update (Function.update p data.id none)
        tonConnectManifestsKey (some (.stringSet (l'.map J.encodeConnection))) := by
      rw [deleteTonConnectConnection_ok (hread.trans hl), hset]
    rw [hq]
    have hother : ∀ name, name ≠ data.id → name ≠ tonConnectManifestsKey →
        Function.update (Function.update p data.id none) tonConnectManifestsKey
          (some (.stringSet (l'.map J.encodeConnection))) name = p name := by
      intro name hne hk
      rw [Function.update_of_ne hk, Function.update_of_ne hne]
    have hread' := (getTonConnectManifests1_stringSet (J := J)
      (Function.update_self tonConnectManifestsKey
        (some (.stringSet (l'.map J.encodeConnection))) (Function.update p data.id none))).trans
      (mapM_decodeJson fun c hc => hJ c ((storesConnection_iff hl).mpr
        (List.mem_of_mem_filter ((hl' c).mp hc))))
    refine ⟨sameRecords_of_names fun name hname => ?_, ⟨fun c hc => ?_, fun e => ?_, ?_⟩⟩
    · refine hother name (fun he => hrecord (he ▸ hname)) fun he => ?_
      exact tonConnectManifestsKey_not_mem (he ▸ hname)
    · rw [storesConnection_iff hread', storesConnection_iff hl, hl', List.mem_filter]
      simp [hc]
    · rw [hread', hl]
      simp
    · intro other hne hor
      by_cases hk : other = tonConnectManifestsKey
      -- Under the name of the set there is no number, before and after.
      · subst hk
        obtain hnot | ⟨c, hc, -⟩ := hor
        · exact absurd List.mem_cons_self hnot
        · obtain ⟨manifests, hp⟩ := hc.stringSet
          rw [getTonConnectLastEventId, get_some (Function.update_self _ _ _),
            getTonConnectLastEventId, get_some hp]
          rfl
      · rw [getTonConnectLastEventId, get_congr (hother other hne hk), getTonConnectLastEventId]

/-- The storage of a fresh installation after an event of a connection. -/
def afterEvent (id : Text) : DataStore := Function.update (fun _ => none) id (some (.long 0))

/-- A connection with this id. -/
def connectionOf (id : Text) : TonConnectConnectionData where
  manifest := { url := [], name := [], iconUrl := [] }
  id := id
  key := { publicKey := [], privateKey := [] }
  walletAddress := []

theorem afterEvent_self (id : Text) : afterEvent id id = some (.long 0) := Function.update_self ..

/-- There is a number in the place of the set. -/
theorem getTonConnectManifests1_afterEvent (J : StorageJson) :
    getTonConnectManifests1 J (afterEvent tonConnectManifestsKey) = .error .classCast := by
  rw [getTonConnectManifests1, get_some (afterEvent_self _)]
  rfl

theorem roundTrips_afterEvent (J : StorageJson) (id : Text) : RoundTrips J (afterEvent id) := by
  intro c hc
  obtain ⟨manifests, hk⟩ := hc.stringSet
  by_cases hn : tonConnectManifestsKey = id
  · rw [hn, afterEvent_self] at hk
    cases hk
  · have hnone : afterEvent id tonConnectManifestsKey = none := Function.update_of_ne hn ..
    rw [hnone] at hk
    cases hk

theorem not_sameReadings_save (J : StorageJson) (hid : id ∈ keyNames) :
    ¬ SameReadings J id (fun _ => none) (afterEvent id) := by
  intro hsame
  obtain rfl | hid := List.mem_cons.mp hid
  · cases (hsame.connections.fails .classCast).mp (getTonConnectManifests1_afterEvent J)
  · exact records_differ hid (afterEvent_self id) rfl hsame.records.symm

/-- The removal leaves an empty set of connections, and nothing under the id. -/
theorem delete_afterEvent (J : StorageJson) (id : Text) :
    deleteTonConnectConnection J (afterEvent id) (connectionOf id)
      = Function.update (Function.update (afterEvent id) id none) tonConnectManifestsKey
        (some (.stringSet [])) := by
  have hnone : Function.update (afterEvent id) (connectionOf id).id none tonConnectManifestsKey
      = none := by
    rw [connectionOf, afterEvent, Function.update_idem]
    by_cases hn : tonConnectManifestsKey = id
    · rw [hn, Function.update_self]
    · exact Function.update_of_ne hn ..
  have hread : getTonConnectManifests1 J
      (Function.update (afterEvent id) (connectionOf id).id none) = .ok [] := by
    rw [getTonConnectManifests1, get_none hnone]
    rfl
  rw [deleteTonConnectConnection_ok hread]
  rfl

theorem not_sameReadings_delete (J : StorageJson) (hid : id ∈ keyNames) :
    ¬ SameReadings J id (afterEvent id)
      (deleteTonConnectConnection J (afterEvent id) (connectionOf id)) := by
  intro hsame
  rw [delete_afterEvent] at hsame
  obtain rfl | hid := List.mem_cons.mp hid
  · have hok := (hsame.connections.fails .classCast).mpr (getTonConnectManifests1_afterEvent J)
    rw [getTonConnectManifests1_stringSet (Function.update_self _ _ _)] at hok
    cases hok
  · refine records_differ hid (afterEvent_self id) ?_ hsame.records
    have hne : id ≠ tonConnectManifestsKey := by
      rintro rfl
      exact tonConnectManifestsKey_not_mem hid
    rw [Function.update_of_ne hne, Function.update_self]

/-- **Separation of the names.** A last event id is written, and a connection removed, without
an effect on any other reader, in every state of the storage, if and only if the id of the
connection is none of the names that the storage uses itself. -/
theorem key_names_separate_iff (J : StorageJson) (id : Text) :
    ((∀ p n, SameReadings J id p (saveTonConnectLastEventId p id n)) ↔ id ∉ keyNames) ∧
    ((∀ p data, data.id = id → RoundTrips J p →
      SameReadings J id p (deleteTonConnectConnection J p data)) ↔ id ∉ keyNames) := by
  constructor
  · refine ⟨fun h hid => ?_, fun hid p n => sameReadings_save hid p n⟩
    exact not_sameReadings_save J hid (h (fun _ => none) 0)
  · refine ⟨fun h hid => ?_, fun hid p data hd hJ => hd ▸ sameReadings_delete (hd ▸ hid) hJ⟩
    exact not_sameReadings_delete J hid
      (h (afterEvent id) (connectionOf id) rfl (roundTrips_afterEvent J id))

/-! ## A connection with the name of a wallet -/

/-- The wallet of the storage below. -/
def sampleWallet : WalletData where
  address := text "EQ"
  publicKey := some (text "Pub")
  walletVersion := .V3R2
  lastTransactionId := {}
  balance := 5

/-- Its encoding. -/
def sampleWalletJson : Text :=
  text "\x7b\"address\":\"EQ\",\"publicKey\":\"Pub\",\"walletVersion\":\"V3R2\","
    ++ text "\"lastTransactionId\":\x7b\x7d,\"balance\":5\x7d"

/-- Decoders of that storage, which has no connection. -/
def sampleStorageJson : StorageJson where
  decodeWalletData s := if s = sampleWalletJson then some sampleWallet else none
  decodeWalletVersion _ := none
  decodePasscodeData _ := none
  decodeTransactions _ := none
  decodePrimaryCurrency _ := none
  decodeConnection _ := none
  encodeConnection _ := []

/-- The storage of a wallet. -/
def sampleStorage : DataStore
  | name => if name = WalletVersion.V3R2.toStringPreferencesKey then some (.string sampleWalletJson)
    else none

/-- A connection whose id, taken from its link, is the name of that wallet. -/
def namedConnection : TonConnectConnectionData where
  manifest := { url := text "https://dapp", name := text "dApp", iconUrl := text "icon" }
  id := text "WALLET_ADDRESS_v3R2"
  key := { publicKey := [3], privateKey := [4] }
  walletAddress := text "EQ"

/-- The first event of the connection replaces the wallet by a number, which the reader of the
wallet cannot cast, and the removal of the connection removes the wallet. -/
theorem wallet_lost :
    getWalletWithVersion sampleStorageJson sampleStorage .V3R2 = .ok (some sampleWallet) ∧
    ¬ SameReadings sampleStorageJson namedConnection.id sampleStorage
      (saveTonConnectLastEventId sampleStorage namedConnection.id 7) ∧
    ¬ SameReadings sampleStorageJson namedConnection.id sampleStorage
      (deleteTonConnectConnection sampleStorageJson sampleStorage namedConnection) := by
  have hwallet : getWalletWithVersion sampleStorageJson sampleStorage .V3R2
      = .ok (some sampleWallet) := by
    decide +kernel
  have hsaved : getWalletWithVersion sampleStorageJson
      (saveTonConnectLastEventId sampleStorage namedConnection.id 7) .V3R2 = .error .classCast := by
    decide +kernel
  have hdeleted : getWalletWithVersion sampleStorageJson
      (deleteTonConnectConnection sampleStorageJson sampleStorage namedConnection) .V3R2
        = .ok none := by
    decide +kernel
  refine ⟨hwallet, fun h => ?_, fun h => ?_⟩
  · have hv := h.records.wallet .V3R2
    rw [hwallet, hsaved] at hv
    cases hv
  · have hv := h.records.wallet .V3R2
    rw [hwallet, hdeleted] at hv
    cases hv

end TonWallet.Storage
