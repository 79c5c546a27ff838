import TonWallet.Storage.Serial

/-!
# Transactions from tonlib

The classes of tonlib, the classes that are stored, and the conversions between
them, field by field. A transaction of tonlib has no incoming message when the
account was set off by something else, and a message may have no body hash.

* `ofJson_toJson`: a stored transaction is read as it was written.
* `toStorage_lossless_iff`: which transactions are converted, stored and read back.
-/

/-! ## tonlib -/

namespace TonWallet.TonApi

open Encoding Storage

/-- `TonApi.AccountAddress`. -/
structure AccountAddress where
  accountAddress : Text
deriving DecidableEq, Repr

/-- `TonApi.InternalTransactionId`. -/
structure InternalTransactionId where
  lt : Long
  hash : Option Bytes
deriving DecidableEq, Repr

/-- The subclasses of `TonApi.MsgData`. -/
inductive MsgData where
  | MsgDataRaw (body initState : Bytes)
  | MsgDataText (text : Bytes)
  | MsgDataDecryptedText (text : Bytes)
  | MsgDataEncryptedText (text : Option Bytes)
deriving DecidableEq, Repr

/-- `TonApi.RawMessage`. -/
structure RawMessage where
  source : AccountAddress
  destination : AccountAddress
  value : Long
  fwdFee : Long
  ihrFee : Long
  createdLt : Long
  bodyHash : Option Bytes
  msgData : MsgData
deriving DecidableEq, Repr

/-- `TonApi.RawTransaction` (`TonApi.java` lines 3261–3285). -/
structure RawTransaction where
  address : AccountAddress
  utime : Long
  data : Bytes
  transactionId : InternalTransactionId
  fee : Long
  storageFee : Long
  otherFee : Long
  inMsg : Option RawMessage
  outMsgs : List RawMessage
deriving DecidableEq, Repr

end TonWallet.TonApi

/-! ## The storage -/

namespace TonWallet.Storage.Transaction

open Encoding

/-- `AccountAddress`. -/
structure AccountAddress where
  accountAddress : Text
deriving DecidableEq, Repr

/-- `InternalTransactionId`. -/
structure InternalTransactionId where
  lt : Long := 0
  hash : Option Bytes := none
deriving DecidableEq, Repr

/-- The implementations of `MsgData`. -/
inductive MsgData where
  | MsgDataDecryptedText (text : Bytes)
  | MsgDataEncryptedText (text : Option Bytes)
  | MsgDataRaw (body initState : Bytes)
  | MsgDataText (text : Bytes)
deriving DecidableEq, Repr

/-- `RawMessage`. -/
structure RawMessage where
  source : AccountAddress
  destination : AccountAddress
  value : Long
  fwdFee : Long
  ihrFee : Long
  createdLt : Long
  bodyHash : Option Bytes
  msgData : MsgData
deriving DecidableEq, Repr

/-- `RawTransaction`. -/
structure RawTransaction where
  address : AccountAddress
  utime : Long
  data : Bytes
  transactionId : InternalTransactionId
  fee : Long
  storageFee : Long
  otherFee : Long
  inMsg : Option RawMessage := none
  outMsgs : List RawMessage := []
deriving DecidableEq, Repr

/-! ## Conversions -/

/-- `AccountAddress.toApi`. -/
def AccountAddress.toApi (a : AccountAddress) : TonApi.AccountAddress := ⟨a.accountAddress⟩

/-- `InternalTransactionId.toApi`. -/
def InternalTransactionId.toApi (id : InternalTransactionId) : TonApi.InternalTransactionId :=
  ⟨id.lt, id.hash⟩

/-- `MsgData.toApi` (`MsgData.kt` lines 7–13). -/
def MsgData.toApi : MsgData → TonApi.MsgData
  | .MsgDataDecryptedText text => .MsgDataDecryptedText text
  | .MsgDataEncryptedText text => .MsgDataEncryptedText text
  | .MsgDataRaw body initState => .MsgDataRaw body initState
  | .MsgDataText text => .MsgDataText text

/-- `RawMessage.toApi` (`RawMessage.kt` lines 64–73). -/
def RawMessage.toApi (m : RawMessage) : TonApi.RawMessage where
  source := m.source.toApi
  destination := m.destination.toApi
  value := m.value
  fwdFee := m.fwdFee
  ihrFee := m.ihrFee
  createdLt := m.createdLt
  bodyHash := m.bodyHash
  msgData := m.msgData.toApi

/-- `RawTransaction.toApi` (`RawTransaction.kt` lines 138–148). -/
def RawTransaction.toApi (t : RawTransaction) : TonApi.RawTransaction where
  address := t.address.toApi
  utime := t.utime
  data := t.data
  transactionId := t.transactionId.toApi
  fee := t.fee
  storageFee := t.storageFee
  otherFee := t.otherFee
  inMsg := t.inMsg.map RawMessage.toApi
  outMsgs := t.outMsgs.map RawMessage.toApi

end TonWallet.Storage.Transaction

namespace TonWallet.TonApi

open Encoding Storage

/-- `TonApi.AccountAddress.toStorage`. -/
def AccountAddress.toStorage (a : AccountAddress) : Transaction.AccountAddress :=
  ⟨a.accountAddress⟩

/-- `TonApi.InternalTransactionId.toStorage`. -/
def InternalTransactionId.toStorage (id : InternalTransactionId) :
    Transaction.InternalTransactionId :=
  ⟨id.lt, id.hash⟩

/-- `TonApi.MsgData.toStorage` (`MsgData.kt` lines 15–21). -/
def MsgData.toStorage : MsgData → Transaction.MsgData
  | .MsgDataDecryptedText text => .MsgDataDecryptedText text
  | .MsgDataEncryptedText text => .MsgDataEncryptedText text
  | .MsgDataRaw body initState => .MsgDataRaw body initState
  | .MsgDataText text => .MsgDataText text

/-- `TonApi.RawMessage.toStorage` (`RawMessage.kt` lines 53–62). -/
def RawMessage.toStorage (m : RawMessage) : Transaction.RawMessage where
  source := m.source.toStorage
  destination := m.destination.toStorage
  value := m.value
  fwdFee := m.fwdFee
  ihrFee := m.ihrFee
  createdLt := m.createdLt
  bodyHash := m.bodyHash
  msgData := m.msgData.toStorage

/-- The receiver of an extension function must not be null. -/
def receiver {α : Type} : Option α → Except Throwable α
  | some a => .ok a
  | none => .error .nullPointer

/-- `TonApi.RawTransaction.toStorage` (`RawTransaction.kt` lines 127–137). -/
def RawTransaction.toStorage (t : RawTransaction) :
    Except Throwable Transaction.RawTransaction := do
  let inMsg ← receiver t.inMsg
  return {
    address := t.address.toStorage
    utime := t.utime
    data := t.data
    transactionId := t.transactionId.toStorage
    fee := t.fee
    storageFee := t.storageFee
    otherFee := t.otherFee
    inMsg := some inMsg.toStorage
    outMsgs := t.outMsgs.map RawMessage.toStorage }

end TonWallet.TonApi

/-! ## The stored text -/

namespace TonWallet.Storage.Transaction

open Encoding

namespace AccountAddress

def fields (a : AccountAddress) : List (Text × Option Json.Value) :=
  [(text "accountAddress", some (.string a.accountAddress))]

def names : List Text := [text "accountAddress"]

/-- The generated serializer of `AccountAddress`. -/
def toJson (a : AccountAddress) : Json.Value := .object (Json.present a.fields)

def ofJson (v : Json.Value) : Option AccountAddress := do
  let members ← objectOfJson names v
  return { accountAddress := ← requiredField stringOfJson (text "accountAddress") members }

end AccountAddress

namespace InternalTransactionId

/-- The members of an id; both have defaults. -/
def fields (id : InternalTransactionId) : List (Text × Option Json.Value) :=
  [(text "lt", if id.lt = 0 then none else some (longToJson id.lt)),
    (text "hash", id.hash.map bytesToJson)]

def names : List Text := [text "lt", text "hash"]

/-- The generated serializer of `InternalTransactionId`. -/
def toJson (id : InternalTransactionId) : Json.Value := .object (Json.present id.fields)

def ofJson (v : Json.Value) : Option InternalTransactionId := do
  let members ← objectOfJson names v
  return {
    lt := ← defaultField longOfJson (text "lt") 0 members
    hash := ← nullableField bytesOfJson (text "hash") members }

end InternalTransactionId

namespace MsgData

/-- A serial name is the name of the class. -/
def serialName (name : String) : Text :=
  text "com.github.tim06.wallet_contest.storage.transaction.msg." ++ text name

/-- The class and its members. The text of an encrypted message is nullable, but has no default. -/
def fields : MsgData → List (Text × Option Json.Value)
  | MsgDataDecryptedText bytes =>
    [(text "type", some (.string (serialName "MsgDataDecryptedText"))),
      (text "text", some (bytesToJson bytes))]
  | MsgDataEncryptedText bytes =>
    [(text "type", some (.string (serialName "MsgDataEncryptedText"))),
      (text "text", some (nullableToJson bytesToJson bytes))]
  | MsgDataRaw body initState =>
    [(text "type", some (.string (serialName "MsgDataRaw"))),
      (text "body", some (bytesToJson body)), (text "initState", some (bytesToJson initState))]
  | MsgDataText bytes =>
    [(text "type", some (.string (serialName "MsgDataText"))),
      (text "text", some (bytesToJson bytes))]

def textNames : List Text := [text "type", text "text"]

def rawNames : List Text := [text "type", text "body", text "initState"]

/-- The polymorphic serializer of `MsgData`, with the serializer of each class that the module of
`Storage` registers (`Storage.kt` lines 34–41). -/
def toJson (m : MsgData) : Json.Value := .object (Json.present m.fields)

def ofJson (v : Json.Value) : Option MsgData := do
  let type ← requiredField stringOfJson (text "type") (← membersOfJson v)
  if type = serialName "MsgDataDecryptedText" then
    let members ← objectOfJson textNames v
    return MsgDataDecryptedText (← requiredField bytesOfJson (text "text") members)
  else if type = serialName "MsgDataEncryptedText" then
    let members ← objectOfJson textNames v
    return MsgDataEncryptedText
      (← requiredField (Json.nullable bytesOfJson) (text "text") members)
  else if type = serialName "MsgDataRaw" then
    let members ← objectOfJson rawNames v
    return MsgDataRaw (← requiredField bytesOfJson (text "body") members)
      (← requiredField bytesOfJson (text "initState") members)
  else if type = serialName "MsgDataText" then
    let members ← objectOfJson textNames v
    return MsgDataText (← requiredField bytesOfJson (text "text") members)
  else none

end MsgData

namespace RawMessage

/-- The members of a message; the body hash is nullable, but has no default. -/
def fields (m : RawMessage) : List (Text × Option Json.Value) :=
  [(text "source", some m.source.toJson), (text "destination", some m.destination.toJson),
    (text "value", some (longToJson m.value)), (text "fwdFee", some (longToJson m.fwdFee)),
    (text "ihrFee", some (longToJson m.ihrFee)), (text "createdLt", some (longToJson m.createdLt)),
    (text "bodyHash", some (nullableToJson bytesToJson m.bodyHash)),
    (text "msgData", some m.msgData.toJson)]

def names : List Text :=
  [text "source", text "destination", text "value", text "fwdFee", text "ihrFee",
    text "createdLt", text "bodyHash", text "msgData"]

/-- The generated serializer of `RawMessage`. -/
def toJson (m : RawMessage) : Json.Value := .object (Json.present m.fields)

def ofJson (v : Json.Value) : Option RawMessage := do
  let members ← objectOfJson names v
  return {
    source := ← requiredField AccountAddress.ofJson (text "source") members
    destination := ← requiredField AccountAddress.ofJson (text "destination") members
    value := ← requiredField longOfJson (text "value") members
    fwdFee := ← requiredField longOfJson (text "fwdFee") members
    ihrFee := ← requiredField longOfJson (text "ihrFee") members
    createdLt := ← requiredField longOfJson (text "createdLt") members
    bodyHash := ← requiredField (Json.nullable bytesOfJson) (text "bodyHash") members
    msgData := ← requiredField MsgData.ofJson (text "msgData") members }

end RawMessage

namespace RawTransaction

/-- The members of a transaction; the two message members have defaults. -/
def fields (t : RawTransaction) : List (Text × Option Json.Value) :=
  [(text "address", some t.address.toJson), (text "utime", some (longToJson t.utime)),
    (text "data", some (bytesToJson t.data)),
    (text "transactionId", some t.transactionId.toJson), (text "fee", some (longToJson t.fee)),
    (text "storageFee", some (longToJson t.storageFee)),
    (text "otherFee", some (longToJson t.otherFee)), (text "inMsg", t.inMsg.map RawMessage.toJson),
    (text "outMsgs",
      if t.outMsgs = [] then none else some (.array (t.outMsgs.map RawMessage.toJson)))]

def names : List Text :=
  [text "address", text "utime", text "data", text "transactionId", text "fee",
    text "storageFee", text "otherFee", text "inMsg", text "outMsgs"]

/-- The generated serializer of `RawTransaction`. -/
def toJson (t : RawTransaction) : Json.Value := .object (Json.present t.fields)

def ofJson (v : Json.Value) : Option RawTransaction := do
  let members ← objectOfJson names v
  return {
    address := ← requiredField AccountAddress.ofJson (text "address") members
    utime := ← requiredField longOfJson (text "utime") members
    data := ← requiredField bytesOfJson (text "data") members
    transactionId := ← requiredField InternalTransactionId.ofJson (text "transactionId") members
    fee := ← requiredField longOfJson (text "fee") members
    storageFee := ← requiredField longOfJson (text "storageFee") members
    otherFee := ← requiredField longOfJson (text "otherFee") members
    inMsg := ← nullableField RawMessage.ofJson (text "inMsg") members
    outMsgs := ← defaultField (listOfJson RawMessage.ofJson) (text "outMsgs") [] members }

end RawTransaction

/-- `json.encodeToString` of a list of transactions. -/
def encodeToString (transactions : List RawTransaction) : Text :=
  Json.print (.array (transactions.map RawTransaction.toJson))

/-- `json.decodeFromString<List<RawTransaction>>`. -/
def decodeFromString (s : Text) : Option (List RawTransaction) :=
  (Json.parse s).bind (listOfJson RawTransaction.ofJson)

/-! ## Round trips -/

theorem AccountAddress.ofJson_toJson (a : AccountAddress) : ofJson a.toJson = some a := by
  have hnames : a.fields.map (·.1) = names := rfl
  have hn : (a.fields.map (·.1)).Nodup := hnames ▸ (by decide)
  have hstring : stringOfJson (.string a.accountAddress) = some a.accountAddress := rfl
  rw [ofJson, toJson, objectOfJson_present hnames]
  simp only [Option.bind_eq_bind, Option.bind_some, Option.pure_def,
    requiredField_present (text "accountAddress") hn (by simp [fields]) hstring]

theorem InternalTransactionId.ofJson_toJson (id : InternalTransactionId) :
    ofJson id.toJson = some id := by
  have hnames : id.fields.map (·.1) = names := rfl
  have hn : (id.fields.map (·.1)).Nodup := hnames ▸ (by decide)
  have hhash : ∀ b ∈ id.hash, bytesToJson b ≠ .null ∧ bytesOfJson (bytesToJson b) = some b :=
    fun b _ => ⟨bytesToJson_ne_null b, bytes_roundtrip b⟩
  rw [ofJson, toJson, objectOfJson_present hnames]
  simp only [Option.bind_eq_bind, Option.bind_some, Option.pure_def,
    defaultField_present (text "lt") 0 hn (by simp [fields]) (longOfJson_longToJson id.lt),
    nullableField_present (text "hash") hn (by simp [fields]) hhash]

theorem MsgData.textNames_nodup : textNames.Nodup := by decide

theorem MsgData.rawNames_nodup : rawNames.Nodup := by decide

theorem MsgData.serialNames_nodup :
    [serialName "MsgDataText", serialName "MsgDataRaw", serialName "MsgDataEncryptedText",
      serialName "MsgDataDecryptedText"].Nodup := by decide

theorem MsgData.ofJson_toJson (m : MsgData) : ofJson m.toJson = some m := by
  have hbytes : ∀ b, bytesOfJson (bytesToJson b) = some b := bytes_roundtrip
  have hnullable : ∀ x, Json.nullable bytesOfJson (nullableToJson bytesToJson x) = some x :=
    fun x => nullable_nullableToJson fun b _ => ⟨bytesToJson_ne_null b, bytes_roundtrip b⟩
  have hstring : ∀ s, stringOfJson (.string s) = some s := fun _ => rfl
  have hne := serialNames_nodup
  simp only [List.nodup_cons, List.mem_cons, List.not_mem_nil, or_false, not_or] at hne
  obtain ⟨⟨htr, hte, htd⟩, ⟨hre, hrd⟩, hed, -⟩ := hne
  -- The serializer is found by the name of the class, which is none of the names before it.
  cases m with
  | MsgDataDecryptedText bytes =>
    have hnames : (MsgDataDecryptedText bytes).fields.map (·.1) = textNames := rfl
    have hn : ((MsgDataDecryptedText bytes).fields.map (·.1)).Nodup := hnames ▸ textNames_nodup
    have htype := hstring (serialName "MsgDataDecryptedText")
    rw [ofJson, toJson, objectOfJson_present hnames]
    simp only [membersOfJson, Option.bind_eq_bind, Option.bind_some, Option.pure_def, if_true,
      requiredField_present (text "type") hn (by simp [fields]) htype,
      requiredField_present (text "text") hn (by simp [fields]) (hbytes bytes)]
  | MsgDataEncryptedText bytes =>
    have hnames : (MsgDataEncryptedText bytes).fields.map (·.1) = textNames := rfl
    have hn : ((MsgDataEncryptedText bytes).fields.map (·.1)).Nodup := hnames ▸ textNames_nodup
    have htype := hstring (serialName "MsgDataEncryptedText")
    rw [ofJson, toJson, objectOfJson_present hnames]
    simp only [membersOfJson, Option.bind_eq_bind, Option.bind_some, Option.pure_def, if_true,
      requiredField_present (text "type") hn (by simp [fields]) htype, if_neg hed,
      requiredField_present (text "text") hn (by simp [fields]) (hnullable bytes)]
  | MsgDataRaw body initState =>
    have hnames : (MsgDataRaw body initState).fields.map (·.1) = rawNames := rfl
    have hn : ((MsgDataRaw body initState).fields.map (·.1)).Nodup := hnames ▸ rawNames_nodup
    have htype := hstring (serialName "MsgDataRaw")
    rw [ofJson, toJson, objectOfJson_present hnames]
    simp only [membersOfJson, Option.bind_eq_bind, Option.bind_some, Option.pure_def, if_true,
      requiredField_present (text "type") hn (by simp [fields]) htype, if_neg hrd, if_neg hre,
      requiredField_present (text "body") hn (by simp [fields]) (hbytes body),
      requiredField_present (text "initState") hn (by simp [fields]) (hbytes initState)]
  | MsgDataText bytes =>
    have hnames : (MsgDataText bytes).fields.map (·.1) = textNames := rfl
    have hn : ((MsgDataText bytes).fields.map (·.1)).Nodup := hnames ▸ textNames_nodup
    have htype := hstring (serialName "MsgDataText")
    rw [ofJson, toJson, objectOfJson_present hnames]
    simp only [membersOfJson, Option.bind_eq_bind, Option.bind_some, Option.pure_def, if_true,
      requiredField_present (text "type") hn (by simp [fields]) htype, if_neg htd, if_neg hte,
      if_neg htr, requiredField_present (text "text") hn (by simp [fields]) (hbytes bytes)]

theorem RawMessage.ofJson_toJson (m : RawMessage) : ofJson m.toJson = some m := by
  have hnames : m.fields.map (·.1) = names := rfl
  have hn : (m.fields.map (·.1)).Nodup := hnames ▸ (by decide)
  have hnull : Json.nullable bytesOfJson (nullableToJson bytesToJson m.bodyHash)
      = some m.bodyHash :=
    nullable_nullableToJson fun b _ => ⟨bytesToJson_ne_null b, bytes_roundtrip b⟩
  rw [ofJson, toJson, objectOfJson_present hnames]
  simp only [Option.bind_eq_bind, Option.bind_some, Option.pure_def,
    requiredField_present (text "source") hn (by simp [fields]) m.source.ofJson_toJson,
    requiredField_present (text "destination") hn (by simp [fields]) m.destination.ofJson_toJson,
    requiredField_present (text "value") hn (by simp [fields]) (longOfJson_longToJson m.value),
    requiredField_present (text "fwdFee") hn (by simp [fields]) (longOfJson_longToJson m.fwdFee),
    requiredField_present (text "ihrFee") hn (by simp [fields]) (longOfJson_longToJson m.ihrFee),
    requiredField_present (text "createdLt") hn (by simp [fields])
      (longOfJson_longToJson m.createdLt),
    requiredField_present (text "bodyHash") hn (by simp [fields]) hnull,
    requiredField_present (text "msgData") hn (by simp [fields]) m.msgData.ofJson_toJson]

theorem RawTransaction.ofJson_toJson (t : RawTransaction) : ofJson t.toJson = some t := by
  have hnames : t.fields.map (·.1) = names := rfl
  have hn : (t.fields.map (·.1)).Nodup := hnames ▸ (by decide)
  have hin : ∀ m ∈ t.inMsg, m.toJson ≠ .null ∧ RawMessage.ofJson m.toJson = some m :=
    fun m _ => ⟨Json.Value.noConfusion, m.ofJson_toJson⟩
  have hout : listOfJson RawMessage.ofJson (.array (t.outMsgs.map RawMessage.toJson))
      = some t.outMsgs :=
    list_roundtrip fun m _ => m.ofJson_toJson
  rw [ofJson, toJson, objectOfJson_present hnames]
  simp only [Option.bind_eq_bind, Option.bind_some, Option.pure_def,
    requiredField_present (text "address") hn (by simp [fields]) t.address.ofJson_toJson,
    requiredField_present (text "utime") hn (by simp [fields]) (longOfJson_longToJson t.utime),
    requiredField_present (text "data") hn (by simp [fields]) (bytes_roundtrip t.data),
    requiredField_present (text "transactionId") hn (by simp [fields])
      t.transactionId.ofJson_toJson,
    requiredField_present (text "fee") hn (by simp [fields]) (longOfJson_longToJson t.fee),
    requiredField_present (text "storageFee") hn (by simp [fields])
      (longOfJson_longToJson t.storageFee),
    requiredField_present (text "otherFee") hn (by simp [fields])
      (longOfJson_longToJson t.otherFee),
    nullableField_present (text "inMsg") hn (by simp [fields]) hin,
    defaultField_present (text "outMsgs") [] hn (by simp [fields]) hout]

/-- A list of transactions is read as it was stored. -/
theorem decode_encode (transactions : List RawTransaction) :
    decodeFromString (encodeToString transactions) = some transactions := by
  rw [decodeFromString, encodeToString, Json.parse_print, Option.bind_some]
  exact list_roundtrip fun t _ => t.ofJson_toJson

/-! ## Conversions there and back -/

@[simp] theorem MsgData.toApi_toStorage (m : TonApi.MsgData) : m.toStorage.toApi = m := by
  cases m <;> rfl

@[simp] theorem RawMessage.toApi_toStorage (m : TonApi.RawMessage) : m.toStorage.toApi = m := by
  rw [toApi, TonApi.RawMessage.toStorage, MsgData.toApi_toStorage]
  rfl

theorem toStorage_ok {t : TonApi.RawTransaction} (h : t.inMsg.isSome) :
    ∃ s, t.toStorage = .ok s := by
  obtain ⟨m, hm⟩ := Option.isSome_iff_exists.mp h
  rw [TonApi.RawTransaction.toStorage, hm]
  exact ⟨_, rfl⟩

/-- Without an incoming message there is nothing to call `toStorage` on. -/
theorem toStorage_none {t : TonApi.RawTransaction} (h : t.inMsg = none) :
    t.toStorage = .error .nullPointer := by
  rw [TonApi.RawTransaction.toStorage, h]
  rfl

theorem isSome_of_toStorage {t : TonApi.RawTransaction} {s : RawTransaction}
    (h : t.toStorage = .ok s) : t.inMsg.isSome := by
  cases hm : t.inMsg with
  | some m => rfl
  | none =>
    rw [toStorage_none hm] at h
    cases h

/-- A transaction that is converted is converted back to itself. -/
theorem toApi_of_toStorage {t : TonApi.RawTransaction} {s : RawTransaction}
    (h : t.toStorage = .ok s) : s.toApi = t := by
  obtain ⟨m, hm⟩ := Option.isSome_iff_exists.mp (isSome_of_toStorage h)
  rw [TonApi.RawTransaction.toStorage, hm] at h
  obtain rfl := Except.ok.inj h
  have hout : t.outMsgs.map (RawMessage.toApi ∘ TonApi.RawMessage.toStorage) = t.outMsgs :=
    List.map_id'' RawMessage.toApi_toStorage t.outMsgs
  rw [RawTransaction.toApi]
  simp only [Option.map_some, RawMessage.toApi_toStorage, List.map_map, hout, ← hm]
  rfl

/-- A page is converted transaction by transaction. -/
theorem mapM_toStorage_ok {page : List TonApi.RawTransaction} (h : ∀ t ∈ page, t.inMsg.isSome) :
    ∃ stored, page.mapM TonApi.RawTransaction.toStorage = .ok stored := by
  induction page with
  | nil => exact ⟨[], rfl⟩
  | cons t page ih =>
    obtain ⟨ht, hpage⟩ := List.forall_mem_cons.mp h
    obtain ⟨s, hs⟩ := toStorage_ok ht
    obtain ⟨stored, hstored⟩ := ih hpage
    rw [List.mapM_cons, hs, ok_bind, hstored]
    exact ⟨_, rfl⟩

theorem of_mapM_toStorage {page : List TonApi.RawTransaction} {stored : List RawTransaction}
    (h : page.mapM TonApi.RawTransaction.toStorage = .ok stored) :
    (∀ t ∈ page, t.inMsg.isSome) ∧ stored.map RawTransaction.toApi = page := by
  induction page generalizing stored with
  | nil =>
    obtain rfl := Except.ok.inj h
    exact ⟨by simp, rfl⟩
  | cons t page ih =>
    rw [List.mapM_cons] at h
    obtain ⟨s, hs, h⟩ := bind_eq_ok.mp h
    obtain ⟨rest, hrest, h⟩ := bind_eq_ok.mp h
    obtain rfl := Except.ok.inj h
    obtain ⟨hall, hmap⟩ := ih hrest
    refine ⟨List.forall_mem_cons.mpr ⟨isSome_of_toStorage hs, hall⟩, ?_⟩
    rw [List.map_cons, toApi_of_toStorage hs, hmap]

/-- The transactions are converted, what is stored is read back, and converting that gives the
transactions of tonlib again. -/
def Lossless (page : List TonApi.RawTransaction) : Prop :=
  ∃ stored, page.mapM TonApi.RawTransaction.toStorage = .ok stored ∧
    decodeFromString (encodeToString stored) = some stored ∧
    stored.map RawTransaction.toApi = page

/-- **Conversion.** A transaction is converted, stored and read back as it was exactly if it has an
incoming message; so is a page if all its transactions have one. -/
theorem toStorage_lossless_iff (t : TonApi.RawTransaction) (page : List TonApi.RawTransaction) :
    (Lossless [t] ↔ t.inMsg.isSome) ∧ (Lossless page ↔ ∀ t ∈ page, t.inMsg.isSome) := by
  have hpage : ∀ page : List TonApi.RawTransaction,
      Lossless page ↔ ∀ t ∈ page, t.inMsg.isSome := by
    intro page
    constructor
    · rintro ⟨stored, h, -, -⟩
      exact (of_mapM_toStorage h).1
    · intro h
      obtain ⟨stored, hstored⟩ := mapM_toStorage_ok h
      exact ⟨stored, hstored, decode_encode stored, (of_mapM_toStorage hstored).2⟩
  exact ⟨(hpage [t]).trans (by simp), hpage page⟩

/-- A transaction that no message has set off. -/
theorem without_in_msg_not_lossless :
    ¬ Lossless
      [{ address := ⟨text "EQ"⟩, utime := 1, data := [], transactionId := ⟨5, some [1]⟩, fee := 2,
         storageFee := 2, otherFee := 0, inMsg := none, outMsgs := [] }] := by
  rintro ⟨stored, h, -, -⟩
  cases h

end TonWallet.Storage.Transaction
