import TonWallet.Lib.Json
import TonWallet.TonConnect.FailedApproval

/-!
# Events on the wire

`kotlinx.serialization` marks the object of a polymorphic value with the name of
its class, under the key `type`: the payload of an event and the items of a
connection payload. Before an event is posted, `fixTypeFieldInList` takes the
marks out of a connection payload. `fixTypeFieldInPayload` should do it for a
reject payload, but puts back what it has got.

* `fixTypeFieldInList_connection`: a connection event is posted without marks.
* `posted_exact_iff`: the events that are posted as the protocol has them are
  those with a connection payload.
* `approveRequest_text`: what is posted for an approval.
-/

namespace TonWallet.TonConnect

open Encoding

/-! ## Events -/

/-- The classes of `ConnectItemReply`. -/
inductive ConnectItemReply where
  | address (reply : TonAddressItemReply)
  | proof (reply : TonProofItemReplySuccess)

/-- The classes of `TonConnectPayload`. -/
inductive TonConnectPayload where
  | connection (items : List ConnectItemReply) (device : DeviceInfo)
  | reject (code : BitVec 32) (message : Text)

/-- `TonConnectWalletEvent`. -/
structure TonConnectWalletEvent where
  event : Text
  id : ℤ
  payload : TonConnectPayload

/-! ## Serialization -/

/-- The members of an object. -/
abbrev Members := List (Text × JsonElement)

/-- A `JsonPrimitive`, as it is written. -/
def jsonString (s : Text) : JsonElement := .primitive (Json.printString s)
def jsonNumber (n : ℤ) : JsonElement := .primitive (Json.printNumber n)

def TonProofDomain.members (d : TonProofDomain) : Members :=
  [(text "lengthBytes", jsonNumber d.lengthBytes), (text "value", jsonString d.value)]

/-- A payload that is null is left out: `explicitNulls` is false. -/
def TonProof.members (p : TonProof) : Members :=
  [(text "timestamp", jsonNumber p.timestamp.toInt), (text "domain", .object p.domain.members),
    (text "signature", jsonString p.signature)]
    ++ p.payload.toList.map fun payload => (text "payload", jsonString payload)

def TonAddressItemReply.members (r : TonAddressItemReply) : Members :=
  [(text "name", jsonString r.name), (text "address", jsonString r.address),
    (text "network", jsonString r.network), (text "publicKey", jsonString r.publicKey),
    (text "walletStateInit", jsonString r.walletStateInit)]

def TonProofItemReplySuccess.members (r : TonProofItemReplySuccess) : Members :=
  [(text "name", jsonString r.name), (text "proof", .object r.proof.members)]

def DeviceInfo.members (d : DeviceInfo) : Members :=
  [(text "platform", jsonString d.platform), (text "appName", jsonString d.appName),
    (text "appVersion", jsonString d.appVersion),
    (text "maxProtocolVersion", jsonString d.maxProtocolVersion),
    (text "features", .array (d.features.map jsonString))]

def ConnectItemReply.members : ConnectItemReply → Members
  | .address reply => reply.members
  | .proof reply => reply.members

/-- The members of a payload, for the elements of its items. -/
def TonConnectPayload.members (item : ConnectItemReply → JsonElement) : TonConnectPayload → Members
  | .connection items device =>
    [(text "items", .array (items.map item)), (text "device", .object device.members)]
  | .reject code message =>
    [(text "code", jsonNumber code.toInt), (text "message", jsonString message)]

/-- The members of an event, for the element of its payload. -/
def TonConnectWalletEvent.members (payload : TonConnectPayload → JsonElement)
    (e : TonConnectWalletEvent) : Members :=
  [(text "event", jsonString e.event), (text "id", jsonNumber e.id),
    (text "payload", payload e.payload)]

/-- The package of the data classes. -/
def modelPackage : Text := text "com.github.tim06.wallet_contest.ui.feature.tonConnect.model."

/-- The serial names of the classes. -/
def ConnectItemReply.serialName : ConnectItemReply → Text
  | .address _ => modelPackage ++ text "TonAddressItemReply"
  | .proof _ => modelPackage ++ text "TonProofItemReplySuccess"

def TonConnectPayload.serialName : TonConnectPayload → Text
  | .connection .. => modelPackage ++ text "payload.TonConnectConnectionPayload"
  | .reject .. => modelPackage ++ text "payload.TonConnectRejectPayload"

/-- A polymorphic value: the object of its class, with the class discriminator. -/
def polymorphic (serialName : Text) (members : Members) : JsonElement :=
  .object ((text "type", jsonString serialName) :: members)

def ConnectItemReply.element (i : ConnectItemReply) : JsonElement :=
  polymorphic i.serialName i.members

def TonConnectPayload.element (p : TonConnectPayload) : JsonElement :=
  polymorphic p.serialName (p.members ConnectItemReply.element)

/-- `json.encodeToJsonElement(request)`. The class of an event is not polymorphic. -/
def TonConnectWalletEvent.element (e : TonConnectWalletEvent) : JsonElement :=
  .object (e.members TonConnectPayload.element)

/-! ## What is posted -/

/-- `get(key)?.let { put(key, it) }`. -/
def putBack (content : Members) (key : Text) : Members :=
  match content.lookup key with
  | some it => put content key it
  | none => content

/-- `fixTypeFieldInPayload` (`TonConnectConnection.kt` lines 319–330). -/
def fixTypeFieldInPayload (encodedJsonElement : JsonElement) : Except Throwable Members := do
  let content ← encodedJsonElement.jsonObject
  match content.lookup (text "payload") with
  | some payload => do
    let updatedPayload ← payload.jsonObject
    return put content (text "payload")
      (.object (putBack (putBack updatedPayload (text "code")) (text "message")))
  | none => return content

/-- The object that is posted for an event: `sendApproveRequest` posts those with a connection
payload (line 222), `sendRejectConnectionRequest` those with a reject payload (line 241). -/
def TonConnectWalletEvent.posted (e : TonConnectWalletEvent) : Except Throwable Members :=
  match e.payload with
  | .connection .. => fixTypeFieldInList e.element
  | .reject .. => fixTypeFieldInPayload e.element

/-! ## What should be posted -/

/-- The object of the protocol. -/
def TonConnectWalletEvent.protocolObject (e : TonConnectWalletEvent) : Members :=
  e.members fun p => .object (p.members fun i => .object i.members)

/-- The members of an object; other elements have none. -/
def JsonElement.content : JsonElement → Members
  | .object content => content
  | _ => []

/-- The elements of an array; other elements have none. -/
def JsonElement.elements : JsonElement → List JsonElement
  | .array content => content
  | _ => []

/-- The objects of an event, of its payload, and of the items in it. -/
def levels (event : Members) : List Members :=
  let payload := ((event.lookup (text "payload")).map JsonElement.content).getD []
  let items := ((payload.lookup (text "items")).map JsonElement.elements).getD []
  event :: payload :: items.map JsonElement.content

/-- No object has a class discriminator. -/
def Undiscriminated (event : Members) : Prop :=
  ∀ level ∈ levels event, text "type" ∉ level.map Prod.fst

/-- An event is posted without discriminators, and else with exactly its fields and values. -/
def TonConnectWalletEvent.PostedExactly (e : TonConnectWalletEvent) : Prop :=
  ∃ event, e.posted = .ok event ∧ Undiscriminated event ∧ event = e.protocolObject

/-- The event has a connection payload. -/
def TonConnectWalletEvent.IsConnection (e : TonConnectWalletEvent) : Prop :=
  ∃ items device, e.payload = .connection items device

/-! ## Discriminators -/

theorem type_not_mem_item (i : ConnectItemReply) : text "type" ∉ i.members.map Prod.fst := by
  cases i with
  | address reply =>
    show text "type" ∉ [text "name", text "address", text "network", text "publicKey",
      text "walletStateInit"]
    decide
  | proof reply =>
    show text "type" ∉ [text "name", text "proof"]
    decide

theorem type_not_mem_payload (item : ConnectItemReply → JsonElement) (p : TonConnectPayload) :
    text "type" ∉ (p.members item).map Prod.fst := by
  cases p with
  | connection items device =>
    show text "type" ∉ [text "items", text "device"]
    decide
  | reject code message =>
    show text "type" ∉ [text "code", text "message"]
    decide

theorem type_not_mem_event (payload : TonConnectPayload → JsonElement) (e : TonConnectWalletEvent) :
    text "type" ∉ (e.members payload).map Prod.fst := by
  show text "type" ∉ [text "event", text "id", text "payload"]
  decide

theorem withoutType_eq_self {content : Members} (h : text "type" ∉ content.map Prod.fst) :
    withoutType content = content :=
  List.filter_eq_self.mpr fun _ hit =>
    decide_eq_true (ne_of_mem_of_not_mem (List.mem_map_of_mem hit) h)

/-- The discriminator of a polymorphic value is taken out. -/
theorem withoutType_cons {content : Members} (value : JsonElement)
    (h : text "type" ∉ content.map Prod.fst) :
    withoutType ((text "type", value) :: content) = content := by
  rw [withoutType, List.filter_cons_of_neg (by simp)]
  exact withoutType_eq_self h

/-- The discriminators of all items are taken out, and the items stay in order. -/
theorem mapM_items (items : List ConnectItemReply) :
    ((items.map ConnectItemReply.element).mapM fun it => do return withoutType (← it.jsonObject))
      = Except.ok (items.map ConnectItemReply.members) := by
  induction items with
  | nil => rfl
  | cons i items ih =>
    rw [List.map_cons, List.mapM_cons, ih]
    exact congrArg (fun content => Except.ok (content :: _))
      (withoutType_cons _ (type_not_mem_item i))

theorem jsonObject_object (content : Members) :
    (JsonElement.object content).jsonObject = .ok content := rfl

theorem jsonArray_array (content : List JsonElement) :
    (JsonElement.array content).jsonArray = .ok content := rfl

/-- An event with another payload. -/
theorem put_payload (payload : TonConnectPayload → JsonElement) (e : TonConnectWalletEvent)
    (value : JsonElement) :
    put (e.members payload) (text "payload") value = e.members fun _ => value := rfl

/-- A connection event is posted without discriminators. -/
theorem fixTypeFieldInList_connection {e : TonConnectWalletEvent} {items : List ConnectItemReply}
    {device : DeviceInfo} (h : e.payload = .connection items device) :
    fixTypeFieldInList e.element = .ok e.protocolObject := by
  have hevent := withoutType_eq_self (type_not_mem_event TonConnectPayload.element e)
  have hitems : ((text "type", jsonString e.payload.serialName)
      :: e.payload.members ConnectItemReply.element).lookup (text "items")
        = some (.array (items.map ConnectItemReply.element)) := by rw [h]; rfl
  have hdevice : ((text "type", jsonString e.payload.serialName)
      :: e.payload.members ConnectItemReply.element).lookup (text "device")
        = some (.object device.members) := by rw [h]; rfl
  have hpayload : castJsonObject ((e.members TonConnectPayload.element).lookup (text "payload"))
      = .ok ((text "type", jsonString e.payload.serialName)
        :: e.payload.members ConnectItemReply.element) := rfl
  simp only [fixTypeFieldInList, TonConnectWalletEvent.element, jsonObject_object, ok_bind, hevent,
    hpayload, hitems, hdevice, jsonArray_array, mapM_items, put_payload]
  simp only [TonConnectWalletEvent.protocolObject, TonConnectWalletEvent.members, h,
    TonConnectPayload.members, List.map_map]
  rfl

/-- A reject event is posted with the discriminator of its payload. -/
theorem fixTypeFieldInPayload_reject {e : TonConnectWalletEvent} {code : BitVec 32} {message : Text}
    (h : e.payload = .reject code message) :
    fixTypeFieldInPayload e.element = .ok (e.members TonConnectPayload.element) := by
  obtain ⟨event, id, payload⟩ := e
  cases h
  rfl

/-- The object of the protocol has no discriminators. -/
theorem protocolObject_undiscriminated (e : TonConnectWalletEvent) :
    Undiscriminated e.protocolObject := by
  have hlevels : levels e.protocolObject = e.protocolObject
      :: e.payload.members (fun i => .object i.members)
      :: match e.payload with
        | .connection items _ => items.map ConnectItemReply.members
        | .reject .. => [] := by
    obtain ⟨event, id, payload⟩ := e
    cases payload with
    | connection items device =>
      show _ :: _ :: ((items.map fun i => JsonElement.object i.members).map JsonElement.content) = _
      rw [List.map_map]
      rfl
    | reject code message => rfl
  rw [Undiscriminated, hlevels, List.forall_mem_cons, List.forall_mem_cons]
  refine ⟨type_not_mem_event _ e, type_not_mem_payload _ e.payload, fun level hlevel => ?_⟩
  cases hp : e.payload with
  | connection items device =>
    rw [hp] at hlevel
    obtain ⟨i, -, rfl⟩ := List.mem_map.mp hlevel
    exact type_not_mem_item i
  | reject code message =>
    rw [hp] at hlevel
    cases hlevel

/-- As they are encoded, all events have a discriminator. -/
theorem element_discriminated (e : TonConnectWalletEvent) :
    ¬ Undiscriminated (e.members TonConnectPayload.element) := by
  intro h
  exact h ((text "type", jsonString e.payload.serialName)
      :: e.payload.members ConnectItemReply.element)
    (List.mem_cons_of_mem _ (List.mem_cons_self ..)) (List.mem_cons_self ..)

/-- An event with a reject payload keeps its discriminator. -/
theorem TonConnectWalletEvent.PostedExactly.isConnection {e : TonConnectWalletEvent}
    (h : e.PostedExactly) : e.IsConnection := by
  obtain ⟨event, hposted, hundiscriminated, -⟩ := h
  cases hp : e.payload with
  | connection items device => exact ⟨items, device, hp⟩
  | reject code message =>
    rw [TonConnectWalletEvent.posted, hp] at hposted
    obtain rfl := Except.ok.inj ((fixTypeFieldInPayload_reject hp).symm.trans hposted)
    exact absurd hundiscriminated (element_discriminated e)

/-- **Events on the wire.** The events that are posted as the protocol has them are those with a
connection payload. -/
theorem posted_exact_iff (e : TonConnectWalletEvent) : e.PostedExactly ↔ e.IsConnection := by
  constructor
  · exact TonConnectWalletEvent.PostedExactly.isConnection
  · rintro ⟨items, device, hp⟩
    refine ⟨_, ?_, protocolObject_undiscriminated e, rfl⟩
    rw [TonConnectWalletEvent.posted, hp]
    exact fixTypeFieldInList_connection hp

/-- The event of `sendRejectConnectionRequest` (`TonConnectConnection.kt` lines 232–239). -/
def rejectEvent (id : ℤ) : TonConnectWalletEvent where
  event := text "connect_error"
  id := id
  payload := .reject 300 (text "Wallet declined the request")

/-- A declined connection is not posted as the protocol has it. -/
theorem rejection_not_exact : ¬ ∀ e : TonConnectWalletEvent, e.PostedExactly := by
  intro h
  obtain ⟨items, device, hpayload⟩ := (h (rejectEvent 1)).isConnection
  cases hpayload

/-! ## The text of an approval -/

mutual

/-- `json.encodeToString`. -/
def JsonElement.print : JsonElement → Text
  | .primitive content => content
  | .array content =>
    Json.leftBracket :: ([Json.comma].intercalate (printElements content) ++ [Json.rightBracket])
  | .object content =>
    Json.leftBrace :: ([Json.comma].intercalate (printMembers content) ++ [Json.rightBrace])

def printElements : List JsonElement → List Text
  | [] => []
  | e :: elements => e.print :: printElements elements

def printMembers : List (Text × JsonElement) → List Text
  | [] => []
  | m :: members => (Json.printString m.1 ++ Json.colon :: m.2.print) :: printMembers members

end

/-- The event of `sendApproveRequest`. -/
def ConnectEvent.walletEvent (e : ConnectEvent) : TonConnectWalletEvent where
  event := e.event
  id := e.id
  payload := .connection [.address e.address, .proof e.proof] e.device

/-- The encoders of the connection. -/
def wireEncoder : JsonEncoder where
  encodeToJsonElement e := some e.walletEvent.element
  encodeToString fields := some (JsonElement.object fields).print

/-- What is posted for an approval is the text of the object of the protocol. -/
theorem approveRequest_text {P : Primitives} {c : Connection} {a : Approval}
    {signature : Signature} {proof : TonProof} (hP : P.json = wireEncoder)
    (h : tonProof P.signer c.data a.rawAddress a.timestamp a.privateKey
      = .ok (signature, proof)) :
    approveRequest P c a = .ok (JsonElement.object
      (connectEvent c.clientLastEventId a.rawAddress a.publicKey a.walletStateInit
        proof).walletEvent.protocolObject).print := by
  have hencode : ∀ e, encode wireEncoder.encodeToJsonElement e = .ok e.walletEvent.element :=
    fun e => encode_eq_ok.mpr rfl
  rw [approveRequest, h, ok_bind]
  dsimp only
  rw [hP, hencode, ok_bind, fixTypeFieldInList_connection rfl, ok_bind]
  exact encode_eq_ok.mpr rfl

end TonWallet.TonConnect
