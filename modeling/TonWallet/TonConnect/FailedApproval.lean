import TonWallet.TonConnect.OwnershipProof
import TonWallet.TonConnect.Registry

/-!
# An approval that fails

`approveTonConnectionRequest` first makes the connection: it takes the place of
the one with the same manifest, its flow is added to `eventsLocal`, and the
write to the storage is launched. Only then the connect message is made and
posted, and nothing is taken back when that fails.

* `failed_approval_iff`: when a failed approval changes nothing.
* `replaced_without_network`: a working connection is lost to one that was never
  announced.
-/

namespace TonWallet.TonConnect

open Encoding Crypto

/-! ## The connect message -/

/-- `JsonElement`. -/
inductive JsonElement where
  | primitive (content : Text)
  | array (content : List JsonElement)
  | object (content : List (Text × JsonElement))

/-- The encoders of `kotlinx.serialization`, `none` for a `SerializationException`. -/
structure JsonEncoder where
  encodeToJsonElement : ConnectEvent → Option JsonElement
  encodeToString : List (Text × JsonElement) → Option Text

/-- `jsonObject`. -/
def JsonElement.jsonObject : JsonElement → Except Throwable (List (Text × JsonElement))
  | .object content => .ok content
  | _ => .error .illegalArgument

/-- `jsonArray`. -/
def JsonElement.jsonArray : JsonElement → Except Throwable (List JsonElement)
  | .array content => .ok content
  | _ => .error .illegalArgument

/-- `(element as JsonObject)`. -/
def castJsonObject : Option JsonElement → Except Throwable (List (Text × JsonElement))
  | some (.object content) => .ok content
  | some _ => .error .classCast
  | none => .error .nullPointer

/-- `filterNot { it.key == "type" }` and `remove("type")`. -/
def withoutType (content : List (Text × JsonElement)) : List (Text × JsonElement) :=
  content.filter fun it => it.1 ≠ text "type"

/-- `put` of a mutable map. -/
def put (content : List (Text × JsonElement)) (key : Text) (value : JsonElement) :
    List (Text × JsonElement) :=
  if (content.lookup key).isSome then
    content.map fun it => if it.1 = key then (key, value) else it
  else content ++ [(key, value)]

/-- `fixTypeFieldInList` (`TonConnectConnection.kt` lines 294–317). -/
def fixTypeFieldInList (encodedJsonElement : JsonElement) :
    Except Throwable (List (Text × JsonElement)) := do
  let valuesWithoutType := withoutType (← encodedJsonElement.jsonObject)
  let payload ← castJsonObject (valuesWithoutType.lookup (text "payload"))
  let fixedItemsMap ← match payload.lookup (text "items") with
    | some items => do
      let items ← items.jsonArray
      items.mapM fun it => do return withoutType (← it.jsonObject)
    | none => .ok []
  let deviceObj ← match payload.lookup (text "device") with
    | some device => device.jsonObject
    | none => .ok []
  return put valuesWithoutType (text "payload") (.object
    [(text "items", .array (fixedItemsMap.map .object)), (text "device", .object deviceObj)])

/-- The arguments of `approveTonConnectionRequest` beside the connection, and the clock. -/
structure Approval where
  rawAddress : Text
  publicKey : Text
  walletStateInit : Text
  privateKey : Bytes
  timestamp : BitVec 64

/-- What becomes of a call that is enqueued. -/
inductive PostOutcome where
  | failure
  | response (code : ℕ)
deriving DecidableEq, Repr

/-- What the connect message is made with: the signer, the encoders of JSON, libsodium, and how
its `KeyPair(seed)` fails. -/
structure Primitives where
  signer : Signer
  json : JsonEncoder
  sodium : Sodium
  seedError : Bytes → Option Throwable

/-- `encodeToString` and `encodeToJsonElement` with an encoder that may refuse. -/
def encode {α β : Type} (encoder : α → Option β) (a : α) : Except Throwable β :=
  match encoder a with
  | some b => .ok b
  | none => .error .serialization

/-- The request of `sendApproveRequest` (`TonConnectConnection.kt` lines 172–224). -/
def approveRequest (P : Primitives) (c : Connection) (a : Approval) : Except Throwable Text := do
  let (_, tonProof) ← tonProof P.signer c.data a.rawAddress a.timestamp a.privateKey
  let element ← encode P.json.encodeToJsonElement
    (connectEvent c.clientLastEventId a.rawAddress a.publicKey a.walletStateInit tonProof)
  let fixedRequestMap ← fixTypeFieldInList element
  encode P.json.encodeToString fixedRequestMap

/-- `sendRequest`, with the message it posts (`TonConnectConnection.kt` lines 262–292). The
answer is whether the request has succeeded. -/
def sendRequest (P : Primitives) (c : Connection) (nonce : Bytes) (request : Text)
    (outcome : PostOutcome) : Except Throwable (Bytes × Bool) := do
  let recipientPublicKey ← hexDecode c.data.id
  let req := encryptMessage P.sodium nonce (toByteArray request) recipientPublicKey
    (clientKey P.sodium c.data)
  match outcome with
  | .failure => return (req, false)
  | .response code => return (req, decide (200 ≤ code ∧ code ≤ 299))

/-- `sendApproveRequest` (`TonConnectConnection.kt` lines 166–228). -/
def sendApproveRequest (P : Primitives) (c : Connection) (a : Approval) (nonce : Bytes)
    (outcome : PostOutcome) : Except Throwable Bool := do
  let request ← approveRequest P c a
  let (_, isSuccess) ← sendRequest P c nonce request outcome
  return isSuccess

/-- `approveTonConnectionRequest`, with the response (`TonConnectManager.kt` lines 72–86). The
connection is made before its message. -/
def approveTonConnectionRequest (P : Primitives) (r : Registry) (data : TonConnectConnectionData)
    (a : Approval) (nonce : Bytes) (outcome : PostOutcome) : Except Throwable Bool × Registry :=
  match P.seedError data.key.privateKey with
  | some e => (.error e, r)
  | none =>
    let connection : Connection := { object := r.created, data := data }
    (sendApproveRequest P connection a nonce outcome,
      r.approve data (approveRequest P connection a).isOk)

/-! ## What a failure should leave -/

/-- The connections, the flows and the storage are the same, and no write is on its way. -/
structure Unchanged (r t : Registry) : Prop where
  connections : t.connections = r.connections
  eventsLocal : t.eventsLocal = r.eventsLocal
  manifests : t.manifests = r.manifests
  jobs : t.jobs = r.jobs

/-- If the call does not return true, nothing has changed. -/
def FailsCleanly (r : Registry) (call : Except Throwable Bool × Registry) : Prop :=
  call.1 ≠ .ok true → Unchanged r call.2

/-- A connect message can be made for the arguments. -/
structure CanConnect (P : Primitives) (data : TonConnectConnectionData) (id : ℤ) (a : Approval) :
    Prop where
  request : ∃ signature proof element fields request,
    tonProof P.signer data a.rawAddress a.timestamp a.privateKey = .ok (signature, proof) ∧
    P.json.encodeToJsonElement
      (connectEvent id a.rawAddress a.publicKey a.walletStateInit proof) = some element ∧
    fixTypeFieldInList element = .ok fields ∧ P.json.encodeToString fields = some request
  recipient : ∃ key, hexDecode data.id = .ok key

variable {P : Primitives} {r : Registry} {data : TonConnectConnectionData} {a : Approval}
  {nonce : Bytes} {outcome : PostOutcome}

theorem encode_eq_ok {α β : Type} {encoder : α → Option β} {x : α} {b : β} :
    encode encoder x = .ok b ↔ encoder x = some b := by
  unfold encode
  cases encoder x with
  | none => simp
  | some b' => simp

/-- A message is posted, whatever becomes of it, if and only if it can be made. -/
theorem sendApproveRequest_true_iff {c : Connection} :
    sendApproveRequest P c a nonce outcome = .ok true ↔
      CanConnect P c.data c.clientLastEventId a ∧
        ∃ code, outcome = .response code ∧ 200 ≤ code ∧ code ≤ 299 := by
  constructor
  · intro h
    obtain ⟨request, hrequest, h⟩ := bind_eq_ok.mp h
    obtain ⟨⟨signature, proof⟩, hproof, hrequest⟩ := bind_eq_ok.mp hrequest
    obtain ⟨element, helement, hrequest⟩ := bind_eq_ok.mp hrequest
    obtain ⟨fields, hfields, hrequest⟩ := bind_eq_ok.mp hrequest
    obtain ⟨⟨req, isSuccess⟩, hsend, h⟩ := bind_eq_ok.mp h
    obtain rfl : isSuccess = true := Except.ok.inj h
    obtain ⟨key, hkey, hsend⟩ := bind_eq_ok.mp hsend
    refine ⟨⟨⟨signature, proof, element, fields, request, hproof, encode_eq_ok.mp helement, hfields,
      encode_eq_ok.mp hrequest⟩, key, hkey⟩, ?_⟩
    cases outcome with
    | failure => cases (Prod.mk.inj (Except.ok.inj hsend)).2
    | response code =>
      exact ⟨code, rfl, of_decide_eq_true (Prod.mk.inj (Except.ok.inj hsend)).2⟩
  · rintro ⟨⟨⟨signature, proof, element, fields, request, hproof, helement, hfields, hrequest⟩, key,
      hkey⟩, code, rfl, hcode⟩
    have hmade : approveRequest P c a = .ok request := by
      rw [approveRequest, hproof, ok_bind]
      dsimp only
      rw [encode_eq_ok.mpr helement, ok_bind, hfields, ok_bind, encode_eq_ok.mpr hrequest]
    rw [sendApproveRequest, hmade, ok_bind, sendRequest, hkey, ok_bind]
    dsimp only
    rw [decide_eq_true hcode]
    rfl

/-- The flow of the new connection stays in the list. -/
theorem approve_eventsLocal {proved : Bool} :
    (r.approve data proved).eventsLocal = r.eventsLocal ++ [r.created] := by
  cases proved with
  | false => rfl
  | true =>
    dsimp only [Registry.approve]
    rw [if_pos rfl, Registry.sendRequest]
    split <;> rfl

/-- **Failed approvals.** In every state an approval that does not return true changes nothing, if
and only if no connection is made because its key pair is refused, or the connect message can be
made and is accepted. -/
theorem failed_approval_iff (P : Primitives) (r : Registry) (data : TonConnectConnectionData)
    (a : Approval) (nonce : Bytes) (outcome : PostOutcome) :
    FailsCleanly r (approveTonConnectionRequest P r data a nonce outcome) ↔
      (P.seedError data.key.privateKey).isSome ∨
        (CanConnect P data 1 a ∧ ∃ code, outcome = .response code ∧ 200 ≤ code ∧ code ≤ 299) := by
  unfold approveTonConnectionRequest
  cases hseed : P.seedError data.key.privateKey with
  | some e =>
    have hsame : Unchanged r r := ⟨rfl, rfl, rfl, rfl⟩
    exact ⟨fun _ => .inl rfl, fun _ _ => hsame⟩
  | none =>
    have hiff := @sendApproveRequest_true_iff P a nonce outcome
      { object := r.created, data := data }
    constructor
    · intro h
      refine .inr (hiff.mp ?_)
      by_contra hne
      -- The list of the flows has grown.
      have hevents := (h hne).eventsLocal
      rw [approve_eventsLocal] at hevents
      exact absurd hevents (by simp)
    · rintro (h | h)
      · cases h
      · exact fun hne => absurd (hiff.mpr h) hne

/-! ## Without a network -/

/-- The elements `kotlinx.serialization` makes of an event, with the names that are changed
afterwards. -/
def sampleElement (e : ConnectEvent) : JsonElement :=
  .object
    [(text "event", .primitive e.event),
      (text "payload", .object
        [(text "type", .primitive (text "TonConnectConnectionPayload")),
          (text "items", .array
            [.object [(text "type", .primitive (text "TonAddressItemReply")),
                (text "name", .primitive e.address.name)],
              .object [(text "type", .primitive (text "TonProofItemReplySuccess")),
                (text "name", .primitive e.proof.name)]]),
          (text "device", .object [(text "platform", .primitive e.device.platform)])])]

/-- Primitives that accept the keys of the example. -/
def samplePrimitives : Primitives where
  signer := sampleSigner
  json :=
    { encodeToJsonElement := fun e => some (sampleElement e)
      encodeToString := fun fields => some (fields.flatMap Prod.fst) }
  sodium := sampleSodium
  seedError seed := if seed = [] then some (.runtime (text "Invalid size")) else none

def sampleApproval : Approval where
  rawAddress := rawAddress sampleAddress
  publicKey := text "pk"
  walletStateInit := text "init"
  privateKey := sampleKey
  timestamp := 1700000000

/-- The dApp is connected, and stored. -/
def connectedRegistry : Registry where
  connections := [{ object := 0, data := sampleConnection, clientLastEventId := 2 }]
  created := 1
  eventsLocal := [0]
  manifests := [sampleConnection]
  built := [sampleConnection]

/-- The same dApp, with a new key pair. -/
def scannedAgain : TonConnectConnectionData :=
  { sampleConnection with key := { publicKey := sampleSodium.publicKey [4], privateKey := [4] } }

/-- Without a network the approval returns false. The connection that worked is no longer live,
and the write that will replace it in the storage has been launched. -/
theorem replaced_without_network :
    (approveTonConnectionRequest samplePrimitives connectedRegistry scannedAgain sampleApproval
      (List.replicate nonceBytes 0) .failure).1 = .ok false ∧
    ¬ FailsCleanly connectedRegistry (approveTonConnectionRequest samplePrimitives connectedRegistry
      scannedAgain sampleApproval (List.replicate nonceBytes 0) .failure) := by
  have hfalse : (approveTonConnectionRequest samplePrimitives connectedRegistry scannedAgain
      sampleApproval (List.replicate nonceBytes 0) .failure).1 = .ok false := by decide +kernel
  refine ⟨hfalse, fun h => ?_⟩
  have hlive := (h (by rw [hfalse]; decide)).connections
  have hgone : (approveTonConnectionRequest samplePrimitives connectedRegistry scannedAgain
      sampleApproval (List.replicate nonceBytes 0) .failure).2.connections.map Connection.data
        = [scannedAgain] := by decide +kernel
  rw [hlive] at hgone
  exact absurd hgone (by decide +kernel)

end TonWallet.TonConnect
