import TonWallet.TonConnect.Event

/-!
# The manager of the connections

`TonConnectManager` keeps the live connections, each with the counter its
replies take their ids from, and the list of all flows of events there ever
were. Every new connection makes the collector start over on that list, where
each flow repeats its last event.

An event does not carry the id of the call it comes from, nor the messages
after the first, nor `valid_until`. `Request` keeps them for the properties, and
`requests` keeps the requests; the code only ever reads `Request.event`.

* `requestOf_event`: the events of the requests are what `onEvent` emits.
-/

namespace TonWallet.TonConnect

open Encoding

/-! ## Requests -/

/-- A call of `sendTransaction` with at least one message, as it arrived: the number of its
arrival, the connection, the id of the call and its parameters. -/
structure Request where
  arrival : ℕ
  connection : ℕ
  id : ℤ
  data : TonConnectConnectionData
  message : TonConnectMethodParamsMessageResponse
  rest : List TonConnectMethodParamsMessageResponse
  validUntil : ℤ
deriving DecidableEq, Repr

/-- All messages of the call. -/
def Request.messages (r : Request) : List TonConnectMethodParamsMessageResponse :=
  r.message :: r.rest

/-- The event that leaves `onEvent`. -/
def Request.event (r : Request) : TonConnectTransactionRequest where
  data := r.data
  sender := r.data.walletAddress
  recipient := r.message.address
  amount := r.message.amount

/-- The request of a decrypted call, if it makes `onEvent` emit an event. -/
def requestOf (J : Json) (arrival connection : ℕ) (d : TonConnectConnectionData)
    (model : TonConnectMethodResponse) : Option Request :=
  if model.method = text "sendTransaction" then
    match model.params.head?.bind J.decodeParams with
    | some { messages := message :: rest, validUntil } =>
      some { arrival, connection, id := model.id, data := d, message, rest, validUntil }
    | _ => none
  else none

/-- The requests are what `onEvent` emits. -/
theorem requestOf_event (J : Json) (arrival connection : ℕ) (d : TonConnectConnectionData)
    (model : TonConnectMethodResponse) (e : TonConnectTransactionRequest) :
    processMethod J d model = .ok (some e) ↔
      ∃ r, requestOf J arrival connection d model = some r ∧ r.event = e := by
  unfold processMethod requestOf
  by_cases hm : model.method = text "sendTransaction"
  · rw [if_pos hm, if_pos hm]
    cases model.params with
    | nil => simp
    | cons params others =>
      cases hp : J.decodeParams params with
      | none => simp [decodeFromString, hp]
      | some response =>
        obtain ⟨messages, validUntil⟩ := response
        cases messages with
        | nil => simp [decodeFromString, hp]
        | cons message rest => simp [decodeFromString, hp, Request.event]
  · simp [hm]

/-- What a request keeps of its arrival. -/
theorem requestOf_eq_some {J : Json} {arrival connection : ℕ} {d : TonConnectConnectionData}
    {model : TonConnectMethodResponse} {r : Request}
    (h : requestOf J arrival connection d model = some r) :
    r.arrival = arrival ∧ r.connection = connection ∧ r.data = d ∧ r.id = model.id := by
  unfold requestOf at h
  split at h
  · split at h
    · obtain rfl := Option.some.inj h
      exact ⟨rfl, rfl, rfl, rfl⟩
    · cases h
  · cases h

/-! ## Connections -/

/-- A live `TonConnectConnection`: its number, and the counter of the messages it sends. -/
structure Connection where
  object : ℕ
  data : TonConnectConnectionData
  clientLastEventId : ℤ := 1
deriving DecidableEq, Repr

/-- `TonConnectError` inside a reply; a result has none. -/
structure Reply where
  id : ℤ
  error : Option (ℤ × Text)
deriving DecidableEq, Repr

/-- The manager, and what its collector has still to deliver. -/
structure Manager where
  connections : List Connection := []
  /-- How many connections have been made; `eventsLocal` has one flow for each. -/
  created : ℕ := 0
  arrived : ℕ := 0
  /-- All requests that have arrived, in their order. -/
  requests : List Request := []
  /-- The event each flow repeats for a new collector. -/
  replay : ℕ → Option Request := fun _ => none
  pending : List Request := []

inductive ManagerAction where
  /-- A decrypted call arrives on a live connection. -/
  | receive (object : ℕ) (model : TonConnectMethodResponse)
  | initTonConnection (data : TonConnectConnectionData)
  | sendApproveRequest (object : ℕ)
  | deleteApp (data : TonConnectConnectionData)
deriving DecidableEq, Repr

namespace Manager

/-- A call arrives: the event goes into the flow of its connection. -/
def receive (J : Json) (m : Manager) (object : ℕ) (model : TonConnectMethodResponse) :
    Option Manager :=
  (m.connections.find? fun c => c.object = object).map fun c =>
    match requestOf J m.arrived object c.data model with
    | some r =>
      { m with
        arrived := m.arrived + 1
        requests := m.requests ++ [r]
        replay := Function.update m.replay object (some r)
        pending := m.pending ++ [r] }
    | none => m

/-- `initTonConnection` with `save` (`TonConnectManager.kt` lines 114–137): the connection takes
the place of the first one with its manifest, and the collector starts over. -/
def initTonConnection (m : Manager) (data : TonConnectConnectionData) : Manager :=
  { m with
    connections := m.connections.eraseP (fun c => c.data.manifest = data.manifest) ++
      [{ object := m.created, data := data }]
    created := m.created + 1
    pending := (List.range m.created).filterMap m.replay }

/-- The connection `object` sends a message, and counts it. -/
def count (m : Manager) (object : ℕ) : Manager :=
  { m with
    connections := m.connections.map fun c =>
      if c.object = object then { c with clientLastEventId := c.clientLastEventId + 1 } else c }

/-- `deleteAppWithManifest` (`TonConnectManager.kt` lines 98–107). -/
def deleteApp (m : Manager) (data : TonConnectConnectionData) : Manager :=
  { m with connections := m.connections.eraseP fun c => c.data.manifest = data.manifest }

/-- `getTonConnectionWithData` (`TonConnectManager.kt` lines 139–141). -/
def getTonConnectionWithData (m : Manager) (data : TonConnectConnectionData) : Option Connection :=
  m.connections.find? fun c => c.data.id = data.id

def step (J : Json) (m : Manager) : ManagerAction → Option Manager
  | .receive object model => m.receive J object model
  | .initTonConnection data => some (m.initTonConnection data)
  | .sendApproveRequest object => some (m.count object)
  | .deleteApp data => some (m.deleteApp data)

end Manager

/-- The reply of `rejectTransferRequest` (`TonConnectConnection.kt` lines 247–260). -/
def Connection.rejectTransferRequest (c : Connection) : Reply where
  id := c.clientLastEventId
  error := some (300, text "Wallet declined the request")

end TonWallet.TonConnect
