import TonWallet.Storage.Connections
import TonWallet.TonConnect.Manager
import TonWallet.Lib.Machine

/-!
# Connections and the storage

`TonConnectManager` with the storage behind it: the live connections, the
connections and last event ids that are stored, and the coroutines of
`Dispatchers.IO` that pass between the two. They are launched in order and go
on in any order, and all of them are lost when the process stops.

The state also keeps the data every connection object was made of, every
message the wallet has sent, and the dApps that were deleted and not approved
again. Only the properties read these.
-/

namespace TonWallet.TonConnect

open Encoding Storage

/-! ## State -/

/-- A message of the wallet: the object that sent it, the client it is for, the key pair of the
session, and its id. -/
structure WalletMessage where
  object : ℕ
  clientId : Text
  key : TonConnectConnectionKeyData
  id : ℤ
deriving DecidableEq, Repr

/-- The message a connection sends, with the id its counter has. -/
def Connection.message (c : Connection) : WalletMessage where
  object := c.object
  clientId := c.data.id
  key := c.data.key
  id := c.clientLastEventId

/-- Messages can be encrypted: `hex(data.id)` is the key of the client. -/
def Connection.HasClientKey (c : Connection) : Prop := (hexDecode c.data.id).isOk

instance (c : Connection) : Decidable c.HasClientKey := by
  unfold Connection.HasClientKey
  infer_instance

/-- The points where the coroutine of `deleteAppWithManifest` is suspended. -/
inductive DeleteStage where
  | launched
  /-- The connection has sent its farewell. -/
  | declined (object : ℕ)
  | removed
deriving DecidableEq, Repr

/-- A coroutine. -/
inductive Job where
  | saveManifest (data : TonConnectConnectionData)
  | delete (data : TonConnectConnectionData) (stage : DeleteStage)
  /-- `initTonConnectConnections`, with the connections it has read. -/
  | init (read : Option (List TonConnectConnectionData))
deriving DecidableEq, Repr

structure Registry where
  connections : List Connection := []
  created : ℕ := 0
  /-- The connections whose flows are in `eventsLocal`. -/
  eventsLocal : List ℕ := []
  manifests : List TonConnectConnectionData := []
  lastEventId : Text → Option ℤ := fun _ => none
  jobs : List Job := []
  built : List TonConnectConnectionData := []
  sent : List WalletMessage := []
  deleted : List TonConnectManifestModel := []

inductive RegistryAction where
  /-- The message is not made if there is no proof of ownership for it. -/
  | approve (data : TonConnectConnectionData) (proved : Bool)
  | reject (data : TonConnectConnectionData)
  | rejectTransfer (data : TonConnectConnectionData)
  | delete (data : TonConnectConnectionData)
  /-- A coroutine goes on. -/
  | run (i : ℕ)
  /-- The coroutine of an event has run. -/
  | saveLastEventId (clientId : Text) (lastEventId : ℤ)
  /-- The process stops, and is started again. -/
  | restart
deriving DecidableEq, Repr

namespace Registry

/-! ## Connections -/

/-- `getTonConnectionWithData` (`TonConnectManager.kt` lines 139–141). -/
def getTonConnectionWithData (r : Registry) (data : TonConnectConnectionData) :
    Option Connection :=
  r.connections.find? fun c => c.data.id = data.id

/-- A `TonConnectConnection` is made. -/
def new (r : Registry) (data : TonConnectConnectionData) : Registry :=
  { r with created := r.created + 1, built := data :: r.built }

/-- `initTonConnection` with `save`, without the launched write: the connection takes the place
of the first one with its manifest (`TonConnectManager.kt` lines 114–130). -/
def initTonConnection (r : Registry) (data : TonConnectConnectionData) : Registry :=
  { r.new data with
    connections := r.connections.eraseP (fun c => c.data.manifest = data.manifest) ++
      [{ object := r.created, data := data }]
    eventsLocal := r.eventsLocal ++ [r.created] }

/-- A message with the next id of its object is posted. -/
def send (r : Registry) (c : Connection) : Registry :=
  { r with
    connections := r.connections.map fun c' =>
      if c'.object = c.object then { c' with clientLastEventId := c'.clientLastEventId + 1 } else c'
    sent := c.message :: r.sent }

/-- `sendRequest`, which throws if the message cannot be encrypted. Then the object never sends
one, and its counter does not matter. -/
def sendRequest (r : Registry) (c : Connection) : Registry :=
  if c.HasClientKey then r.send c else r

def launch (r : Registry) (j : Job) : Registry := { r with jobs := r.jobs ++ [j] }

/-- `approveTonConnectionRequest`, up to the response (`TonConnectManager.kt` lines 72–86). -/
def approve (r : Registry) (data : TonConnectConnectionData) (proved : Bool) : Registry :=
  let r' :=
    { (r.initTonConnection data).launch (.saveManifest data) with
      deleted := r.deleted.filter (· ≠ data.manifest) }
  if proved then r'.sendRequest { object := r.created, data := data } else r'

/-- `rejectConnectionRequest`: a connection that is not kept (`TonConnectManager.kt` lines
88–92). -/
def reject (r : Registry) (data : TonConnectConnectionData) : Registry :=
  (r.new data).sendRequest { object := r.created, data := data }

/-- `rejectRequest` (`TonConnectManager.kt` lines 94–96). -/
def rejectTransfer (r : Registry) (data : TonConnectConnectionData) : Registry :=
  match r.getTonConnectionWithData data with
  | some c => r.sendRequest c
  | none => r

/-- `deleteAppWithManifest`, which launches its coroutine (`TonConnectManager.kt` lines 98–99). -/
def deleteAppWithManifest (r : Registry) (data : TonConnectConnectionData) : Registry :=
  { r.launch (.delete data .launched) with deleted := data.manifest :: r.deleted }

/-! ## Coroutines -/

/-- The coroutine of `deleteAppWithManifest` (`TonConnectManager.kt` lines 98–107), which is the
one with number `i`. It ends with the exception of a farewell that cannot be encrypted. -/
def runDelete (r : Registry) (i : ℕ) (data : TonConnectConnectionData) : DeleteStage → Registry
  | .launched =>
    match r.connections.find? fun c => c.data.manifest = data.manifest with
    | some c =>
      if c.HasClientKey then
        let r := r.send c
        { r with jobs := r.jobs.set i (.delete data (.declined c.object)) }
      else { r with jobs := r.jobs.eraseIdx i }
    | none => { r with jobs := r.jobs.set i (.delete data .removed) }
  | .declined object =>
    { r with
      connections := r.connections.eraseP fun c => c.object = object
      jobs := r.jobs.set i (.delete data .removed) }
  | .removed =>
    { r with
      manifests := deleteConnection r.manifests data
      lastEventId := Function.update r.lastEventId data.id none
      jobs := r.jobs.eraseIdx i }

/-- The connections `initTonConnectConnections` reads (`TonConnectManager.kt` lines 39–44). -/
def readConnections (r : Registry) : List TonConnectConnectionData :=
  (r.manifests.filter fun manifest => r.connections.all fun it => it.data.id ≠ manifest.id).map
    fun connectionData =>
      { connectionData with lastEventId := (r.lastEventId connectionData.id).getD (-1) }

/-- A coroutine goes on to its next suspension. -/
def runJob (r : Registry) (i : ℕ) : Job → Registry
  | .saveManifest data =>
    { r with manifests := saveManifest r.manifests data, jobs := r.jobs.eraseIdx i }
  | .delete data stage => r.runDelete i data stage
  | .init none => { r with jobs := r.jobs.set i (.init (some r.readConnections)) }
  | .init (some read) =>
    let r := read.foldl initTonConnection r
    { r with jobs := r.jobs.eraseIdx i }

/-- A new process finds the storage, and launches `initTonConnectConnections`. -/
def restart (r : Registry) : Registry :=
  { r with connections := [], eventsLocal := [], jobs := [.init none] }

def step (r : Registry) : RegistryAction → Option Registry
  | .approve data proved => some (r.approve data proved)
  | .reject data => some (r.reject data)
  | .rejectTransfer data => some (r.rejectTransfer data)
  | .delete data => some (r.deleteAppWithManifest data)
  | .run i => (r.jobs[i]?).map fun j => r.runJob i j
  | .saveLastEventId clientId lastEventId =>
    some { r with lastEventId := Function.update r.lastEventId clientId (some lastEventId) }
  | .restart => some r.restart

end Registry

end TonWallet.TonConnect
