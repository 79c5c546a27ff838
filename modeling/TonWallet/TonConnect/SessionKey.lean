import TonWallet.Lib.Jobs
import TonWallet.TonConnect.Registry

/-!
# The key pair of a session

`generateX25519KeyPair` returns the private key and the public key, in this
order, and `processString` takes them for the public key and the private key.
So the record of a connection has them in each other's place, and every
`TonConnectConnection` makes its key pair of the public one.

* `session_keys_swapped`: the keys of the record and of all connections made
  of it, along every run.
* `secret_called_public`: a scanned link.
-/

namespace TonWallet.TonConnect

open Encoding Crypto Storage

/-! ## Keys -/

/-- `generateX25519KeyPair` for a pair with the private key `s` (`NaCL.kt` lines 8–11). -/
def generateX25519KeyPair (S : Sodium) (s : Bytes) : Bytes × Bytes := (s, S.publicKey s)

/-- `TonConnectRequestItem`. -/
structure TonConnectRequestItem where
  name : Text
  payload : Option Text := none
deriving DecidableEq, Repr

/-- `TonConnectRequest`. -/
structure TonConnectRequest where
  manifestUrl : Text
  items : List TonConnectRequestItem
deriving DecidableEq, Repr

/-- `processString`, for the parameter `id` of the link, the request in it, the manifest that was
downloaded, and the generated keys (`TonConnectManager.kt` lines 49–70). -/
def processString (id : Option Text) (request : TonConnectRequest)
    (manifest : TonConnectManifestModel) (keys : Bytes × Bytes) (currentWalletAddress : Text) :
    TonConnectConnectionData :=
  let (publicKey, privateKey) := keys
  { manifest := manifest
    id := id.getD []
    key := { publicKey := publicKey, privateKey := privateKey }
    walletAddress := currentWalletAddress
    payload := (request.items.find? fun it => it.name = text "ton_proof").bind
      TonConnectRequestItem.payload }

/-- The `client_id` of `eventsUrl` and of `sendRequest`: the public key of `clientKeyPair`
(`TonConnectConnection.kt` lines 63–67 and 277–279). -/
def clientId (S : Sodium) (d : TonConnectConnectionData) : Text :=
  hexEncode (S.publicKey (clientKey S d))

/-- The record `d` of the pair with the private key `s`, and every connection that is made of it,
have the keys of this pair where they say so. -/
structure ConsistentKeys (S : Sodium) (s : Bytes) (d : TonConnectConnectionData) (r : Registry) :
    Prop where
  publicKey : d.key.publicKey = S.publicKey s
  privateKey : d.key.privateKey = s
  /-- All messages are encrypted and decrypted with `s`. -/
  secret : ∀ c ∈ r.built, clientKey S c = s
  announced : ∀ c ∈ r.built, clientId S c = hexEncode (S.publicKey s)
  hidden : ∀ c ∈ d :: r.built, c.key.publicKey ≠ s

/-- What holds instead: the keys are swapped, and the secret of the session is made of the public
key. -/
structure SwappedKeys (S : Sodium) (s : Bytes) (d : TonConnectConnectionData) (r : Registry) :
    Prop where
  publicKey : ∀ c ∈ d :: r.built, c.key.publicKey = s
  privateKey : ∀ c ∈ d :: r.built, c.key.privateKey = S.publicKey s
  secret : ∀ c ∈ r.built, clientKey S c = S.keyPair (S.publicKey s)
  announced : ∀ c ∈ r.built, clientId S c = hexEncode (S.publicKey (S.keyPair (S.publicKey s)))

/-! ## Runs -/

/-- Only the connection of the record is approved or rejected. -/
def About (d : TonConnectConnectionData) : RegistryAction → Prop
  | .approve data _ => data = d
  | .reject data => data = d
  | _ => True

/-- The records a coroutine goes on with. -/
def Job.records : Job → List TonConnectConnectionData
  | .saveManifest data => [data]
  | .init (some read) => read
  | _ => []

/-- All records have the same keys. -/
structure KeyInv (key : TonConnectConnectionKeyData) (manifests : List TonConnectConnectionData)
    (jobs : List Job) (built : List TonConnectConnectionData) : Prop where
  manifests : ∀ c ∈ manifests, c.key = key
  jobs : ∀ j ∈ jobs, ∀ c ∈ j.records, c.key = key
  built : ∀ c ∈ built, c.key = key

def Registry.KeyInv (r : Registry) (key : TonConnectConnectionKeyData) : Prop :=
  TonConnect.KeyInv key r.manifests r.jobs r.built

variable {S : Sodium} {s : Bytes} {d data : TonConnectConnectionData} {r t : Registry}
  {key : TonConnectConnectionKeyData}

theorem keyInv_new (h : r.KeyInv key) (hd : data.key = key) : (r.new data).KeyInv key :=
  ⟨h.manifests, h.jobs, List.forall_mem_cons.mpr ⟨hd, h.built⟩⟩

theorem keyInv_sendRequest {c : Connection} (h : r.KeyInv key) : (r.sendRequest c).KeyInv key := by
  rw [Registry.sendRequest]
  split
  · exact ⟨h.manifests, h.jobs, h.built⟩
  · exact h

theorem keyInv_foldl {read : List TonConnectConnectionData} (h : r.KeyInv key)
    (hr : ∀ c ∈ read, c.key = key) : (read.foldl Registry.initTonConnection r).KeyInv key := by
  induction read generalizing r with
  | nil => exact h
  | cons data read ih =>
    obtain ⟨hd, hr⟩ := List.forall_mem_cons.mp hr
    exact ih (keyInv_new h hd) hr

theorem keyInv_run {i : ℕ} {j : Job} (h : r.KeyInv key) (hj : r.jobs[i]? = some j) :
    (r.runJob i j).KeyInv key := by
  have hrecords := h.jobs j (List.mem_of_getElem? hj)
  match j with
  | .saveManifest data =>
    refine ⟨fun c hc => ?_, Jobs.finish h.jobs i, h.built⟩
    obtain ⟨hc, -⟩ | rfl := mem_saveManifest.mp hc
    · exact h.manifests c hc
    · exact hrecords c (List.mem_singleton_self c)
  | .init none =>
    refine ⟨h.manifests, Jobs.goOn h.jobs fun c hc => ?_, h.built⟩
    obtain ⟨manifest, hm, rfl⟩ := List.mem_map.mp hc
    exact h.manifests manifest (List.mem_of_mem_filter hm)
  | .init (some read) =>
    have hfold := keyInv_foldl h hrecords
    exact ⟨hfold.manifests, Jobs.finish hfold.jobs i, hfold.built⟩
  | .delete data .launched =>
    have hlate : ∀ stage, ∀ j ∈ r.jobs.set i (.delete data stage), ∀ c ∈ j.records, c.key = key :=
      fun stage => Jobs.goOn h.jobs fun c hc => absurd hc List.not_mem_nil
    dsimp only [Registry.runJob, Registry.runDelete]
    split
    · split
      · exact ⟨h.manifests, hlate _, h.built⟩
      · exact ⟨h.manifests, Jobs.finish h.jobs i, h.built⟩
    · exact ⟨h.manifests, hlate _, h.built⟩
  | .delete data (.declined object) =>
    exact ⟨h.manifests, Jobs.goOn h.jobs fun c hc => absurd hc List.not_mem_nil, h.built⟩
  | .delete data .removed =>
    exact ⟨fun c hc => h.manifests c (mem_deleteConnection.mp hc).1, Jobs.finish h.jobs i, h.built⟩

theorem keyInv_step {a : RegistryAction} (h : r.KeyInv d.key) (ha : About d a)
    (hs : r.step a = some t) : t.KeyInv d.key := by
  cases a with
  | approve data proved =>
    obtain rfl := Option.some.inj hs
    obtain rfl : data = d := ha
    have hinit := keyInv_new h rfl
    have hjobs : ∀ j ∈ r.jobs ++ [.saveManifest data], ∀ c ∈ j.records, c.key = data.key :=
      Jobs.launch h.jobs (List.forall_mem_singleton.mpr rfl)
    cases proved with
    | false => exact ⟨h.manifests, hjobs, hinit.built⟩
    | true => exact keyInv_sendRequest ⟨h.manifests, hjobs, hinit.built⟩
  | reject data =>
    obtain rfl := Option.some.inj hs
    obtain rfl : data = d := ha
    exact keyInv_sendRequest (keyInv_new h rfl)
  | rejectTransfer data =>
    obtain rfl := Option.some.inj hs
    dsimp only [Registry.rejectTransfer]
    split
    · exact keyInv_sendRequest h
    · exact h
  | delete data =>
    obtain rfl := Option.some.inj hs
    exact ⟨h.manifests, Jobs.launch h.jobs fun c hc => absurd hc List.not_mem_nil, h.built⟩
  | run i =>
    obtain ⟨j, hj, rfl⟩ := Option.map_eq_some_iff.mp hs
    exact keyInv_run h hj
  | saveLastEventId clientId lastEventId =>
    obtain rfl := Option.some.inj hs
    exact ⟨h.manifests, h.jobs, h.built⟩
  | restart =>
    obtain rfl := Option.some.inj hs
    refine ⟨h.manifests, List.forall_mem_singleton.mpr fun c hc => ?_, h.built⟩
    exact absurd hc List.not_mem_nil

/-- **The keys of a session.** Whatever pair was generated, the record and the connections made
of it never have its keys where they should: in every run, the private key is in the place of
the public one, and the key pair of the session is made of the public key. -/
theorem session_keys_swapped (S : Sodium) (s : Bytes) (id : Option Text)
    (request : TonConnectRequest)
    (manifest : TonConnectManifestModel) (address : Text) (as : List RegistryAction) :
    let d := processString id request manifest (generateX25519KeyPair S s) address
    ¬ Machine.Always Registry.step (ConsistentKeys S s d) {} as ∧
    (Machine.Guarded Registry.step (fun _ a => About d a) {} as →
      Machine.Always Registry.step (SwappedKeys S s d) {} as) := by
  intro d
  have hd : d.key = { publicKey := s, privateKey := S.publicKey s } := rfl
  refine ⟨fun h => h.start.hidden d List.mem_cons_self rfl, fun hg => ?_⟩
  refine Machine.always_of_guarded (I := fun r : Registry => r.KeyInv d.key)
    (fun r a t h ha hs => keyInv_step h ha hs) (fun r h => ?_) ?_ hg
  · have hkey : ∀ c ∈ r.built, clientKey S c = S.keyPair (S.publicKey s) := by
      intro c hc
      rw [clientKey, h.built c hc, hd]
    refine ⟨?_, ?_, hkey, fun c hc => by rw [clientId, hkey c hc]⟩
    · refine List.forall_mem_cons.mpr ⟨rfl, fun c hc => ?_⟩
      rw [h.built c hc, hd]
    · refine List.forall_mem_cons.mpr ⟨rfl, fun c hc => ?_⟩
      rw [h.built c hc, hd]
  · refine ⟨?_, ?_, ?_⟩ <;> exact fun _ h => absurd h List.not_mem_nil

/-- The record of a scanned link, for a generated pair with the private key `[5]`. -/
def scannedConnection : TonConnectConnectionData :=
  processString (some sampleConnection.id)
    { manifestUrl := text "https://dapp/manifest", items := [{ name := text "ton_addr" }] }
    sampleConnection.manifest (generateX25519KeyPair sampleSodium [5]) (text "EQ")

/-- Its public key is the generated private key, and its approved connection does not decrypt
with that key. -/
theorem secret_called_public :
    scannedConnection.key.publicKey = [5] ∧
    ¬ Machine.Always Registry.step (ConsistentKeys sampleSodium [5] scannedConnection) {}
      [.approve scannedConnection true] := by
  refine ⟨rfl, fun h => ?_⟩
  have hstep := (h.2 _ rfl).secret scannedConnection List.mem_cons_self
  exact absurd hstep (by decide)

end TonWallet.TonConnect
