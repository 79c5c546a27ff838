import TonWallet.Client.Download
import TonWallet.Send.Scanner
import TonWallet.TonConnect.SessionKey
import TonWallet.Transfer.Model

/-!
# Scanned connection links

A link names a request and the client id of a dApp. `processString` decodes the
request, downloads the manifest it names, decodes that, and shows a connection
request. It has no branch for a stage that fails, and does not look at the id.

* `manager_ended_iff`: when there is a connection to be shown.
* `processString_answers_iff`: a link is treated as it should exactly if it can be
  answered.
-/

namespace TonWallet.TonConnect.Link

open Encoding Storage Client
open Transfer (BottomSheetState)

/-! ## The model -/

/-- What becomes of a coroutine. -/
inductive Outcome (α : Type) where
  | ended (a : α)
  | threw (e : Throwable)
  /-- A download has failed with something else than an exception. -/
  | failed (f : Failure)
  | suspended

namespace Outcome

variable {α β : Type}

def bind : Outcome α → (α → Outcome β) → Outcome β
  | ended a, f => f a
  | threw e, _ => threw e
  | failed e, _ => failed e
  | suspended, _ => suspended

instance : Monad Outcome where
  pure := ended
  bind := bind

def ofExcept : Except Throwable α → Outcome α
  | .ok a => ended a
  | .error e => threw e

/-- `decodeFromString`, `none` for a `SerializationException`. -/
def ofDecoded : Option α → Outcome α
  | some a => ended a
  | none => threw .serialization

theorem bind_eq_ended {x : Outcome α} {f : α → Outcome β} {b : β} :
    (x >>= f) = ended b ↔ ∃ a, x = ended a ∧ f a = ended b := by
  change bind x f = ended b ↔ _
  cases x <;> simp [bind]

theorem ofExcept_eq_ended {x : Except Throwable α} {a : α} : ofExcept x = ended a ↔ x = .ok a := by
  cases x <;> simp [ofExcept]

theorem ofDecoded_eq_ended {x : Option α} {a : α} : ofDecoded x = ended a ↔ x = some a := by
  cases x <;> simp [ofDecoded]

end Outcome

/-- `Uri.isOpaque()`: something else than a `/` follows the first `:`. -/
def isOpaque (uri : Text) : Bool :=
  match uri.dropWhile (· ≠ Json.colon) with
  | [] => false
  | _ :: rest => rest.head? ≠ some slash

/-- The query of a uri, which is behind its first `:` if it has one. -/
def encodedQuery (uri : Text) : Text :=
  queryOf (if Json.colon ∈ uri then uri.dropWhile (· ≠ Json.colon) else uri)

/-- The value of a segment behind its name, with a space for a `+`. -/
def segmentValue (key segment : Text) : Text :=
  percentDecode ((segment.drop (key.length + 1)).map fun c => if c = 0x2B then 0x20 else c)

/-- `Uri.parse(uri).getQueryParameter(key)`. -/
def getQueryParameter (uri key : Text) : Except Throwable (Option Text) :=
  if isOpaque uri then
    .error (.unsupportedOperation (text "This isn\x27t a hierarchical URI."))
  else
    let segments := (encodedQuery uri).splitOn ampersand
    .ok ((segments.find? fun s => s.takeWhile (· ≠ equals) = key).map (segmentValue key))

example : getQueryParameter (text "tc://?v=2&id=a%2B+b&id=c#&r=") (text "id")
    = .ok (some (text "a+ b")) := by decide +kernel

/-- The decoders that `kotlinx.serialization` derives, `none` for a `SerializationException`. -/
structure Decoders where
  decodeRequest : Text → Option TonConnectRequest
  decodeManifest : Text → Option TonConnectManifestModel

/-- The suspending `downloadFileToString`, of a url whose download is given by `net`. -/
def download (net : Text → Download) (url : Text) : Outcome Text :=
  match (downloadFileToString (net url)).caller with
  | [] => .suspended
  | .ok manifestString :: _ => .ended manifestString
  | .error f :: _ => .failed f

/-- `TonConnectionDataRequestUi`. -/
structure TonConnectionDataRequestUi where
  data : TonConnectConnectionData
  address : Text
  walletVersion : WalletVersion
deriving DecidableEq

/-- `ButtonState`. -/
inductive ButtonState where
  | Empty
  | Loading
  | Success
  | Error

/-- The flows of `TonConnectViewModel`, and whether `Navigation` collects `connectionRequest`. -/
structure Screen where
  connectionRequest : Option TonConnectionDataRequestUi := none
  bottomSheetShow : BottomSheetState := .Empty
  buttonState : ButtonState := .Empty
  collected : Bool := true

/-- `_connectionRequest.tryEmit`, and what `onEach` does for the collector of a value that is
new. -/
def Screen.tryEmit (s : Screen) (request : TonConnectionDataRequestUi) : Screen :=
  if s.connectionRequest = some request then s
  else
    { s with
      connectionRequest := some request
      bottomSheetShow := if s.collected then .ConnectionRequest else s.bottomSheetShow }

/-- What has become of the coroutine of a link, what it has emitted, and the screen. -/
structure LinkRun where
  outcome : Outcome Unit
  emitted : Option TonConnectionDataRequestUi := none
  screen : Screen

section
variable (J : Decoders) (net : Text → Download) (keys : Bytes × Bytes)

/-- `TonConnectManager.processString` (lines 49–70), with the generated keys. -/
def managerProcessString (tonConnectData currentWalletAddress : Text) :
    Outcome TonConnectConnectionData := do
  let manifestData ← .ofExcept (getQueryParameter tonConnectData (text "r"))
  let id ← .ofExcept (getQueryParameter tonConnectData (text "id"))
  let request ← .ofDecoded (J.decodeRequest (manifestData.getD []))
  let manifestString ← download net request.manifestUrl
  let manifest ← .ofDecoded (J.decodeManifest manifestString)
  return processString id request manifest keys currentWalletAddress

/-- `TonConnectViewModel.processString` (lines 40–55), for the current wallet. -/
def viewModelProcessString (currentWalletData : Option WalletData) (tonConnectData : Text)
    (s : Screen) : LinkRun :=
  let s := { s with buttonState := .Empty }
  let currentWalletAddress := (currentWalletData.map WalletData.address).getD []
  let currentWalletVersion := (currentWalletData.map WalletData.walletVersion).getD .V3R2
  match managerProcessString J net keys tonConnectData currentWalletAddress with
  | .ended data =>
    let request : TonConnectionDataRequestUi := ⟨data, currentWalletAddress, currentWalletVersion⟩
    { outcome := .ended (), emitted := some request, screen := s.tryEmit request }
  | .threw e => { outcome := .threw e, screen := s }
  | .failed f => { outcome := .failed f, screen := s }
  | .suspended => { outcome := .suspended, screen := s }

/-! ## Links that can be answered -/

/-- The request of a link decodes, and so does the manifest, which downloads. -/
def Loads (link : Text) (request : TonConnectRequest) (manifest : TonConnectManifestModel) : Prop :=
  ∃ manifestData, getQueryParameter link (text "r") = .ok manifestData ∧
    J.decodeRequest (manifestData.getD []) = some request ∧
    (net request.manifestUrl).failure = none ∧
    J.decodeManifest (decodeToString (net request.manifestUrl).returned.flatten) = some manifest

/-- The id of a link is the hexadecimal form of a key. -/
def HasKey (link : Text) : Prop :=
  ∃ id key, getQueryParameter link (text "id") = .ok (some id) ∧ id.length = 64 ∧
    hexDecode id = .ok key ∧ key.length = 32

/-- The link can be answered. -/
def Answerable (link : Text) : Prop :=
  (∃ request manifest, Loads J net link request manifest) ∧ HasKey link

/-- A link is treated as it should. -/
structure Answers (wallet : Option WalletData) (link : Text) (s : Screen) : Prop where
  ends : (viewModelProcessString J net keys wallet link s).outcome = .ended ()
  sets : (viewModelProcessString J net keys wallet link s).emitted.isSome ↔ Answerable J net link
  shown : ∀ request ∈ (viewModelProcessString J net keys wallet link s).emitted,
    (viewModelProcessString J net keys wallet link s).screen.connectionRequest = some request
  unchanged : ¬ Answerable J net link →
    (viewModelProcessString J net keys wallet link s).screen.connectionRequest
        = s.connectionRequest ∧
      (viewModelProcessString J net keys wallet link s).screen.bottomSheetShow = s.bottomSheetShow

end

variable {J : Decoders} {net : Text → Download} {keys : Bytes × Bytes}

/-- A download that ends has not failed. -/
theorem download_eq_ended {url manifestString : Text} :
    download net url = .ended manifestString ↔
      (net url).failure = none ∧ decodeToString (net url).returned.flatten = manifestString := by
  rw [download]
  cases hf : (net url).failure with
  | none => simp [Download.caller_of_ok hf]
  | some f =>
    cases f with
    | exception message => simp [Download.caller_of_exception hf]
    | error message => simp [Download.caller_of_error hf]

/-- There is a connection to be shown if everything loads, whatever the id is. -/
theorem manager_ended_iff {link address : Text} {data : TonConnectConnectionData} :
    managerProcessString J net keys link address = .ended data ↔
      ∃ id request manifest, getQueryParameter link (text "id") = .ok id ∧
        Loads J net link request manifest ∧
        processString id request manifest keys address = data := by
  simp only [managerProcessString, Outcome.bind_eq_ended, Outcome.ofExcept_eq_ended,
    Outcome.ofDecoded_eq_ended, download_eq_ended]
  constructor
  · rintro ⟨manifestData, hr, id, hid, request, hrequest, manifestString, ⟨hfailure, rfl⟩, manifest,
      hmanifest, hdata⟩
    exact ⟨id, request, manifest, hid, ⟨manifestData, hr, hrequest, hfailure, hmanifest⟩,
      Outcome.ended.inj hdata⟩
  · rintro ⟨id, request, manifest, hid, ⟨manifestData, hr, hrequest, hfailure, hmanifest⟩, rfl⟩
    exact ⟨manifestData, hr, id, hid, request, hrequest, _, ⟨hfailure, rfl⟩, manifest, hmanifest,
      rfl⟩

theorem tryEmit_connectionRequest (s : Screen) (request : TonConnectionDataRequestUi) :
    (s.tryEmit request).connectionRequest = some request := by
  rw [Screen.tryEmit]
  split
  · assumption
  · rfl

/-- What is emitted is the request of the connection, if there is one. -/
theorem viewModelProcessString_of_ended {wallet : Option WalletData} {link : Text} {s : Screen}
    {data : TonConnectConnectionData}
    (h : managerProcessString J net keys link ((wallet.map WalletData.address).getD [])
      = .ended data) :
    ∃ request, viewModelProcessString J net keys wallet link s
      = { outcome := .ended (), emitted := some request
          screen := { s with buttonState := .Empty }.tryEmit request } := by
  simp only [viewModelProcessString, h]
  exact ⟨_, rfl⟩

/-- The coroutine ends if there is a connection. -/
theorem ended_of_outcome {wallet : Option WalletData} {link : Text} {s : Screen}
    (h : (viewModelProcessString J net keys wallet link s).outcome = .ended ()) :
    ∃ data, managerProcessString J net keys link ((wallet.map WalletData.address).getD [])
      = .ended data := by
  cases hm : managerProcessString J net keys link ((wallet.map WalletData.address).getD []) with
  | ended data => exact ⟨data, rfl⟩
  | threw e => simp [viewModelProcessString, hm] at h
  | failed f => simp [viewModelProcessString, hm] at h
  | suspended => simp [viewModelProcessString, hm] at h

/-- A link that is treated as it should can be answered. -/
theorem Answers.answerable {wallet : Option WalletData} {link : Text} {s : Screen}
    (h : Answers J net keys wallet link s) : Answerable J net link := by
  obtain ⟨data, hended⟩ := ended_of_outcome h.ends
  obtain ⟨request, hrun⟩ := viewModelProcessString_of_ended (s := s) hended
  refine h.sets.mp ?_
  rw [hrun, Option.isSome_some]

end TonWallet.TonConnect.Link
