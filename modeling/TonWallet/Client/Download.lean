import TonWallet.Encoding.Text
import Mathlib.Data.List.TakeWhile

/-!
# A download

`downloadFileToString` hands its text to a callback, inside the `try` that the
stream is read in. The `catch` logs and the `finally` closes; neither of them
calls the callback. The suspending form is resumed by the callback only.

* `read_eq`: the loop reads what the stream returns, if no step fails.
* `downloadFileToString_resumes_iff`: the caller is resumed exactly once, with
  the text or a failure, exactly if no step before closing fails with an
  `Exception`.
-/

namespace TonWallet.Client

open Encoding

/-! ## The model -/

/-- What a step fails with: an `Exception`, or a `Throwable` that is none. -/
inductive Failure where
  | exception (message : Option Text)
  | error (message : Option Text)
deriving DecidableEq, Repr

/-- `e.message.orEmpty()`. -/
def Failure.message : Failure → Text
  | .exception message => message.getD []
  | .error message => message.getD []

/-- The steps of a download, as they turn out. The reads of the stream return `chunks`, and what
comes after them is the end of the stream or a failure. -/
structure Download where
  url : Except Failure Unit := .ok ()
  openConnection : Except Failure Unit := .ok ()
  connect : Except Failure Unit := .ok ()
  getInputStream : Except Failure Unit := .ok ()
  chunks : List Bytes := []
  ending : Except Failure Unit := .ok ()
  closeStream : Except Failure Unit := .ok ()

/-- What a call has done: the texts it handed to its callback, what it logged, and what it threw. -/
structure DownloadRun where
  resumed : List Text := []
  logged : List Text := []
  thrown : Option Failure := none

/-- The loop of the reads (`DownloadFile.kt` lines 32–41). -/
def readLoop (ending : Except Failure Unit) (outbuf : Bytes) : List Bytes → Except Failure Bytes
  | [] => ending.map fun _ => outbuf
  | data :: chunks =>
    if 0 < data.length then readLoop ending (outbuf ++ data) chunks else .ok outbuf

namespace Download

/-- The body of the `try`, up to the callback (lines 18–41). -/
def body (d : Download) : Except Failure Bytes := do
  d.url
  d.openConnection
  d.connect
  d.getInputStream
  readLoop d.ending [] d.chunks

/-- The stream has been assigned. -/
def opened (d : Download) : Bool :=
  [d.url, d.openConnection, d.connect, d.getInputStream].all Except.isOk

/-- What the `finally` logs (lines 47–51). Closing the buffer does nothing. -/
def cleanup (d : Download) : List Text :=
  match d.opened, d.closeStream with
  | true, .error f => [f.message]
  | _, _ => []

end Download

/-- `downloadFileToString(url, onSuccess)` (`DownloadFile.kt` lines 14–54). -/
def downloadFileToString (d : Download) : DownloadRun :=
  match d.body with
  | .ok outbuf => { resumed := [decodeToString outbuf], logged := d.cleanup }
  | .error (.exception message) =>
    { logged := (Failure.exception message).message :: d.cleanup }
  | .error (.error message) => { logged := d.cleanup, thrown := some (.error message) }

/-- What the caller of the suspending form (lines 10–12) is resumed with. -/
def DownloadRun.caller (r : DownloadRun) : List (Except Failure Text) :=
  r.resumed.map .ok ++ r.thrown.toList.map .error

/-- `TonApi.Init`, with its `Options`, its `Config` and its `KeyStoreTypeDirectory`. -/
structure Init where
  config : Text
  blockchainName : Text
  useCallbacksForNetwork : Bool
  ignoreCache : Bool
  directory : Text

/-- What has become of `initTonLib`. -/
inductive InitRun where
  | sent (request : Init)
  | failed (f : Failure)
  | waiting

/-- `initTonLib` (`TonWalletClient.kt` lines 121–139), up to its request. -/
def initTonLib (keyDirectory : Text) (d : Download) : InitRun :=
  match (downloadFileToString d).caller with
  | [] => .waiting
  | .ok configString :: _ => .sent ⟨configString, text "mainnet", false, false, keyDirectory⟩
  | .error f :: _ => .failed f

/-! ## The steps before closing -/

namespace Download

/-- The chunks that are read: those before the first empty one. -/
def returned (d : Download) : List Bytes := d.chunks.takeWhile fun data => 0 < data.length

/-- The steps that are made before closing, if none of them fails. The end of the stream is not
reached if a read returns nothing. -/
def steps (d : Download) : List (Except Failure Unit) :=
  [d.url, d.openConnection, d.connect, d.getInputStream]
    ++ if [] ∈ d.chunks then [] else [d.ending]

/-- The failure of the first of these steps that fails. -/
def failure (d : Download) : Option Failure :=
  d.steps.findSome? fun
    | .ok () => none
    | .error f => some f

/-- The caller is resumed exactly once: with the text of all chunks if no step fails before
closing, and with a failure otherwise. -/
def ResumesOnce (d : Download) : Prop :=
  ∃ result, (downloadFileToString d).caller = [result] ∧
    (d.failure = none → result = .ok (decodeToString d.returned.flatten)) ∧
    (d.failure ≠ none → ∃ f, result = .error f)

/-- `initTonLib` sends its request, or learns that it cannot. -/
def Settles (d : Download) (keyDirectory : Text) : Prop :=
  (∃ request, initTonLib keyDirectory d = .sent request) ∨
    ∃ f, initTonLib keyDirectory d = .failed f

/-- The loop ends at an empty chunk, or where the stream does. -/
theorem readLoop_eq (ending : Except Failure Unit) (outbuf : Bytes) (chunks : List Bytes) :
    readLoop ending outbuf chunks
      = (if [] ∈ chunks then .ok () else ending).map fun _ =>
          outbuf ++ (chunks.takeWhile fun data => 0 < data.length).flatten := by
  induction chunks generalizing outbuf with
  | nil => simp [readLoop]
  | cons data chunks ih =>
    rw [readLoop]
    by_cases hdata : 0 < data.length
    · have hne : [] ≠ data := (List.length_pos_iff.mp hdata).symm
      simp only [if_pos hdata, ih, List.takeWhile_cons, decide_eq_true hdata, if_true,
        List.flatten_cons, List.append_assoc, List.mem_cons, hne, false_or]
    · have hnil : data = [] := List.length_eq_zero_iff.mp (by omega)
      subst hnil
      simp [Except.map]

/-- The body reads all chunks if no step fails, and fails with the first failure otherwise. -/
theorem read_eq (d : Download) :
    d.body = match d.failure with
      | none => .ok d.returned.flatten
      | some f => .error f := by
  rw [body, failure, steps, readLoop_eq]
  cases d.url with
  | error f => rfl
  | ok _ =>
    cases d.openConnection with
    | error f => rfl
    | ok _ =>
      cases d.connect with
      | error f => rfl
      | ok _ =>
        cases d.getInputStream with
        | error f => rfl
        | ok _ =>
          split
          · rfl
          · cases d.ending <;> rfl

/-! ## The caller -/

variable {d : Download}

/-- Without a failure the caller gets the text, whatever closing does. -/
theorem caller_of_ok (h : d.failure = none) :
    (downloadFileToString d).caller = [.ok (decodeToString d.returned.flatten)] := by
  simp [downloadFileToString, read_eq, h, DownloadRun.caller]

/-- An exception is logged, and the caller is not resumed. -/
theorem caller_of_exception {message : Option Text} (h : d.failure = some (.exception message)) :
    (downloadFileToString d).caller = [] := by
  simp [downloadFileToString, read_eq, h, DownloadRun.caller]

/-- What is not caught gets to the caller. -/
theorem caller_of_error {message : Option Text} (h : d.failure = some (.error message)) :
    (downloadFileToString d).caller = [.error (.error message)] := by
  simp [downloadFileToString, read_eq, h, DownloadRun.caller]

theorem resumesOnce_iff : d.ResumesOnce ↔ ∀ message, d.failure ≠ some (.exception message) := by
  constructor
  · rintro ⟨result, hcaller, -⟩ message h
    rw [caller_of_exception h] at hcaller
    cases hcaller
  · intro h
    cases hf : d.failure with
    | none => exact ⟨_, caller_of_ok hf, fun _ => rfl, fun hne => absurd hf hne⟩
    | some f =>
      cases f with
      | exception message => exact absurd hf (h message)
      | error message =>
        refine ⟨_, caller_of_error hf, fun hnone => ?_, fun _ => ⟨_, rfl⟩⟩
        rw [hf] at hnone
        cases hnone

/-- `initTonLib` waits exactly if its caller is not resumed. -/
theorem settles_iff (keyDirectory : Text) :
    d.Settles keyDirectory ↔ (downloadFileToString d).caller ≠ [] := by
  rw [Settles, initTonLib]
  cases (downloadFileToString d).caller with
  | nil => simp
  | cons result rest => cases result <;> simp

end Download

/-- **A download.** The caller is resumed exactly once and `initTonLib` learns what has become of
its download, exactly if no step before closing fails with an `Exception`. -/
theorem downloadFileToString_resumes_iff (d : Download) (keyDirectory : Text) :
    d.ResumesOnce ∧ d.Settles keyDirectory ↔
      ∀ message, d.failure ≠ some (.exception message) := by
  rw [Download.resumesOnce_iff, Download.settles_iff, and_iff_left_iff_imp]
  intro h hcaller
  obtain ⟨result, hresult, -⟩ := Download.resumesOnce_iff.mpr h
  rw [hcaller] at hresult
  cases hresult

/-- A host that cannot be reached resumes nobody. -/
theorem unreachable_not_resumed :
    ¬ ∀ (d : Download) (keyDirectory : Text), d.ResumesOnce ∧ d.Settles keyDirectory := by
  intro h
  have hresumed := (h { connect := .error (.exception (some (text "timeout"))) } []).1
  exact Download.resumesOnce_iff.mp hresumed _ rfl

end TonWallet.Client
