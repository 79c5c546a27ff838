import TonWallet.Send.Queries

/-!
# The requests of the fee

`calculateFee` asks tonlib for a query and then for its fees. If tonlib cannot
encrypt the comment, it calls itself with a plain one, whether or not the comment
was plain before. What tonlib replies is a sequence; the calls end or they do not.

* `calculateFee_ends_iff`: the calls end after two queries that differ from each
  other exactly if the first reply is not that error, or if there is a comment and
  the second reply is not that error.
-/

namespace TonWallet.Send

open Encoding Storage

/-! ## The model -/

/-- The requests of `calculateFee`. -/
inductive FeeRequest where
  | CreateQuery (query : CreateQuery Empty)
  | QueryEstimateFees (id : Long) (ignoreChksig : Bool)
deriving DecidableEq

/-- `TonApi.Fees`. -/
structure Fees where
  inFwdFee : Long
  storageFee : Long
  gasFee : Long
  fwdFee : Long

/-- The replies of tonlib. -/
inductive FeeReply where
  | QueryInfo (id : Long)
  | QueryFees (sourceFees : Fees)
  | Error (message : Option Text)
  | other

/-- `TonWalletClient.FeeResponse`. -/
inductive FeeResponse where
  | Success (fee : Long)
  | NotEnoughFunds
  | Error
deriving DecidableEq

/-- What the calls have sent, and what the first one returns once they have ended. -/
structure FeeRun where
  requests : List FeeRequest
  response : Option FeeResponse := none

/-- The queries of a run. -/
def FeeRun.queries (r : FeeRun) : List (CreateQuery Empty) :=
  r.requests.filterMap fun
    | .CreateQuery query => some query
    | .QueryEstimateFees .. => none

/-- `calculateFee` after the two requests (`TonWalletClient.kt` lines 384–390). -/
def feeResponse : FeeReply → FeeResponse
  | .QueryFees f => .Success (f.fwdFee + f.gasFee + f.inFwdFee + f.storageFee)
  | _ => .Error

section
variable (s : ClientState) (address : Text) (amount : Long) (comment : Option Text)
  (replies : ℕ → FeeReply)

/-- `calculateFee` (`TonWalletClient.kt` lines 344–409) in at most `calls` calls, the first of which
gets reply `i`. -/
def calculateFee : (calls : ℕ) → (unencrypted : Bool) → (i : ℕ) → FeeRun
  | 0, _, _ => { requests := [] }
  | calls + 1, unencrypted, i =>
    let req : FeeRequest := .CreateQuery (calculateFeeQuery s address amount comment unencrypted)
    match replies i with
    | .QueryInfo id =>
      { requests := [req, .QueryEstimateFees id true]
        response := some (feeResponse (replies (i + 1))) }
    | .Error (some message) =>
      if (text "MESSAGE_ENCRYPTION").isPrefixOf message then
        let r := calculateFee calls true (i + 1)
        { r with requests := req :: r.requests }
      else if (text "NOT_ENOUGH_FUNDS").isPrefixOf message then
        { requests := [req], response := some .NotEnoughFunds }
      else { requests := [req], response := some .Error }
    | _ => { requests := [req], response := some .Error }

/-- The calls end, after at most two queries that differ from each other. -/
def Ends : Prop :=
  ∃ calls, (calculateFee s address amount comment replies calls false 0).response.isSome ∧
    (calculateFee s address amount comment replies calls false 0).queries.length ≤ 2 ∧
    (calculateFee s address amount comment replies calls false 0).queries.Nodup

end

/-- tonlib cannot encrypt the comment. -/
def FeeReply.isEncryptionError : FeeReply → Bool
  | .Error (some message) => (text "MESSAGE_ENCRYPTION").isPrefixOf message
  | _ => false

/-! ## Calls -/

section
variable {s : ClientState} {address : Text} {amount : Long} {comment : Option Text}
  {replies : ℕ → FeeReply} {calls i : ℕ} {unencrypted : Bool}

variable (s address amount comment calls unencrypted) in
/-- A call that does not call itself returns after one query. -/
theorem calculateFee_returns (h : (replies i).isEncryptionError = false) :
    (calculateFee s address amount comment replies (calls + 1) unencrypted i).response.isSome ∧
      (calculateFee s address amount comment replies (calls + 1) unencrypted i).queries
        = [calculateFeeQuery s address amount comment unencrypted] := by
  rw [calculateFee]
  cases hr : replies i with
  | QueryInfo id => exact ⟨rfl, rfl⟩
  | QueryFees f => exact ⟨rfl, rfl⟩
  | other => exact ⟨rfl, rfl⟩
  | Error message =>
    cases message with
    | none => exact ⟨rfl, rfl⟩
    | some message =>
      rw [hr, FeeReply.isEncryptionError] at h
      simp only [h, Bool.false_eq_true, if_false]
      split <;> exact ⟨rfl, rfl⟩

variable (s address amount comment calls unencrypted) in
/-- A call that calls itself returns what that call returns. -/
theorem calculateFee_again (h : (replies i).isEncryptionError = true) :
    (calculateFee s address amount comment replies (calls + 1) unencrypted i).response
        = (calculateFee s address amount comment replies calls true (i + 1)).response ∧
      (calculateFee s address amount comment replies (calls + 1) unencrypted i).queries
        = calculateFeeQuery s address amount comment unencrypted
          :: (calculateFee s address amount comment replies calls true (i + 1)).queries := by
  rw [calculateFee]
  cases hr : replies i with
  | QueryInfo id => simp [hr, FeeReply.isEncryptionError] at h
  | QueryFees f => simp [hr, FeeReply.isEncryptionError] at h
  | other => simp [hr, FeeReply.isEncryptionError] at h
  | Error message =>
    cases message with
    | none => simp [hr, FeeReply.isEncryptionError] at h
    | some message =>
      rw [hr, FeeReply.isEncryptionError] at h
      simp only [h, if_true, true_and]
      rfl

/-- Calls that return have sent a query, the first one first. -/
theorem head_queries
    (h : (calculateFee s address amount comment replies calls unencrypted i).response.isSome) :
    calculateFeeQuery s address amount comment unencrypted
      ∈ (calculateFee s address amount comment replies calls unencrypted i).queries := by
  cases calls with
  | zero => cases h
  | succ calls =>
    cases he : (replies i).isEncryptionError with
    | false =>
      rw [(calculateFee_returns s address amount comment calls unencrypted he).2]
      exact List.mem_singleton_self _
    | true =>
      rw [(calculateFee_again s address amount comment calls unencrypted he).2]
      exact List.mem_cons_self ..

/-- A comment is asked for encrypted first, and then plain. -/
theorem calculateFeeQuery_plain :
    calculateFeeQuery (κ := Empty) s address amount comment false
        = calculateFeeQuery s address amount comment true ↔ comment.getD [] = [] := by
  simp only [calculateFeeQuery, CreateQuery.mk.injEq, actionMsg_inj, true_and, and_true,
    Bool.false_eq_true, false_or, true_or, if_true]
  split
  · rename_i h
    exact iff_of_true rfl h
  · rename_i h
    exact iff_of_false (by simp) h

/-- A query that is asked for plain is not asked for again. -/
theorem not_nodup_of_errors
    (h : (calculateFee s address amount comment replies calls true i).response.isSome)
    (he : (replies i).isEncryptionError = true) :
    ¬ (calculateFee s address amount comment replies calls true i).queries.Nodup := by
  cases calls with
  | zero => cases h
  | succ calls =>
    obtain ⟨hresponse, hqueries⟩ := calculateFee_again s address amount comment calls true he
    rw [hresponse] at h
    rw [hqueries, List.nodup_cons]
    exact fun hn => hn.1 (head_queries h)

theorem ends_of_returned (h : (replies 0).isEncryptionError = false) :
    Ends s address amount comment replies := by
  obtain ⟨hresponse, hqueries⟩ := calculateFee_returns s address amount comment 0 false h
  refine ⟨1, hresponse, ?_⟩
  rw [hqueries]
  exact ⟨by simp, List.nodup_singleton _⟩

theorem ends_of_retried (h : (replies 0).isEncryptionError = true)
    (hcomment : comment.getD [] ≠ []) (h' : (replies 1).isEncryptionError = false) :
    Ends s address amount comment replies := by
  obtain ⟨hresponse', hqueries'⟩ := calculateFee_returns s address amount comment 0 true h'
  obtain ⟨hresponse, hqueries⟩ := calculateFee_again s address amount comment 1 false h
  refine ⟨2, by rw [hresponse]; exact hresponse', ?_⟩
  rw [hqueries, hqueries', List.nodup_cons, List.mem_singleton]
  exact ⟨Nat.le_refl 2, fun he => hcomment (calculateFeeQuery_plain.mp he),
    List.nodup_singleton _⟩

/-- The condition is needed: each call that returns has sent its own query. -/
theorem Ends.condition (h : Ends s address amount comment replies)
    (he : (replies 0).isEncryptionError = true) :
    comment.getD [] ≠ [] ∧ (replies 1).isEncryptionError = false := by
  obtain ⟨calls, hreturned, -, hnodup⟩ := h
  cases calls with
  | zero => cases hreturned
  | succ calls =>
    obtain ⟨hresponse, hqueries⟩ := calculateFee_again s address amount comment calls false he
    rw [hresponse] at hreturned
    rw [hqueries, List.nodup_cons] at hnodup
    constructor
    · intro hempty
      rw [calculateFeeQuery_plain.mpr hempty] at hnodup
      exact hnodup.1 (head_queries hreturned)
    · by_contra he'
      exact not_nodup_of_errors hreturned (by simpa using he') hnodup.2

end

/-- **The requests of the fee.** The calls end, after at most two queries that differ from each
other, exactly if tonlib can encrypt the comment, or there is one and tonlib takes it plain. -/
theorem calculateFee_ends_iff (s : ClientState) (address : Text) (amount : Long)
    (comment : Option Text) (replies : ℕ → FeeReply) :
    Ends s address amount comment replies ↔ (replies 0).isEncryptionError = false ∨
      comment.getD [] ≠ [] ∧ (replies 1).isEncryptionError = false := by
  constructor
  · intro h
    cases he : (replies 0).isEncryptionError with
    | false => exact .inl rfl
    | true => exact .inr (h.condition he)
  · rintro (h | ⟨hcomment, h⟩)
    · exact ends_of_returned h
    · cases he : (replies 0).isEncryptionError with
      | false => exact ends_of_returned he
      | true => exact ends_of_retried he hcomment h

/-- tonlib that never encrypts a comment is asked again and again. -/
theorem encryption_errors_not_ended :
    ¬ ∀ (s : ClientState) (address : Text) (amount : Long) (comment : Option Text)
      (replies : ℕ → FeeReply), Ends s address amount comment replies := by
  intro h
  have herror : (FeeReply.Error (some (text "MESSAGE_ENCRYPTION"))).isEncryptionError = true := by
    decide
  have hends := h ⟨none, none, none⟩ (text "EQ") 1 (some (text "hi"))
    fun _ => .Error (some (text "MESSAGE_ENCRYPTION"))
  have hlast := (hends.condition herror).2
  rw [herror] at hlast
  cases hlast

end TonWallet.Send
