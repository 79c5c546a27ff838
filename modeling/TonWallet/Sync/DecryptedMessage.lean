import TonWallet.Storage.Conversion
import TonWallet.Storage.Keys
import TonWallet.Sync.DisplayedHistory
import Mathlib.Data.List.InsertIdx

/-!
# Decrypted messages

`setDecryptedMessageToTransaction` replaces the message of a transaction in a copy
of the stored list, and drops the copy. In the copy it replaces the first outgoing
message, where the reader shows the last one; for a transaction that is not stored
the index is -1, and taking that element throws.

* `resultItem_getMessage_iff`: which transactions would show their text.
* `updatesMessage_iff`: exactly those that show it already are as they should be.
-/

namespace TonWallet.Storage.Transaction

open Encoding

/-- `TransactionMessageState`. -/
inductive TransactionMessageState where
  | Empty
  | Decrypting
  | Success (message : Text)
deriving DecidableEq, Repr

/-- The state of a message with this text. -/
def textState (bytes : Bytes) : TransactionMessageState :=
  let textFromBytes := decodeToString bytes
  if textFromBytes ≠ [] then .Success textFromBytes else .Empty

namespace RawTransaction

variable (t : RawTransaction)

/-- `isIncome` (`RawTransaction.kt` lines 79–81). -/
def isIncome : Bool := 0 < t.getAmount.toInt

/-- `getMsg` (lines 41–48). -/
def getMsg : Option MsgData :=
  if t.isIncome then t.inMsg.map RawMessage.msgData else t.outMsgs.getLast?.map RawMessage.msgData

/-- `getMessage` (lines 50–77). -/
def getMessage : TransactionMessageState :=
  match t.getMsg with
  | some (.MsgDataRaw _ _) => .Empty
  | some (.MsgDataText text) => textState text
  | some (.MsgDataDecryptedText text) => textState text
  | some (.MsgDataEncryptedText _) => .Decrypting
  | none => .Empty

end RawTransaction

end TonWallet.Storage.Transaction

namespace TonWallet.Sync.DecryptedMessage

open Encoding Storage Storage.Transaction

/-! ## The list -/

/-- `getCurrentTransactions` (`Storage.kt` lines 202–212). -/
def getCurrentTransactions (J : StorageJson) (p : DataStore) :
    Except ReadError (List Transaction.RawTransaction) := do
  let walletVersion ← getCurrentWalletVersion J p
  return (← getRecord decodeFromString p walletVersion.transactionsKey).getD []

/-- The index of the first transaction with the id of `transaction`. -/
def index (transactions : List Transaction.RawTransaction)
    (transaction : Transaction.RawTransaction) : Option ℕ :=
  transactions.findIdx? fun it => it.transactionId = transaction.transactionId

/-- `indexOfFirst`. -/
def indexOfFirst (transactions : List Transaction.RawTransaction)
    (transaction : Transaction.RawTransaction) : ℤ :=
  match index transactions transaction with
  | some i => i
  | none => -1

/-- `removeAt`: the element and the others. -/
def removeAt {α : Type} (l : List α) (index : ℤ) : Except Throwable (α × List α) :=
  if index < 0 then .error .indexOutOfBounds
  else
    match l[index.toNat]? with
    | some a => .ok (a, l.eraseIdx index.toNat)
    | none => .error .indexOutOfBounds

/-- The transaction with the text in place of its message (lines 236–249). -/
def resultItem (transaction item : Transaction.RawTransaction) (bytes : Bytes) :
    Transaction.RawTransaction :=
  if transaction.isIncome then
    { item with
      inMsg := item.inMsg.map fun m => { m with msgData := .MsgDataDecryptedText bytes } }
  else
    { item with
      outMsgs :=
        match item.outMsgs with
        | msgItem :: rest => { msgItem with msgData := .MsgDataDecryptedText bytes } :: rest
        | [] => [] }

/-- The copy of the list (lines 233–250). -/
def editedTransactions (transactions : List Transaction.RawTransaction)
    (transaction : Transaction.RawTransaction) (bytes : Bytes) :
    Except Throwable (List Transaction.RawTransaction) := do
  let itemIndex := indexOfFirst transactions transaction
  let (item, rest) ← removeAt transactions itemIndex
  return rest.insertIdx itemIndex.toNat (resultItem transaction item bytes)

/-- The exception of a reader. -/
def thrown : ReadError → Throwable
  | .classCast => .classCast
  | .serialization => .serialization

/-- `setDecryptedMessageToTransaction` (`Storage.kt` lines 229–251): the preferences afterwards.
They are read only. -/
def setDecryptedMessageToTransaction (J : StorageJson) (p : DataStore)
    (transaction : Transaction.RawTransaction) (bytes : Bytes) : Except Throwable DataStore := do
  let transactions ← (getCurrentTransactions J p).mapError thrown
  let _ ← editedTransactions transactions transaction bytes
  return p

/-! ## The edit -/

variable {J : StorageJson} {p : DataStore} {l : List Transaction.RawTransaction}
  {t item : Transaction.RawTransaction} {bytes : Bytes} {i : ℕ}

theorem index_lt (h : index l t = some i) : i < l.length :=
  (List.findIdx?_eq_some_iff_getElem.mp h).1

/-- A transaction that is there is replaced in the copy, and nothing else. -/
theorem editedTransactions_eq (h : index l t = some i) (hi : l[i]? = some item) :
    editedTransactions l t bytes = .ok (l.set i (resultItem t item bytes)) := by
  have hindex : indexOfFirst l t = i := by rw [indexOfFirst, h]
  have hset := List.insertIdx_eraseIdx_self (index_lt h).ne (resultItem t item bytes)
  rw [editedTransactions, hindex, removeAt, if_neg (by omega), Int.toNat_natCast, hi]
  exact congrArg Except.ok hset

/-- For a transaction that is not there nothing can be taken out. -/
theorem editedTransactions_absent (h : index l t = none) :
    editedTransactions l t bytes = .error .indexOutOfBounds := by
  have hindex : indexOfFirst l t = -1 := by rw [indexOfFirst, h]
  rw [editedTransactions, hindex]
  rfl

/-- The amount does not depend on the texts. -/
theorem isIncome_resultItem : (resultItem t item bytes).isIncome = item.isIncome := by
  have hamount : (resultItem t item bytes).getAmount = item.getAmount := by
    unfold resultItem Transaction.RawTransaction.getAmount
    split
    · simp only [Option.map_map]
      rfl
    · cases item.outMsgs <;> rfl
  rw [Transaction.RawTransaction.isIncome, hamount, Transaction.RawTransaction.isIncome]

/-- The message that is shown is the replaced one if the transaction is incoming and has a message,
or outgoing with a single one. -/
theorem getMsg_resultItem (h : t.isIncome = item.isIncome) :
    (resultItem t item bytes).getMsg =
      if (if item.isIncome then item.inMsg.isSome else item.outMsgs.length = 1)
      then some (.MsgDataDecryptedText bytes) else item.getMsg := by
  have hincome := @isIncome_resultItem t item bytes
  rw [Transaction.RawTransaction.getMsg, hincome, Transaction.RawTransaction.getMsg, resultItem, h]
  cases item.isIncome with
  | true => cases item.inMsg <;> rfl
  | false => rcases item.outMsgs with _ | ⟨m, _ | ⟨m', rest⟩⟩ <;> simp

/-- A transaction that reads a replaced message, or the one of another. -/
theorem getMessage_iff {u v : Transaction.RawTransaction} {c : Prop} [Decidable c]
    (h : u.getMsg = if c then some (.MsgDataDecryptedText bytes) else v.getMsg) :
    u.getMessage = textState bytes ↔ c ∨ v.getMessage = textState bytes := by
  rw [Transaction.RawTransaction.getMessage, h]
  by_cases hc : c
  · rw [if_pos hc]
    exact iff_of_true rfl (.inl hc)
  · rw [if_neg hc, or_iff_right hc, Transaction.RawTransaction.getMessage]

/-- In the copy, an incoming transaction shows the text if it has a message, and an outgoing one if
it has a single message. Any other one shows what it did before. -/
theorem resultItem_getMessage_iff (h : t.isIncome = item.isIncome) :
    (resultItem t item bytes).getMessage = textState bytes ↔
      (if item.isIncome then item.inMsg.isSome else item.outMsgs.length = 1) ∨
        item.getMessage = textState bytes :=
  getMessage_iff (getMsg_resultItem h)

/-! ## The store -/

/-- The call returns, the list is as long as before, and its other transactions are the same; the
one with the id of `t` shows the text. -/
def Replaced (J : StorageJson) (p : DataStore) (l : List Transaction.RawTransaction)
    (t : Transaction.RawTransaction) (bytes : Bytes) (i : ℕ) : Prop :=
  ∃ q l', setDecryptedMessageToTransaction J p t bytes = .ok q ∧
    getCurrentTransactions J q = .ok l' ∧ l'.length = l.length ∧
    (∀ j ≠ i, l'[j]? = l[j]?) ∧ ∃ u ∈ l'[i]?, u.getMessage = textState bytes

/-- A transaction that is stored shows the text afterwards; for one that is not, nothing happens. -/
def UpdatesMessage (J : StorageJson) (p : DataStore) (l : List Transaction.RawTransaction)
    (t : Transaction.RawTransaction) (bytes : Bytes) : Prop :=
  match index l t with
  | some i => Replaced J p l t bytes i
  | none => setDecryptedMessageToTransaction J p t bytes = .ok p

theorem getCurrentTransactions_stored {version : WalletVersion} {value : Text}
    (hversion : getCurrentWalletVersion J p = .ok version)
    (hstored : p version.transactionsKey = some (.string value))
    (hdecode : decodeFromString value = some l) : getCurrentTransactions J p = .ok l := by
  have hread : getRecord decodeFromString p version.transactionsKey = .ok (some l) := by
    rw [getRecord, get_some hstored]
    show (decodeJson decodeFromString value >>= fun a => .ok (some a)) = _
    rw [decodeJson, hdecode]
    rfl
  rw [getCurrentTransactions, hversion]
  show (getRecord decodeFromString p version.transactionsKey >>= fun a => .ok (a.getD [])) = _
  rw [hread]
  rfl

/-- The preferences are what they were, if the call returns. -/
theorem setDecryptedMessage_some (hl : getCurrentTransactions J p = .ok l)
    (h : index l t = some i) :
    setDecryptedMessageToTransaction J p t bytes = .ok p := by
  rw [setDecryptedMessageToTransaction, hl]
  show (editedTransactions l t bytes >>= fun _ => .ok p) = _
  rw [editedTransactions_eq h (List.getElem?_eq_getElem (index_lt h)), ok_bind]

/-- For a transaction that is not stored the call throws. -/
theorem setDecryptedMessage_none (hl : getCurrentTransactions J p = .ok l) (h : index l t = none) :
    setDecryptedMessageToTransaction J p t bytes = .error .indexOutOfBounds := by
  rw [setDecryptedMessageToTransaction, hl]
  show (editedTransactions l t bytes >>= fun _ => .ok p) = _
  rw [editedTransactions_absent h, error_bind]

/-- **Decrypted messages.** The call does what it should exactly if the transaction is stored and
shows the text already. -/
theorem updatesMessage_iff (hl : getCurrentTransactions J p = .ok l) :
    UpdatesMessage J p l t bytes ↔
      ∃ i item, index l t = some i ∧ l[i]? = some item ∧ item.getMessage = textState bytes := by
  rw [UpdatesMessage]
  cases h : index l t with
  | none =>
    have hthrows := @setDecryptedMessage_none J p l t bytes hl h
    refine iff_of_false (fun hok => ?_) ?_
    · rw [hthrows] at hok
      cases hok
    · rintro ⟨i, item, hi, -⟩
      cases hi
  | some i =>
    have hreturns := @setDecryptedMessage_some J p l t bytes i hl h
    constructor
    · rintro ⟨q, l', hq, hl', -, -, u, hu, hmessage⟩
      obtain rfl := Except.ok.inj (hreturns.symm.trans hq)
      obtain rfl := Except.ok.inj (hl.symm.trans hl')
      exact ⟨i, u, rfl, hu, hmessage⟩
    · rintro ⟨j, item, hj, hitem, hmessage⟩
      obtain rfl := Option.some.inj hj
      exact ⟨p, l, hreturns, hl, rfl, fun _ _ => rfl, item, hitem, hmessage⟩

/-! ## An encrypted message -/

/-- A payment with an encrypted message. -/
def encryptedPayment : Transaction.RawTransaction where
  address := ⟨text "EQ"⟩
  utime := 1
  data := []
  transactionId := ⟨5, some [1]⟩
  fee := 2
  storageFee := 2
  otherFee := 0
  inMsg := some {
    source := ⟨text "EQ1"⟩
    destination := ⟨text "EQ"⟩
    value := 10
    fwdFee := 0
    ihrFee := 0
    createdLt := 4
    bodyHash := none
    msgData := .MsgDataEncryptedText (some [7]) }

/-- A storage with this payment alone. -/
def storedPayment : DataStore := fun name =>
  if name = WalletVersion.V3R2.transactionsKey then
    some (.string (encodeToString [encryptedPayment]))
  else none

theorem storedPayment_transactions :
    getCurrentTransactions sampleStorageJson storedPayment = .ok [encryptedPayment] := by
  have hversion : getCurrentWalletVersion sampleStorageJson storedPayment = .ok .V3R2 := by
    have hnone : storedPayment currentWalletVersionKey = none := if_neg (by decide +kernel)
    rw [getCurrentWalletVersion, getRecord, get_none hnone]
    rfl
  have hstored : storedPayment WalletVersion.V3R2.transactionsKey
      = some (.string (encodeToString [encryptedPayment])) := if_pos rfl
  exact getCurrentTransactions_stored hversion hstored (decode_encode _)

theorem updatesMessage_payment :
    UpdatesMessage sampleStorageJson storedPayment [encryptedPayment] encryptedPayment [0x68] ↔
      ∃ i item, index [encryptedPayment] encryptedPayment = some i ∧
        [encryptedPayment][i]? = some item ∧ item.getMessage = textState [0x68] :=
  updatesMessage_iff storedPayment_transactions

/-- The payment is still shown as encrypted, and for one that is not stored the call throws. -/
theorem message_not_updated :
    setDecryptedMessageToTransaction sampleStorageJson storedPayment
        { encryptedPayment with transactionId := ⟨6, some [2]⟩ } [0x68]
      = .error .indexOutOfBounds ∧
    ¬ ∀ J p l t bytes, getCurrentTransactions J p = .ok l → UpdatesMessage J p l t bytes := by
  refine ⟨setDecryptedMessage_none storedPayment_transactions (by decide +kernel), fun h => ?_⟩
  have hindex : index [encryptedPayment] encryptedPayment = some 0 := by decide +kernel
  have hupdates := h _ _ _ encryptedPayment [0x68] storedPayment_transactions
  rw [UpdatesMessage, hindex] at hupdates
  obtain ⟨q, l', hq, hl', -, -, u, hu, hmessage⟩ := hupdates
  obtain rfl := Except.ok.inj
    ((setDecryptedMessage_some storedPayment_transactions hindex).symm.trans hq)
  obtain rfl := Except.ok.inj (storedPayment_transactions.symm.trans hl')
  rw [List.getElem?_cons_zero, Option.mem_some] at hu
  rw [← hu] at hmessage
  revert hmessage
  decide +kernel

end TonWallet.Sync.DecryptedMessage
