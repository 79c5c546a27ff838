import TonWallet.Send.Pipeline

/-!
# The queries of the fee and of the transfer

`calculateFee` and `sendTon` build their `CreateQuery` each on its own. Two
screens call both: the confirmation, and the sheet of a transfer that TON Connect
asks for.

* `queries_agree_iff`: those of the confirmation never ask for the same; those of
  the sheet do exactly if the amount is from 0 to 10^18 nanograms and the wallet is
  the same.
-/

namespace TonWallet.Send

open Encoding Storage

/-! ## Queries -/

/-- `TonApi.MsgDataText` and `TonApi.MsgDataDecryptedText`; the text may be null. -/
inductive MsgData where
  | MsgDataText (text : Option Bytes)
  | MsgDataDecryptedText (text : Option Bytes)
deriving DecidableEq

/-- `TonApi.MsgMessage`. -/
structure MsgMessage where
  destination : Text
  publicKey : Option Text
  amount : Long
  data : MsgData
  sendMode : ℤ
deriving DecidableEq

/-- `TonApi.ActionMsg`. -/
structure ActionMsg where
  messages : List MsgMessage
  allowSendToUninited : Bool
deriving DecidableEq

/-- `TonApi.WalletV3InitialAccountState`. -/
structure WalletV3InitialAccountState where
  publicKey : Option Text
  walletId : Long
deriving DecidableEq

/-- `TonApi.InputKeyFake` and `TonApi.InputKeyRegular`. -/
inductive InputKey (κ : Type) where
  | InputKeyFake
  | InputKeyRegular (key : κ)
deriving DecidableEq

/-- `TonApi.CreateQuery`. -/
structure CreateQuery (κ : Type) where
  privateKey : InputKey κ
  address : Option Text
  timeout : ℤ
  action : ActionMsg
  initialAccountState : WalletV3InitialAccountState
deriving DecidableEq

/-- What the client reads: the current wallet, and the wallet id of the options, once they are
initialised. -/
structure ClientState where
  publicKey : Option Text
  address : Option Text
  defaultWalletId : Option Long

section
variable {κ : Type}

/-- A message to one destination. -/
def actionMsg (destination : Text) (amount : Long) (data : MsgData) : ActionMsg where
  messages := [{
    destination := destination, publicKey := none, amount := amount, data := data, sendMode := 0 }]
  allowSendToUninited := true

/-- The query of `calculateFee` (`TonWalletClient.kt` lines 344–381). The first attempt is not
`unencrypted`; a second one is made if tonlib cannot encrypt the comment. -/
def calculateFeeQuery (s : ClientState) (address : Text) (amount : Long)
    (comment : Option Text := none) (unencrypted : Bool := false) : CreateQuery κ where
  privateKey := .InputKeyFake
  address := s.address
  timeout := 0
  action := actionMsg address amount <|
    if unencrypted ∨ comment.getD [] = [] then .MsgDataText (comment.map toByteArray)
    else .MsgDataDecryptedText (comment.map toByteArray)
  initialAccountState := { publicKey := s.publicKey, walletId := s.defaultWalletId.getD 0 }

/-- The query of `sendTon` (`TonWalletClient.kt` lines 417–449), which throws unless the options
are initialised. -/
def sendTonQuery (s : ClientState) (keyRegular : κ) (message : Option Text)
    (destinationAddress : Text) (amount : Long) : Option (CreateQuery κ) :=
  s.defaultWalletId.map fun walletId => {
    privateKey := .InputKeyRegular keyRegular
    address := s.address
    timeout := 0
    action := actionMsg destinationAddress amount (.MsgDataText (message.map toByteArray))
    initialAccountState := { publicKey := s.publicKey, walletId := walletId } }

/-- The queries ask for the same, from the same initial account state. -/
def Agree (q q' : CreateQuery κ) : Prop :=
  q.action = q'.action ∧ q.initialAccountState = q'.initialAccountState

/-! ## The confirmation -/

/-- The address that `TonSendConfirmViewModel` loads the fee for (lines 40–57); tonlib converts raw
addresses. -/
def SendConfirmEntry.feeAddress (getAddressFromRaw : Text → Option Text) (e : SendConfirmEntry) :
    Option Text :=
  (TonSendRecipientModel.decodeFromString e.walletAddress).bind fun r =>
    if r.address = [] then none
    else if 0x3A ∈ r.address then getAddressFromRaw r.address
    else some r.address

/-- The first query of `loadFee` (lines 59–63). -/
def SendConfirmEntry.feeQuery (getAddressFromRaw : Text → Option Text) (s : ClientState)
    (e : SendConfirmEntry) : Option (CreateQuery κ) :=
  (e.feeAddress getAddressFromRaw).map fun address =>
    calculateFeeQuery s address e.amount e.comment

/-- The query of what is sent. -/
def SendConfirmEntry.sendQuery (s : ClientState) (key : κ) (e : SendConfirmEntry)
    (comment : Text) : Option (CreateQuery κ) :=
  (e.sent comment).bind fun p => sendTonQuery s key (some p.comment) p.destination p.amount

/-! ## The sheet of TON Connect -/

/-- What `TonConnectBottomSheetTransferViewModel` has been given. -/
structure TransferSheet where
  amount : Text
  recipientAddress : Text

/-- `amountToSend.toString().toTonLong()`. -/
def amountToSend (amount : Long) : Long :=
  BitVec.ofInt 64 (toTonLong (formatCurrency amount.toInt))

/-- The first query of `loadData` (lines 71–88): there is none for an invalid address. -/
def TransferSheet.feeQuery (getAddressFromRaw : Text → Option Text) (s : ClientState)
    (sheet : TransferSheet) : Option (CreateQuery κ) :=
  (stringToLong sheet.amount).bind fun amount =>
    ((getAddressFromRaw sheet.recipientAddress).filter (· ≠ [])).map fun address =>
      calculateFeeQuery s address (amountToSend amount)

/-- The query of `onConfirmClick` (lines 41–53). -/
def TransferSheet.sendQuery (getAddressFromRaw : Text → Option Text) (s : ClientState) (key : κ)
    (sheet : TransferSheet) : Option (CreateQuery κ) :=
  (stringToLong sheet.amount).bind fun amount =>
    sendTonQuery s key none ((getAddressFromRaw sheet.recipientAddress).getD []) amount

/-! ## Agreement -/

theorem actionMsg_inj {destination destination' : Text} {amount amount' : Long}
    {data data' : MsgData} :
    actionMsg destination amount data = actionMsg destination' amount' data' ↔
      destination = destination' ∧ amount = amount' ∧ data = data' := by
  simp [actionMsg]

theorem utf8_ne_nil (n : ℕ) : utf8 n ≠ [] := by
  rw [utf8]
  split
  · simp
  · split
    · simp
    · split <;> simp

theorem toByteArray_eq_nil {s : Text} (h : toByteArray s = []) : s = [] := by
  cases s with
  | nil => rfl
  | cons c s =>
    exfalso
    rw [toByteArray.eq_def] at h
    simp only at h
    split at h
    · split at h
      · split at h
        · exact utf8_ne_nil _ (List.append_eq_nil_iff.mp h).1
        · cases h
      · cases h
    · exact utf8_ne_nil _ (List.append_eq_nil_iff.mp h).1

/-- No empty comment is sent. -/
theorem sent_comment_ne_nil {e : SendConfirmEntry} {comment : Text} {p : Payment}
    (h : e.sent comment = some p) : p.comment ≠ [] := by
  obtain ⟨pending, hpending, hsend⟩ := Option.bind_eq_some_iff.mp h
  obtain ⟨l, -, hpending⟩ := Option.bind_eq_some_iff.mp hpending
  obtain ⟨d, a, c, -, -, hc, -, rfl⟩ := sendPendingEntry_spec hpending
  obtain ⟨n, -, rfl⟩ := Option.map_eq_some_iff.mp hsend
  exact fun h => hc.1 (percentDecode_eq_nil h)

/-- The fee is asked for no text or an encrypted one, but a plain text is sent. -/
theorem SendConfirmEntry.not_agree {getAddressFromRaw : Text → Option Text}
    {e : SendConfirmEntry} {s s' : ClientState} {key : κ} {comment : Text} {q q' : CreateQuery κ}
    (hq : e.feeQuery getAddressFromRaw s = some q) (hq' : e.sendQuery s' key comment = some q') :
    ¬ Agree q q' := by
  obtain ⟨address, -, rfl⟩ := Option.map_eq_some_iff.mp hq
  obtain ⟨p, hp, hq'⟩ := Option.bind_eq_some_iff.mp hq'
  obtain ⟨walletId, -, rfl⟩ := Option.map_eq_some_iff.mp hq'
  rintro ⟨haction, -⟩
  obtain ⟨-, -, hdata⟩ := actionMsg_inj.mp haction
  split at hdata
  · rename_i hempty
    rw [Option.map_some, MsgData.MsgDataText.injEq, Option.map_eq_some_iff] at hdata
    obtain ⟨c, hc, hbytes⟩ := hdata
    rw [hc] at hempty
    have hnil : c = [] := by simpa using hempty
    rw [hnil] at hbytes
    exact sent_comment_ne_nil hp (toByteArray_eq_nil hbytes.symm)
  · cases hdata

theorem amountToSend_eq_iff {amount : Long} :
    amountToSend amount = amount ↔ 0 ≤ amount.toInt ∧ amount.toInt < 10 ^ 18 := by
  obtain ⟨hlo, hhi⟩ := toTonLong_formatCurrency_range amount.toInt
  rw [← toTonLong_formatCurrency_iff, amountToSend]
  constructor
  · intro h
    have h' := congrArg BitVec.toInt h
    rwa [BitVec.toInt_ofInt_eq_self (by decide) (by omega) (by omega)] at h'
  · intro h
    rw [h, BitVec.ofInt_toInt]

theorem TransferSheet.agree_iff {getAddressFromRaw : Text → Option Text} {sheet : TransferSheet}
    {s s' : ClientState} {key : κ} {q q' : CreateQuery κ}
    (hq : sheet.feeQuery getAddressFromRaw s = some q)
    (hq' : sheet.sendQuery getAddressFromRaw s' key = some q') :
    Agree q q' ↔ ∃ amount, stringToLong sheet.amount = some amount ∧
      (0 ≤ amount.toInt ∧ amount.toInt < 10 ^ 18) ∧ s.publicKey = s'.publicKey ∧
      s'.defaultWalletId = some (s.defaultWalletId.getD 0) := by
  obtain ⟨amount, hamount, hq⟩ := Option.bind_eq_some_iff.mp hq
  obtain ⟨address, haddress, rfl⟩ := Option.map_eq_some_iff.mp hq
  obtain ⟨haddress, -⟩ := Option.filter_eq_some_iff.mp haddress
  obtain ⟨amount', hamount', hq'⟩ := Option.bind_eq_some_iff.mp hq'
  obtain ⟨walletId, hid, rfl⟩ := Option.map_eq_some_iff.mp hq'
  obtain rfl : amount = amount' := Option.some.inj (hamount.symm.trans hamount')
  have hdata : (if false = true ∨ (none : Option Text).getD [] = [] then
      MsgData.MsgDataText ((none : Option Text).map toByteArray)
      else .MsgDataDecryptedText ((none : Option Text).map toByteArray)) = .MsgDataText none :=
    if_pos (.inr rfl)
  rw [Agree, calculateFeeQuery, hdata, haddress, hid, Option.getD_some, Option.map_none,
    actionMsg_inj, amountToSend_eq_iff, WalletV3InitialAccountState.mk.injEq, Option.some.injEq]
  constructor
  · rintro ⟨⟨-, hrange, -⟩, hkey, hwallet⟩
    exact ⟨amount, hamount, hrange, hkey, hwallet.symm⟩
  · rintro ⟨amount', hamount', hrange, hkey, hwallet⟩
    obtain rfl : amount = amount' := Option.some.inj (hamount.symm.trans hamount')
    exact ⟨⟨rfl, hrange, rfl⟩, hkey, hwallet.symm⟩

/-- On the confirmation the queries never agree; on the sheet they do exactly if the amount is one
that is read back and the wallet has not changed. -/
theorem queries_agree_iff (getAddressFromRaw : Text → Option Text) (s s' : ClientState) (key : κ)
    (q q' : CreateQuery κ) :
    (∀ (e : SendConfirmEntry) (comment : Text), e.feeQuery getAddressFromRaw s = some q →
        e.sendQuery s' key comment = some q' → ¬ Agree q q') ∧
      ∀ sheet : TransferSheet, sheet.feeQuery getAddressFromRaw s = some q →
        sheet.sendQuery getAddressFromRaw s' key = some q' →
          (Agree q q' ↔ ∃ amount, stringToLong sheet.amount = some amount ∧
            (0 ≤ amount.toInt ∧ amount.toInt < 10 ^ 18) ∧ s.publicKey = s'.publicKey ∧
            s'.defaultWalletId = some (s.defaultWalletId.getD 0)) :=
  ⟨fun _ _ hq hq' => SendConfirmEntry.not_agree hq hq',
    fun _ hq hq' => TransferSheet.agree_iff hq hq'⟩

/-- A wallet, with the options initialised. -/
def exampleState : ClientState where
  publicKey := some (text "PuZq")
  address := some (text "EQBB")
  defaultWalletId := some 698983191

/-- The query of a transfer with a comment from the confirmation, and that of one of 7 nanograms
from the sheet. -/
def exampleSend (message : Option Text) : CreateQuery Unit where
  privateKey := .InputKeyRegular ()
  address := some (text "EQBB")
  timeout := 0
  action := actionMsg (text "EQAA") 7 (.MsgDataText (message.map toByteArray))
  initialAccountState := { publicKey := some (text "PuZq"), walletId := 698983191 }

/-- The confirmation of a transfer with a comment, and the sheet of a transfer of 7 nanograms. -/
theorem queries_agree_seven :
    ¬ Agree (calculateFeeQuery exampleState (text "EQAA") 7) (exampleSend (some (text "hi"))) ∧
      (Agree (calculateFeeQuery exampleState (text "EQAA") 7) (exampleSend none) ↔
        ∃ amount, stringToLong (text "7") = some amount ∧
          (0 ≤ amount.toInt ∧ amount.toInt < 10 ^ 18) ∧
          exampleState.publicKey = exampleState.publicKey ∧
          exampleState.defaultWalletId = some (exampleState.defaultWalletId.getD 0)) :=
  ⟨(queries_agree_iff some exampleState exampleState () _ _).1 exampleEntry (text "hi")
      (by decide +kernel) (by decide +kernel),
    (queries_agree_iff some exampleState exampleState () _ _).2 ⟨text "7", text "EQAA"⟩
      (by decide +kernel) (by decide +kernel)⟩

/-- The fee of a comment is asked for an encrypted one. -/
theorem comment_not_agree :
    ¬ ∀ (e : SendConfirmEntry) (s : ClientState) (comment : Text) (q q' : CreateQuery Unit),
      e.feeQuery some s = some q → e.sendQuery s () comment = some q' → Agree q q' := by
  intro h
  have hagree := h { exampleEntry with comment := some (text "hi") } exampleState (text "hi")
    (calculateFeeQuery exampleState (text "EQAA") 7 (some (text "hi")))
    (exampleSend (some (text "hi"))) (by decide +kernel) (by decide +kernel)
  have hdata : (calculateFeeQuery (κ := Unit) exampleState (text "EQAA") 7
      (some (text "hi"))).action ≠ (exampleSend (some (text "hi"))).action := by
    decide +kernel
  exact hdata hagree.1

end

end TonWallet.Send
