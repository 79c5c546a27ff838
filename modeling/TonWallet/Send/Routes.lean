import TonWallet.Encoding.Uri
import TonWallet.Storage.Serial

/-!
# The send screens

The screens pass the recipient, the amount and the comment on in the routes they
navigate to, as they are. The recipient goes as JSON to the screens of the amount
and of the confirmation; what has been confirmed goes to the lock screen and,
once it is unlocked, to the pending screen, which sends.

* `TonSendRecipientModel.decodeFromString_encodeToString`: the JSON of a
  recipient is decoded to it.
-/

namespace TonWallet.Send

open Encoding Storage

/-! ## The recipient -/

/-- `TonSendRecipientModel`. -/
structure TonSendRecipientModel where
  address : Text
  tonDnsAddress : Option Text := none
deriving DecidableEq, Repr

namespace TonSendRecipientModel

/-- The members of the record; a name that is null, its default, is left out. -/
def fields (r : TonSendRecipientModel) : List (Text × Option Json.Value) :=
  [(text "address", some (.string r.address)),
    (text "tonDnsAddress", r.tonDnsAddress.map .string)]

/-- The names that the serializer knows. -/
def names : List Text := [text "address", text "tonDnsAddress"]

/-- The generated serializer. -/
def toJson (r : TonSendRecipientModel) : Json.Value := .object (Json.present r.fields)

/-- The generated deserializer. -/
def ofJson (v : Json.Value) : Option TonSendRecipientModel := do
  let members ← objectOfJson names v
  return {
    address := ← requiredField stringOfJson (text "address") members
    tonDnsAddress := ← nullableField stringOfJson (text "tonDnsAddress") members }

/-- `Json.encodeToString`. -/
def encodeToString (r : TonSendRecipientModel) : Text := Json.print r.toJson

/-- `Json.decodeFromString`. -/
def decodeFromString (s : Text) : Option TonSendRecipientModel := (Json.parse s).bind ofJson

/-- The JSON of a recipient is decoded to it. -/
theorem decodeFromString_encodeToString (r : TonSendRecipientModel) :
    decodeFromString r.encodeToString = some r := by
  have hnames : r.fields.map (·.1) = names := rfl
  have hn : (r.fields.map (·.1)).Nodup := hnames ▸ (by decide)
  have haddress : stringOfJson (.string r.address) = some r.address := rfl
  have hname : ∀ s ∈ r.tonDnsAddress,
      Json.Value.string s ≠ .null ∧ stringOfJson (.string s) = some s :=
    fun s _ => ⟨Json.Value.noConfusion, rfl⟩
  rw [decodeFromString, encodeToString, Json.parse_print, Option.bind_some, toJson, ofJson,
    objectOfJson_present hnames]
  simp only [Option.bind_eq_bind, Option.bind_some, Option.pure_def,
    requiredField_present (text "address") hn (by simp [fields]) haddress,
    nullableField_present (text "tonDnsAddress") hn (by simp [fields]) hname]

end TonSendRecipientModel

/-! ## Destinations -/

/-- The destinations of `SendWalletNavigation.kt`, and the lock screen. -/
def sendAmountDestination : Text := text "send_amount"
def sendConfirmDestination : Text := text "send_confirm"
def lockDestination : Text := text "lock"
def sendPendingDestination : Text := text "send_pending"

/-- `"$s"`, for a nullable `s`. -/
def template (s : Option Text) : Text := s.getD (text "null")

/-- The argument of the amount screen (`SendWalletNavigation.kt` lines 93–98). -/
def sendAmountEntry (r : Text) : Option Text :=
  if pathOf r = sendAmountDestination then queryParameter (text "wallet_address") r else none

/-- The arguments of the confirmation. -/
structure SendConfirmEntry where
  walletAddress : Text
  amount : Long
  comment : Option Text
deriving DecidableEq

/-- The destination of the confirmation (`SendWalletNavigation.kt` lines 113–123). A `LongType`
argument also takes hexadecimal numbers behind `0x` and a suffix `L`; no route of the app has
these, and a link that has them opens nothing here. -/
def sendConfirmEntry (r : Text) : Option SendConfirmEntry :=
  if pathOf r = sendConfirmDestination then do
    let walletAddress ← queryParameter (text "wallet_address") r
    let amount ← (queryParameter (text "amount") r).bind stringToLong
    return { walletAddress, amount, comment := queryParameter (text "comment") r }
  else none

/-- The arguments of the lock screen of the sheet. -/
structure LockEntry where
  destination : Text
  amount : Text
  comment : Option Text
deriving DecidableEq

/-- The destination of the lock screen (`TonWalletMainScreen.kt` lines 160–173): the types of the
arguments are not set, so that they are strings. -/
def lockEntry (r : Text) : Option LockEntry :=
  if pathOf r = lockDestination then do
    let destination ← queryParameter (text "destination") r
    let amount ← queryParameter (text "amount") r
    return { destination, amount, comment := queryParameter (text "comment") r }
  else none

/-- The arguments of the pending screen. -/
structure SendPendingEntry where
  destination : Text
  amount : Text
  comment : Option Text
deriving DecidableEq

/-- What the path of the pending screen begins with. -/
def sendPendingPath : Text := sendPendingDestination ++ text "&destination="

/-- The literals between its placeholders. -/
def sendPendingLiterals : List Text := [text "&amount=", text "&comment="]

/-- The destination of the pending screen (`SendWalletNavigation.kt` lines 139–152): the arguments
are placeholders of the path. -/
def sendPendingEntry (r : Text) : Option SendPendingEntry :=
  match matchPath sendPendingPath sendPendingLiterals (pathOf r) with
  | some [destination, amount, comment] =>
    some {
      destination := percentDecode destination
      amount := percentDecode amount
      comment := some (percentDecode comment) }
  | _ => none

/-! ## From the recipient to the confirmation -/

/-- The route to the amount screen (`SendWalletNavigation.kt` line 62). -/
def sendAmountRoute (walletAddress : Text) : Text :=
  route sendAmountDestination [(text "wallet_address", walletAddress)]

/-- The route to the confirmation, from the amount screen (`SendWalletNavigation.kt` line 107). -/
def sendConfirmRoute (walletAddress : Text) (amount : Long) : Text :=
  route sendConfirmDestination
    [(text "wallet_address", walletAddress), (text "amount", longToString amount)]

/-- The confirmation that opens for a recipient and an amount. -/
def openConfirm (r : TonSendRecipientModel) (amount : Long) : Option SendConfirmEntry :=
  (sendAmountEntry (sendAmountRoute r.encodeToString)).bind fun walletAddress =>
    sendConfirmEntry (sendConfirmRoute walletAddress amount)

/-- `DeeplinkModel`. -/
structure DeeplinkModel where
  walletAddress : Text
  amount : Option Text := none
  message : Option Text := none

/-- The route to the confirmation of a link (`TonWalletMainScreen.kt` lines 90–95). -/
def DeeplinkModel.sendConfirmRoute (d : DeeplinkModel) : Text :=
  route sendConfirmDestination
    [(text "wallet_address", TonSendRecipientModel.encodeToString { address := d.walletAddress }),
      (text "amount", template d.amount), (text "comment", template d.message)]

/-- The confirmation that opens for a link. -/
def DeeplinkModel.openConfirm (d : DeeplinkModel) : Option SendConfirmEntry :=
  sendConfirmEntry d.sendConfirmRoute

/-! ## From the confirmation to the wallet -/

/-- A destination, an amount and a comment: what the confirmation shows, and what `sendTon` is
called with. -/
structure Payment where
  destination : Text
  amount : Long
  comment : Text
deriving DecidableEq

/-- `COMMENT_CHARACTERS_SIZE`. -/
def commentCharactersSize : ℕ := 50

namespace SendConfirmEntry

/-- What the screen shows with a comment in its field; it throws if the recipient is none
(`TonSendConfirmScreen.kt` lines 130–134). -/
def shown (e : SendConfirmEntry) (comment : Text) : Option Payment :=
  (TonSendRecipientModel.decodeFromString e.walletAddress).map fun r =>
    { destination := r.address, amount := e.amount, comment := comment }

/-- `comment` as it is when the screen opens. -/
def initialComment (e : SendConfirmEntry) : Text := e.comment.getD []

/-- `onConfirmClick` (`SendWalletNavigation.kt` lines 131–134). -/
def onConfirmClick (e : SendConfirmEntry) (message : Text) : Option Text :=
  (TonSendRecipientModel.decodeFromString e.walletAddress).map fun r =>
    route lockDestination
      [(text "destination", r.address), (text "amount", longToString e.amount),
        (text "comment", message)]

/-- The button, which a comment that is too long disables (`TonSendConfirmScreen.kt`
lines 138–148). -/
def click (e : SendConfirmEntry) (comment : Text) : Option Text :=
  if commentCharactersSize < comment.length then none
  else e.onConfirmClick (if comment = [] then text " " else comment)

end SendConfirmEntry

/-- The route of the lock screen when it is unlocked (`TonWalletMainScreen.kt` lines 178–186). -/
def LockEntry.onSuccess (e : LockEntry) : Text :=
  sendPendingDestination ++ text "&destination=" ++ e.destination ++ text "&amount=" ++ e.amount
    ++ text "&comment=" ++ template e.comment

/-- `TonSendPendingViewModel.sendTon`: what it calls `sendTon` of the client with. -/
def SendPendingEntry.sendTon (e : SendPendingEntry) : Option Payment :=
  (stringToLong e.amount).map fun amount =>
    { destination := e.destination, amount := amount, comment := e.comment.getD [] }

/-- What is sent when the button is clicked with a comment in the field. -/
def SendConfirmEntry.sent (e : SendConfirmEntry) (comment : Text) : Option Payment :=
  (((e.click comment).bind lockEntry).bind fun l => sendPendingEntry l.onSuccess).bind
    SendPendingEntry.sendTon

example :
    ((openConfirm { address := text "EQ" } 5).bind fun e => e.sent (text "50% off")) = some
      { destination := text "EQ", amount := 5, comment := text "50\uFFFD off" } := by
  decide +kernel

end TonWallet.Send
