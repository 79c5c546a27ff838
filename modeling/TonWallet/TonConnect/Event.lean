import TonWallet.Crypto.NaCl
import TonWallet.Encoding.Base64
import TonWallet.Encoding.Hex
import TonWallet.TonConnect.Types

/-!
# Bridge events

`TonConnectConnection.onEvent` opens the box of every event with the key that
the event itself names in its field `from`, whereas the replies of the same
connection are sealed for `data.id`. So an event proves that its sender owns
some key pair, not that the sender is the connected dApp.

* `emitted_eq_ok`: the stages of `onEvent`, and the request they lead to.
* `requests_authentic_iff`: an event is authentic, whoever made which boxes,
  exactly if its box opens with the key of the dApp, or leads nowhere.
* `forged_request`: a request of somebody else, shown as the dApp's.
-/

namespace TonWallet.TonConnect

open Encoding Crypto

variable (S : Sodium) (J : Json)

/-! ## The listener -/

/-- `Json.decodeFromString` with a decoder that may refuse. -/
def decodeFromString {α : Type} (decode : Text → Option α) (s : Text) : Except Throwable α :=
  match decode s with
  | some a => .ok a
  | none => .error .serialization

/-- `clientKeyPair.privateKey` of a connection (`TonConnectConnection.kt` line 62). -/
def clientKey (d : TonConnectConnectionData) : Bytes := S.keyPair d.key.privateKey

/-- The `when` over the method (`TonConnectConnection.kt` lines 125–141): the event to
emit, if any. Only the first message is looked at, and `valid_until` is not. -/
def processMethod (d : TonConnectConnectionData) (model : TonConnectMethodResponse) :
    Except Throwable (Option TonConnectTransactionRequest) :=
  if model.method = text "sendTransaction" then
    match model.params with
    | [] => .error .noSuchElement
    | params :: _ => do
      let response ← decodeFromString J.decodeParams params
      return response.messages.head?.map fun transactionRequest =>
        { data := d, sender := d.walletAddress, recipient := transactionRequest.address,
          amount := transactionRequest.amount }
  else .error (.unsupportedOperation (text "Can't process method with name " ++ model.method))

/-- The method message of an event, decrypted (`TonConnectConnection.kt` lines 117–124). -/
def decryptEvent (d : TonConnectConnectionData) (data : Text) :
    Except Throwable TonConnectMethodResponse := do
  let serializedResponse ← decodeFromString J.decodeResponse data
  let message ← base64Decode serializedResponse.message
  let sender ← hexDecode serializedResponse.sender
  let decryptedMessage ← decryptMessage S message sender (clientKey S d)
  decodeFromString J.decodeMethod (decodeToString decryptedMessage)

/-- `replay` and `extraBufferCapacity` of the flows (`TonConnectManager.kt` line 29,
`TonConnectConnection.kt` line 69). -/
def flowCapacity : ℕ := 1 + 1

/-- What a call of `onEvent` does. -/
structure OnEvent where
  /-- The launched write of the last event id; it fails when the id is no number. -/
  saved : Option (Text × Option ℤ)
  /-- The request passed to `_events.tryEmit`. -/
  emitted : Except Throwable (Option TonConnectTransactionRequest)

/-- `eventSourceListener.onEvent` (`TonConnectConnection.kt` lines 105–142). -/
def onEvent (d : TonConnectConnectionData) (id : Option Text) (data : Text) : OnEvent where
  saved := id.map fun id => (d.id, toLong id)
  emitted := do
    let model ← decryptEvent S J d data
    processMethod J d model

/-! ## Authenticity -/

/-- Who produced which box for the private key `recipient`: the owner of the
public key made the ciphertext with the nonce. Opening a box proves it. -/
structure Provenance (recipient : Bytes) where
  made : Bytes → Bytes → Bytes → Prop
  authentic : ∀ pk nonce ciphertext m,
    S.boxOpenEasy ciphertext nonce pk recipient = some m → made pk nonce ciphertext

/-- If the event leads to a request, its box was made by the owner of the key
`hex(data.id)`. -/
def AuthenticRequest (d : TonConnectConnectionData) (P : Provenance S (clientKey S d))
    (data : Text) : Prop :=
  ∀ id r, (onEvent S J d id data).emitted = .ok (some r) →
    ∃ response message key, J.decodeResponse data = some response ∧
      base64Decode response.message = .ok message ∧ hexDecode d.id = .ok key ∧
      P.made key (message.take nonceBytes) (message.drop nonceBytes)

/-- The event is a box for the connection that opens with the key it names, with a call of
`sendTransaction` that has this parameter. -/
def Carries (d : TonConnectConnectionData) (data : Text)
    (params : TonConnectMethodParamsResponse) : Prop :=
  ∃ response message sender m model first others,
    J.decodeResponse data = some response ∧ base64Decode response.message = .ok message ∧
    hexDecode response.sender = .ok sender ∧ nonceBytes + macBytes ≤ message.length ∧
    S.boxOpenEasy (message.drop nonceBytes) (message.take nonceBytes) sender (clientKey S d)
      = some m ∧
    J.decodeMethod (decodeToString m) = some model ∧ model.method = text "sendTransaction" ∧
    model.params = first :: others ∧ J.decodeParams first = some params

/-- The box of the event opens with the key of the dApp, `hex(data.id)`. -/
def OpensWithId (d : TonConnectConnectionData) (data : Text) : Prop :=
  ∃ response message key, J.decodeResponse data = some response ∧
    base64Decode response.message = .ok message ∧ hexDecode d.id = .ok key ∧
    (S.boxOpenEasy (message.drop nonceBytes) (message.take nonceBytes) key
      (clientKey S d)).isSome = true

variable {S J} {d : TonConnectConnectionData}

theorem decodeFromString_eq_ok {α : Type} {decode : Text → Option α} {s : Text} {a : α} :
    decodeFromString decode s = .ok a ↔ decode s = some a := by
  unfold decodeFromString
  cases decode s with
  | none => simp
  | some b => simp

/-- The request for a message. -/
def requestFor (d : TonConnectConnectionData) (message : TonConnectMethodParamsMessageResponse) :
    TonConnectTransactionRequest where
  data := d
  sender := d.walletAddress
  recipient := message.address
  amount := message.amount

theorem processMethod_eq_ok {model : TonConnectMethodResponse}
    {o : Option TonConnectTransactionRequest} :
    processMethod J d model = .ok o ↔ ∃ first others params, model.method = text "sendTransaction" ∧
      model.params = first :: others ∧ J.decodeParams first = some params ∧
      params.messages.head?.map (requestFor d) = o := by
  unfold processMethod
  by_cases hm : model.method = text "sendTransaction"
  · rw [if_pos hm]
    cases hp : model.params with
    | nil => simp
    | cons first others =>
      constructor
      · intro h
        obtain ⟨params, hparams, h⟩ := bind_eq_ok.mp h
        exact ⟨first, others, params, hm, rfl, decodeFromString_eq_ok.mp hparams, Except.ok.inj h⟩
      · rintro ⟨_, _, params, -, ⟨⟩, hparams, rfl⟩
        exact bind_eq_ok.mpr ⟨params, decodeFromString_eq_ok.mpr hparams, rfl⟩
  · rw [if_neg hm]
    constructor
    · intro h
      cases h
    · rintro ⟨_, _, _, hm', -⟩
      exact absurd hm' hm

theorem decryptEvent_eq_ok {data : Text} {model : TonConnectMethodResponse} :
    decryptEvent S J d data = .ok model ↔ ∃ response message sender m,
      J.decodeResponse data = some response ∧ base64Decode response.message = .ok message ∧
      hexDecode response.sender = .ok sender ∧
      decryptMessage S message sender (clientKey S d) = .ok m ∧
      J.decodeMethod (decodeToString m) = some model := by
  constructor
  · intro h
    obtain ⟨response, hr, h⟩ := bind_eq_ok.mp h
    obtain ⟨message, hb, h⟩ := bind_eq_ok.mp h
    obtain ⟨sender, hs, h⟩ := bind_eq_ok.mp h
    obtain ⟨m, hx, hd⟩ := bind_eq_ok.mp h
    exact ⟨response, message, sender, m, decodeFromString_eq_ok.mp hr, hb, hs, hx,
      decodeFromString_eq_ok.mp hd⟩
  · rintro ⟨response, message, sender, m, hr, hb, hs, hx, hd⟩
    simp only [decryptEvent, decodeFromString_eq_ok.mpr hr, hb, hs, hx,
      decodeFromString_eq_ok.mpr hd, ok_bind]

/-- `onEvent` returns exactly if the event passes all stages, and emits the request for the first
message of the call. -/
theorem emitted_eq_ok {id : Option Text} {data : Text} {o : Option TonConnectTransactionRequest} :
    (onEvent S J d id data).emitted = .ok o ↔
      ∃ params, Carries S J d data params ∧ params.messages.head?.map (requestFor d) = o := by
  constructor
  · intro h
    obtain ⟨model, hd, hm⟩ := bind_eq_ok.mp h
    obtain ⟨response, message, sender, m, hr, hb, hs, hx, hd⟩ := decryptEvent_eq_ok.mp hd
    obtain ⟨hlen, hopen⟩ := decryptMessage_ok_iff.mp hx
    obtain ⟨first, others, params, hmethod, hfirst, hparams, ho⟩ := processMethod_eq_ok.mp hm
    exact ⟨params, ⟨response, message, sender, m, model, first, others, hr, hb, hs, hlen, hopen, hd,
      hmethod, hfirst, hparams⟩, ho⟩
  · rintro ⟨params, ⟨response, message, sender, m, model, first, others, hr, hb, hs, hlen, hopen,
      hd, hmethod, hfirst, hparams⟩, ho⟩
    have hx : decryptMessage S message sender (clientKey S d) = .ok m :=
      decryptMessage_ok_iff.mpr ⟨hlen, hopen⟩
    exact bind_eq_ok.mpr ⟨model,
      decryptEvent_eq_ok.mpr ⟨response, message, sender, m, hr, hb, hs, hx, hd⟩,
      processMethod_eq_ok.mpr ⟨first, others, params, hmethod, hfirst, hparams, ho⟩⟩

/-- An envelope that is opened with the key it names leads to a request. -/
theorem onEvent_of_opened {id : Option Text} {data : Text} {response : TonConnectResponse}
    {message sender m : Bytes} {model : TonConnectMethodResponse}
    {r : TonConnectTransactionRequest} (hr : J.decodeResponse data = some response)
    (hb : base64Decode response.message = .ok message)
    (hs : hexDecode response.sender = .ok sender)
    (hx : decryptMessage S message sender (clientKey S d) = .ok m)
    (hd : J.decodeMethod (decodeToString m) = some model)
    (hm : processMethod J d model = .ok (some r)) :
    (onEvent S J d id data).emitted = .ok (some r) :=
  bind_eq_ok.mpr
    ⟨model, decryptEvent_eq_ok.mpr ⟨response, message, sender, m, hr, hb, hs, hx, hd⟩, hm⟩

/-! ## Main theorem -/

/-- A call with a message leads to a request. -/
theorem exists_emitted {data : Text} {params : TonConnectMethodParamsResponse}
    (hc : Carries S J d data params) (hm : params.messages ≠ []) (id : Option Text) :
    ∃ r, (onEvent S J d id data).emitted = .ok (some r) := by
  obtain ⟨message, rest, hmessages⟩ := List.exists_cons_of_ne_nil hm
  refine ⟨requestFor d message, emitted_eq_ok.mpr ⟨params, hc, ?_⟩⟩
  rw [hmessages]
  rfl

/-- A box that opens with the key of the dApp was made by the dApp. -/
theorem authentic_of_opensWithId {data : Text} (h : OpensWithId S J d data)
    (P : Provenance S (clientKey S d)) : AuthenticRequest S J d P data := by
  intro id r hemit
  obtain ⟨response, message, key, hr, hb, hid, hopen⟩ := h
  obtain ⟨m, hopen⟩ := Option.isSome_iff_exists.mp hopen
  exact ⟨response, message, key, hr, hb, hid, P.authentic _ _ _ _ hopen⟩

/-- **Sender authentication.** An event is authentic, whoever made which boxes, if and only if
its box does not open with the key that the event names, or opens to no call of
`sendTransaction` with a message, or opens with the key of the connected dApp. -/
theorem requests_authentic_iff (S : Sodium) (J : Json) (d : TonConnectConnectionData)
    (data : Text) :
    (∀ P : Provenance S (clientKey S d), AuthenticRequest S J d P data) ↔
      ∀ params, Carries S J d data params → params.messages ≠ [] → OpensWithId S J d data := by
  constructor
  · intro h params hc hm
    obtain ⟨r, hemit⟩ := exists_emitted hc hm none
    -- Nobody made more boxes than can be opened.
    let P : Provenance S (clientKey S d) :=
      { made := fun pk n c => ∃ m, S.boxOpenEasy c n pk (clientKey S d) = some m
        authentic := fun pk n c m hm => ⟨m, hm⟩ }
    obtain ⟨response, message, key, hr, hb, hid, m, hopen⟩ := h P none r hemit
    exact ⟨response, message, key, hr, hb, hid, by rw [hopen]; rfl⟩
  · intro h P id r hemit
    obtain ⟨params, hc, hhead⟩ := emitted_eq_ok.mp hemit
    have hm : params.messages ≠ [] := by
      intro hnil
      rw [hnil] at hhead
      cases hhead
    exact authentic_of_opensWithId (h params hc hm) P id r hemit

/-! ## An attacker

A small bridge to run the listener on: JSON texts in which every character of a
string is escaped, and boxes that carry the key of their sender in place of a tag. -/

/-- A JSON string whose characters are all written `\uXXXX`. -/
def escape (s : Text) : Text :=
  s.flatMap fun c =>
    text "\\u" ++ hexEncode [BitVec.ofNat 8 (c.toNat / 256), BitVec.ofNat 8 c.toNat]

/-- The escaped characters at the beginning of a text, and the text after them. -/
def unescape : Text → Text × Text
  | b :: u :: w :: x :: y :: z :: s =>
    match hexDecode [w, x, y, z] with
    | .ok [high, low] =>
      if [b, u] = text "\\u" then
        (BitVec.ofNat 16 (high.toNat * 256 + low.toNat) :: (unescape s).1, (unescape s).2)
      else ([], b :: u :: w :: x :: y :: z :: s)
    | _ => ([], b :: u :: w :: x :: y :: z :: s)
  | s => ([], s)

/-- The text after `p`, if it begins with `p`. -/
def afterPrefix (p s : Text) : Option Text := if p <+: s then some (s.drop p.length) else none

/-- An envelope, as a dApp writes it. -/
def envelope (sender message : Text) : Text :=
  text "\x7b\"from\":\"" ++ (escape sender ++ (text "\",\"message\":\""
    ++ (escape message ++ text "\"\x7d")))

/-- The reader of such envelopes. -/
def readEnvelope (s : Text) : Option TonConnectResponse := do
  let s ← afterPrefix (text "\x7b\"from\":\"") s
  let (sender, s) := unescape s
  let s ← afterPrefix (text "\",\"message\":\"") s
  let (message, s) := unescape s
  if s = text "\"\x7d" then some { sender := sender, message := message } else none

/-- The parameter of a call of `sendTransaction`. -/
def sampleParams : Text :=
  text "\x7b\"messages\":[\x7b\"address\":\"0:ab\",\"amount\":\"1000\"\x7d],\"valid_until\":9\x7d"

/-- A call of `sendTransaction` with that parameter. -/
def sampleCall : Text :=
  text "\x7b\"id\":7,\"method\":\"sendTransaction\",\"params\":[\"\x7b\\\"messages\\\":[\x7b"
    ++ text "\\\"address\\\":\\\"0:ab\\\",\\\"amount\\\":\\\"1000\\\"\x7d],\\\"valid_until\\\":9"
    ++ text "\x7d\"]\x7d"

/-- A decoder of the texts above. -/
def sampleJson : Json where
  decodeResponse := readEnvelope
  decodeMethod s := if s = sampleCall then
    some { id := 7, method := text "sendTransaction", params := [sampleParams] } else none
  decodeParams s := if s = sampleParams then
    some { messages := [{ address := text "0:ab", amount := text "1000" }], validUntil := 9 }
    else none

/-- Boxes that name their sender: key pairs are told apart by their first byte. -/
def sampleSodium : Sodium where
  boxEasy m _ _ sk := List.replicate macBytes (sk.headD 0) ++ m
  boxOpenEasy c _ pk _ :=
    if c.take macBytes = List.replicate macBytes (pk.headD 0) ∧ pk = List.replicate 32 (pk.headD 0)
    then some (c.drop macBytes) else none
  publicKey sk := List.replicate 32 (sk.headD 0)
  keyPair seed := seed

theorem unescape_escape (s rest : Text) :
    unescape (escape s ++ 0x22 :: rest) = (s, 0x22 :: rest) := by
  induction s with
  | nil =>
    match rest with
    | [] | [_] | [_, _] | [_, _, _] | [_, _, _, _] => rfl
    | u :: w :: x :: y :: z :: s =>
      show unescape (0x22 :: u :: w :: x :: y :: z :: s) = _
      rw [unescape]
      split
      · rw [if_neg (by simp [text, codeUnits])]
      · rfl
  | cons c s ih =>
    have hdec := hexDecode_hexEncode [BitVec.ofNat 8 (c.toNat / 256), BitVec.ofNat 8 c.toNat]
    have hc : BitVec.ofNat 16 ((BitVec.ofNat 8 (c.toNat / 256)).toNat * 256
        + (BitVec.ofNat 8 c.toNat).toNat) = c := by
      have := c.isLt
      apply BitVec.eq_of_toNat_eq
      simp only [BitVec.toNat_ofNat]
      omega
    show unescape (0x5C :: 0x75 :: hexDigits.getD _ 0 :: hexDigits.getD _ 0 :: hexDigits.getD _ 0
      :: hexDigits.getD _ 0 :: (escape s ++ 0x22 :: rest)) = _
    rw [unescape, show hexDecode [_, _, _, _] = _ from hdec]
    simp only [if_pos (show [0x5C, 0x75] = text "\\u" from by decide), hc, ih]

theorem afterPrefix_append (p s : Text) : afterPrefix p (p ++ s) = some s := by
  rw [afterPrefix, if_pos (List.prefix_append p s), List.drop_left]

theorem readEnvelope_envelope (sender message : Text) :
    readEnvelope (envelope sender message) = some { sender := sender, message := message } := by
  have hmid : ∀ s, text "\",\"message\":\"" ++ s = 0x22 :: (text ",\"message\":\"" ++ s) :=
    fun _ => rfl
  have hend : text "\"\x7d" = 0x22 :: text "\x7d" := rfl
  rw [readEnvelope, envelope, afterPrefix_append]
  simp only [Option.bind_eq_bind, Option.bind_some]
  rw [hmid, unescape_escape, ← hmid, afterPrefix_append, hend]
  simp only [Option.bind_some, unescape_escape, if_true]

theorem sampleCall_ascii : ∀ c ∈ sampleCall, c.toNat < 0x80 := by
  have h : sampleCall.all (fun c => c.toNat.blt 0x80) = true := by decide +kernel
  intro c hc
  exact Nat.blt_eq.mp (List.all_eq_true.mp h c hc)

theorem sampleJson_decodeMethod : sampleJson.decodeMethod (decodeToString (toByteArray sampleCall))
    = some { id := 7, method := text "sendTransaction", params := [sampleParams] } := by
  rw [decodeToString_toByteArray sampleCall_ascii]
  simp [sampleJson]

theorem sampleSodium_open {c n pk sk m : Bytes} (h : sampleSodium.boxOpenEasy c n pk sk = some m) :
    c.take macBytes = List.replicate macBytes (pk.headD 0) ∧
      pk = List.replicate 32 (pk.headD 0) := by
  unfold sampleSodium at h
  dsimp only at h
  split_ifs at h with hc
  exact hc

theorem sampleSodium_lawful : sampleSodium.Lawful where
  length_easy m n pk sk := by simp [sampleSodium, Nat.add_comm]
  open_easy m n sender recipient := by
    have hlen : (List.replicate macBytes (sender.headD 0)).length = macBytes :=
      List.length_replicate
    simp only [sampleSodium, List.take_left' hlen, List.drop_left' hlen]
    exact if_pos ⟨rfl, rfl⟩

/-- A connection of the dApp whose private key begins with 1. -/
def sampleConnection : TonConnectConnectionData where
  manifest := { url := text "https://dapp", name := text "dApp", iconUrl := text "icon" }
  id := hexEncode (sampleSodium.publicKey [1])
  key := { publicKey := sampleSodium.publicKey [3], privateKey := [3] }
  walletAddress := text "EQ"

/-- The event with the call above, from the owner of the private key `sk`. -/
def sealedBy (sk : Bytes) : Text :=
  envelope (hexEncode (sampleSodium.publicKey sk)) (base64Encode
    (encryptMessage sampleSodium (List.replicate nonceBytes 0) (toByteArray sampleCall)
      (sampleSodium.publicKey (clientKey sampleSodium sampleConnection)) sk))

/-- It is shown as a request of the dApp, whoever that is. -/
theorem sealedBy_emitted (sk : Bytes) (id : Option Text) :
    (onEvent sampleSodium sampleJson sampleConnection id (sealedBy sk)).emitted
      = .ok (some { data := sampleConnection, sender := text "EQ", recipient := text "0:ab",
                    amount := text "1000" }) := by
  refine onEvent_of_opened (readEnvelope_envelope _ _) (base64Decode_base64Encode _)
    (hexDecode_hexEncode _)
    (decryptMessage_encryptMessage sampleSodium_lawful List.length_replicate)
    sampleJson_decodeMethod ?_
  simp [processMethod, decodeFromString, sampleJson, sampleConnection]

/-- The box of an attacker with the private key 2, who knows the wallet's public key. -/
def forgedBox : Bytes :=
  encryptMessage sampleSodium (List.replicate nonceBytes 0) (toByteArray sampleCall)
    (sampleSodium.publicKey (clientKey sampleSodium sampleConnection)) [2]

/-- Its event, which names the attacker's own key. -/
def forgedEvent : Text :=
  envelope (hexEncode (sampleSodium.publicKey [2])) (base64Encode forgedBox)

/-- The boxes somebody made, when nobody made more than can be opened. -/
def openable : Provenance sampleSodium (clientKey sampleSodium sampleConnection) where
  made pk nonce ciphertext := ∃ m, sampleSodium.boxOpenEasy ciphertext nonce pk
    (clientKey sampleSodium sampleConnection) = some m
  authentic _ _ _ m h := ⟨m, h⟩

/-- The attacker's event is shown as a request of the dApp, which did not make its box. -/
theorem forged_request :
    (onEvent sampleSodium sampleJson sampleConnection none forgedEvent).emitted
        = .ok (some { data := sampleConnection, sender := text "EQ", recipient := text "0:ab",
                      amount := text "1000" }) ∧
      ¬ AuthenticRequest sampleSodium sampleJson sampleConnection openable forgedEvent := by
  have hdata : sampleJson.decodeResponse forgedEvent = some
      { sender := hexEncode (sampleSodium.publicKey [2]), message := base64Encode forgedBox } :=
    readEnvelope_envelope _ _
  have hbox := base64Decode_base64Encode forgedBox
  refine ⟨sealedBy_emitted [2] none, fun h => ?_⟩
  obtain ⟨response, message, key, hdata', hbox', hkey, m, hopen⟩ :=
    h none _ (sealedBy_emitted [2] none)
  obtain rfl : _ = response := Option.some.inj (hdata.symm.trans hdata')
  obtain rfl : _ = message := Except.ok.inj (hbox.symm.trans hbox')
  obtain rfl : _ = key := Except.ok.inj ((hexDecode_hexEncode _).symm.trans hkey)
  have htag : (forgedBox.drop nonceBytes).take macBytes = List.replicate macBytes 2 := by
    rw [forgedBox, encryptMessage, List.drop_left' List.length_replicate]
    exact List.take_left' List.length_replicate
  have hhead := (sampleSodium_open hopen).1
  rw [htag] at hhead
  exact absurd hhead (by decide)

end TonWallet.TonConnect
