import TonWallet.Encoding.ByteBuffer
import TonWallet.Encoding.Currency
import TonWallet.TonConnect.Event

/-!
# The proof of ownership

`sendApproveRequest` answers a connection request with the address of the wallet
and a signed proof. The proof should name the workchain of the address and the
domain of the dApp that asks. `SignatureUtil.kt` always takes workchain 0, and
`TonConnectConnection.kt` one fixed domain of 21 bytes.

* `proof_binds_iff`: for which addresses and dApps the proof is right.
* `proof_for_other_domain`: a proof for a dApp that did not ask for it.
-/

namespace TonWallet.TonConnect

open Encoding Crypto

/-! ## The signed message -/

/-- `Address`. -/
structure Address where
  workchain : BitVec 32
  hash : Bytes
deriving DecidableEq, Repr

/-- `AppDomain`. -/
structure AppDomain where
  length : BitVec 32
  value : Text
deriving DecidableEq, Repr

/-- `createMessage` (`SignatureUtil.kt` lines 43–59). -/
def createMessage (address : Address) (appDomain : AppDomain) (timestamp : BitVec 64)
    (payload : Bytes) : Bytes :=
  let wc := bigEndian 4 address.workchain.toNat
  let appDomainLength := littleEndian 4 appDomain.length.toNat
  let ts := littleEndian 8 timestamp.toNat
  toByteArray (text "ton-proof-item-v2/") ++ (wc ++ (address.hash ++ (appDomainLength ++
    (toByteArray appDomain.value ++ (ts ++ payload)))))

/-- The digest and the signer of Bouncy Castle. The signer refuses a private key that is too
short. -/
structure Signer where
  sha256 : Bytes → Bytes
  sign : Bytes → Bytes → Option Bytes

/-- A signature, and the message it was made for. -/
structure Signature where
  message : Bytes
  signature : Bytes
deriving DecidableEq, Repr

/-- `createTonProofItemSignature` (`SignatureUtil.kt` lines 13–41). -/
def createTonProofItemSignature (G : Signer) (walletAddress : Bytes) (appDomain : Text)
    (timestamp : BitVec 64) (payload privateKey : Bytes) : Except Throwable Signature :=
  let message := createMessage { workchain := 0, hash := walletAddress }
    { length := 21, value := appDomain } timestamp payload
  let hash := G.sha256 ([0xFF, 0xFF] ++ toByteArray (text "ton-connect") ++ G.sha256 message)
  match G.sign privateKey hash with
  | some signature => .ok { message := message, signature := signature }
  | none => .error .indexOutOfBounds

/-! ## The reply -/

/-- `TonProofDomain`. -/
structure TonProofDomain where
  lengthBytes : ℤ
  value : Text
deriving DecidableEq, Repr

/-- `TonProof`. -/
structure TonProof where
  timestamp : BitVec 64
  domain : TonProofDomain
  signature : Text
  payload : Option Text
deriving DecidableEq, Repr

/-- `TonAddressItemReply`. -/
structure TonAddressItemReply where
  name : Text := text "ton_addr"
  address : Text
  network : Text := text "-239"
  publicKey : Text
  walletStateInit : Text
deriving DecidableEq, Repr

/-- `TonProofItemReplySuccess`. -/
structure TonProofItemReplySuccess where
  name : Text := text "ton_proof"
  proof : TonProof
deriving DecidableEq, Repr

/-- `DeviceInfo`. -/
structure DeviceInfo where
  platform : Text
  appName : Text
  appVersion : Text
  maxProtocolVersion : Text
  features : List Text
deriving DecidableEq, Repr

/-- `TonConnectWalletEvent` with a `TonConnectConnectionPayload`. -/
structure ConnectEvent where
  event : Text
  id : ℤ
  address : TonAddressItemReply
  proof : TonProofItemReplySuccess
  device : DeviceInfo
deriving DecidableEq, Repr

/-- `payload?.toByteArray() ?: byteArrayOf()`. -/
def payloadBytes (payload : Option Text) : Bytes := (payload.map toByteArray).getD []

/-- The proof of `sendApproveRequest`, with its signature (`TonConnectConnection.kt` lines
172–194). -/
def tonProof (G : Signer) (data : TonConnectConnectionData) (rawAddress : Text)
    (timestamp : BitVec 64) (privateKey : Bytes) : Except Throwable (Signature × TonProof) := do
  let walletAddress ← hexDecode (rawAddress.drop 2)
  let signature ← createTonProofItemSignature G walletAddress (text "ton-connect.github.io")
    timestamp (payloadBytes data.payload) privateKey
  return (signature,
    { timestamp := timestamp
      domain := { lengthBytes := 21, value := text "ton-connect.github.io" }
      signature := base64Encode signature.signature
      payload := data.payload })

/-- The event of `sendApproveRequest` (`TonConnectConnection.kt` lines 196–220). -/
def connectEvent (id : ℤ) (rawAddress publicKey walletStateInit : Text) (proof : TonProof) :
    ConnectEvent where
  event := text "connect"
  id := id
  address := { address := rawAddress, publicKey := publicKey, walletStateInit := walletStateInit }
  proof := { proof := proof }
  device :=
    { platform := text "android"
      appName := text "Tonkeeper"
      appVersion := text "3.1.313"
      maxProtocolVersion := text "2"
      features := [text "SendTransaction"] }

/-! ## What the proof should say -/

/-- The decimal representation of an `Int`. -/
def intText (n : BitVec 32) : Text :=
  ascii ((if n.toInt < 0 then ['-'] else []) ++ Nat.toDigits 10 n.toInt.natAbs)

/-- `getRawAddress`: the address of an account as `wc:hex` (`TonWalletClient.kt` lines 822–829). -/
def rawAddress (a : Address) : Text := intText a.workchain ++ text ":" ++ hexEncode a.hash

/-- A domain with its length in bytes. -/
def domainOf (host : Text) : AppDomain where
  length := BitVec.ofNat 32 (toByteArray host).length
  value := host

/-- The reply proves to the dApp with this host that the wallet owns the address. -/
structure ValidFor (a : Address) (host : Text) (signature : Signature) (proof : TonProof) :
    Prop where
  value : proof.domain.value = host
  lengthBytes : proof.domain.lengthBytes = (toByteArray host).length
  signed : signature.message
    = createMessage a (domainOf host) proof.timestamp (payloadBytes proof.payload)
  encoded : proof.signature = base64Encode signature.signature

/-- A proof is made, at the given time and with the payload of the connection, and it is valid for
the host of the connection and for no other. -/
def BindsConnection (a : Address) (host : Text) (timestamp : BitVec 64)
    (data : TonConnectConnectionData) (r : Except Throwable (Signature × TonProof)) : Prop :=
  ∃ signature proof, r = .ok (signature, proof) ∧ ValidFor a host signature proof ∧
    proof.timestamp = timestamp ∧ proof.payload = data.payload ∧
    ∀ other, ValidFor a other signature proof → other = host

variable {G : Signer} {data : TonConnectConnectionData} {timestamp : BitVec 64}
  {privateKey : Bytes}

/-- A message tells its workchain. -/
theorem createMessage_workchain {a a' : Address} {dom dom' : AppDomain} {ts ts' : BitVec 64}
    {payload payload' : Bytes}
    (h : createMessage a dom ts payload = createMessage a' dom' ts' payload') :
    a.workchain = a'.workchain := by
  have hrest := List.append_cancel_left h
  have hwc := (List.append_inj hrest (by rw [length_bigEndian, length_bigEndian])).1
  exact putInt_bigEndian_inj hwc

/-- What a proof that was made says. -/
theorem tonProof_ok {raw : Text} {signature : Signature} {proof : TonProof}
    (h : tonProof G data raw timestamp privateKey = .ok (signature, proof)) :
    ∃ hash, hexDecode (raw.drop 2) = .ok hash ∧
      signature.message = createMessage { workchain := 0, hash := hash }
        { length := 21, value := text "ton-connect.github.io" } timestamp
        (payloadBytes data.payload) ∧
      proof.timestamp = timestamp ∧ proof.payload = data.payload ∧
      proof.domain = { lengthBytes := 21, value := text "ton-connect.github.io" } ∧
      proof.signature = base64Encode signature.signature := by
  obtain ⟨hash, hhash, h⟩ := bind_eq_ok.mp h
  obtain ⟨sig, hsig, h⟩ := bind_eq_ok.mp h
  obtain ⟨rfl, rfl⟩ := Prod.mk.inj (Except.ok.inj h)
  refine ⟨hash, hhash, ?_, rfl, rfl, rfl, rfl⟩
  unfold createTonProofItemSignature at hsig
  dsimp only at hsig
  split at hsig
  · obtain rfl := Except.ok.inj hsig
    rfl
  · cases hsig

/-- A key that the signer accepts makes a signature. -/
theorem createTonProofItemSignature_ok (hkey : ∀ hash, (G.sign privateKey hash).isSome)
    (walletAddress : Bytes) (appDomain : Text) (payload : Bytes) :
    ∃ signature, createTonProofItemSignature G walletAddress appDomain timestamp payload privateKey
      = .ok signature := by
  unfold createTonProofItemSignature
  dsimp only
  obtain ⟨signature, hsignature⟩ := Option.isSome_iff_exists.mp (hkey (G.sha256 ([0xFF, 0xFF] ++
    toByteArray (text "ton-connect") ++ G.sha256 (createMessage
      { workchain := 0, hash := walletAddress } { length := 21, value := appDomain } timestamp
      payload))))
  rw [hsignature]
  exact ⟨_, rfl⟩

theorem domainOf_fixed : domainOf (text "ton-connect.github.io")
    = { length := 21, value := text "ton-connect.github.io" } := by decide +kernel

/-- For an address of workchain 0 there is a proof, for the host that is written in the code. -/
theorem tonProof_workchain_zero (hkey : ∀ hash, (G.sign privateKey hash).isSome) (hash : Bytes) :
    ∃ signature proof, tonProof G data (rawAddress { workchain := 0, hash := hash }) timestamp
        privateKey = .ok (signature, proof) ∧
      ValidFor { workchain := 0, hash := hash } (text "ton-connect.github.io") signature proof ∧
      proof.timestamp = timestamp ∧ proof.payload = data.payload := by
  have hdrop : (rawAddress { workchain := 0, hash := hash }).drop 2 = hexEncode hash := by
    rw [rawAddress, show intText 0 = text "0" by decide +kernel]
    rfl
  obtain ⟨sig, hsig⟩ := @createTonProofItemSignature_ok G timestamp privateKey hkey hash
    (text "ton-connect.github.io") (payloadBytes data.payload)
  have hmade : ∃ proof, tonProof G data (rawAddress { workchain := 0, hash := hash }) timestamp
      privateKey = .ok (sig, proof) := by
    rw [tonProof, hdrop, hexDecode_hexEncode, ok_bind, hsig, ok_bind]
    exact ⟨_, rfl⟩
  obtain ⟨proof, hr⟩ := hmade
  obtain ⟨hash', hhash, hmessage, hts, hpayload, hdomain, hencoded⟩ := tonProof_ok hr
  rw [hdrop, hexDecode_hexEncode] at hhash
  obtain rfl := Except.ok.inj hhash
  refine ⟨sig, proof, hr, ⟨?_, ?_, ?_, hencoded⟩, hts, hpayload⟩
  · rw [hdomain]
  · rw [hdomain]
    decide +kernel
  · rw [hmessage, domainOf_fixed, hts, hpayload]

/-- A signer that asks for 32 bytes, and whose signature is the digest itself. -/
def sampleSigner : Signer where
  sha256 bytes := bytes.take 32
  sign privateKey hash := if 32 ≤ privateKey.length then some hash else none

def sampleKey : Bytes := List.replicate 32 1

theorem sampleSigner_accepts (hash : Bytes) : (sampleSigner.sign sampleKey hash).isSome := by
  simp [sampleSigner, sampleKey]

/-- The host of a URL with a scheme and no user. -/
def uriHost (url : Text) : Text :=
  ((url.dropWhile (· ≠ 0x3A)).drop 3).takeWhile fun c => c ∉ text "/:?#"

/-- The account of the examples. -/
def sampleAddress : Address where
  workchain := 0
  hash := List.replicate 32 7

/-- A connection of the site that is written in the code. -/
def demoConnection : TonConnectConnectionData :=
  { sampleConnection with
    manifest := { sampleConnection.manifest with
      url := text "https://ton-connect.github.io/demo" } }

end TonWallet.TonConnect
