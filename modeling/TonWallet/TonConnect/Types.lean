import TonWallet.Encoding.Bytes
import Mathlib.Data.Int.Notation

/-!
# The messages of TON Connect

The data classes of `ui/feature/tonConnect` that pass between the bridge, the
connections and the screens. `Json` stands for the decoders that
`kotlinx.serialization` derives from them.
-/

namespace TonWallet.TonConnect

open Encoding

/-- `TonConnectManifestModel`. -/
structure TonConnectManifestModel where
  url : Text
  name : Text
  iconUrl : Text
  termsOfUseUrl : Option Text := none
  privacyPolicyUrl : Option Text := none
deriving DecidableEq, Repr

/-- `TonConnectConnectionKeyData`, compared by content. -/
structure TonConnectConnectionKeyData where
  publicKey : Bytes
  privateKey : Bytes
deriving DecidableEq, Repr

/-- `TonConnectConnectionData`: `id` is the client id of the dApp, in hexadecimal. -/
structure TonConnectConnectionData where
  manifest : TonConnectManifestModel
  id : Text
  key : TonConnectConnectionKeyData
  walletAddress : Text
  lastEventId : ℤ := -1
  payload : Option Text := none
deriving DecidableEq, Repr

/-- `TonConnectResponse`: the envelope the bridge delivers. -/
structure TonConnectResponse where
  sender : Text
  message : Text
deriving DecidableEq, Repr

/-- `TonConnectMethodResponse`: the decrypted call of the dApp. -/
structure TonConnectMethodResponse where
  id : ℤ
  method : Text
  params : List Text
deriving DecidableEq, Repr

/-- `TonConnectMethodParamsMessageResponse`. -/
structure TonConnectMethodParamsMessageResponse where
  address : Text
  amount : Text
deriving DecidableEq, Repr

/-- `TonConnectMethodParamsResponse`: the parameter of `sendTransaction`. -/
structure TonConnectMethodParamsResponse where
  messages : List TonConnectMethodParamsMessageResponse
  validUntil : ℤ
deriving DecidableEq, Repr

/-- `TonConnectEvent.TonConnectTransactionRequest`. -/
structure TonConnectTransactionRequest where
  data : TonConnectConnectionData
  sender : Text
  recipient : Text
  amount : Text
deriving DecidableEq, Repr

/-- The decoders of `kotlinx.serialization`, `none` for a `SerializationException`. -/
structure Json where
  decodeResponse : Text → Option TonConnectResponse
  decodeMethod : Text → Option TonConnectMethodResponse
  decodeParams : Text → Option TonConnectMethodParamsResponse

end TonWallet.TonConnect
