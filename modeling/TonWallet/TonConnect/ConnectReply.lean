import TonWallet.Storage.Records
import TonWallet.TonConnect.FailedApproval

/-!
# The address of a connect reply

The comment of `TonAddressItemReply` says how its fields are written: the public
key in hexadecimal, the StateInit cell in Base64. `approveConnectionRequest`
takes the key from the storage, where tonlib's form of it is, and writes the
data of the account in hexadecimal.

* `convertPublicKey_serialized`: the key in the form it should have.
* `approval_never_documented`: no reply has either field as it should be.
-/

namespace TonWallet.TonConnect

open Encoding Storage

/-! ## Serialized keys -/

/-- An Ed25519 key that tonlib has serialized: a tag, the key, and a checksum. -/
structure TonlibKey where
  key : Bytes
  crc : Bytes
  length_key : key.length = 32
  length_crc : crc.length = 2

def TonlibKey.serialized (k : TonlibKey) : Text :=
  base64UrlEncode ([0x3E, 0xE6] ++ (k.key ++ k.crc))

/-- `convertPublicKey` (`WalletV4.kt` lines 20–31). -/
def convertPublicKey (publicKeyBase64 : Text) : Except Throwable Text := do
  let publicKeyBytes ← base64UrlDecode publicKeyBase64
  if publicKeyBytes.length ≠ 36 then .error .illegalArgument
  else if publicKeyBytes.take 2 ≠ [0x3E, 0xE6] then .error .illegalArgument
  else return hexEncode (← sliceArray publicKeyBytes 2 34)

theorem convertPublicKey_serialized (k : TonlibKey) :
    convertPublicKey k.serialized = .ok (hexEncode k.key) := by
  have hkey := k.length_key
  have hcrc := k.length_crc
  have hlen : ([0x3E, 0xE6] ++ (k.key ++ k.crc)).length = 36 := by simp [hkey, hcrc]
  have hslice : sliceArray ([0x3E, 0xE6] ++ (k.key ++ k.crc)) 2 34 = .ok k.key := by
    rw [sliceArray_ok (by omega) (by omega)]
    exact congrArg Except.ok (List.take_left' hkey)
  rw [convertPublicKey, TonlibKey.serialized, base64UrlDecode_base64UrlEncode, ok_bind,
    if_neg (not_not.mpr hlen), if_neg (by simp), hslice]
  rfl

/-! ## The reply -/

/-- The magic numbers of a serialized bag of cells (`boc.h` line 177). -/
def bocMagics : List Bytes :=
  [[0x68, 0xFF, 0x65, 0xF3], [0xAC, 0xC3, 0xA7, 0x28], [0xB5, 0xEE, 0x9C, 0x72]]

/-- A serialized cell. -/
structure Boc where
  bytes : Bytes
  magic : ∃ m ∈ bocMagics, m <+: bytes

/-- `TonApi.RawFullAccountState`: the data of an account that is not deployed is empty. -/
structure RawFullAccountState where
  code : Bytes
  data : Bytes

/-- What an approval reads: the current wallet with its key, the replies of tonlib for an address,
the private key of the last unlock, and the clock. -/
structure ApprovalSource where
  wallet : WalletData
  key : TonlibKey
  publicKey : wallet.publicKey = some key.serialized
  unpackAccountAddress : Text → Option Address
  rawGetAccountState : Text → Option RawFullAccountState
  privateKeyTempData : Option Bytes
  timestamp : BitVec 64

namespace ApprovalSource

variable (w : ApprovalSource)

/-- `getCurrentRawAddress` (`TonWalletClient.kt` lines 818–829). -/
def getCurrentRawAddress : Option Text :=
  (w.unpackAccountAddress w.wallet.address).map rawAddress

/-- `getCurrentWalletStateInit` (`TonWalletClient.kt` lines 845–856). -/
def getCurrentWalletStateInit : Option Text :=
  (w.rawGetAccountState w.wallet.address).map fun result => hexEncode result.data

/-- The arguments of `approveTonConnectionRequest` (`TonConnectViewModel.kt` lines 60–71). -/
def approval : Option Approval := do
  let rawAddress ← w.getCurrentRawAddress
  let publicKey ← w.wallet.publicKey
  let walletStateInit ← w.getCurrentWalletStateInit
  let privateKey ← w.privateKeyTempData
  return ⟨rawAddress, publicKey, walletStateInit, privateKey, w.timestamp⟩

end ApprovalSource

/-- The address item of the message of an approval, if it gets so far that there is one. -/
def approvalReply (P : Primitives) (data : TonConnectConnectionData) (w : ApprovalSource) :
    Option TonAddressItemReply :=
  w.approval.bind fun a =>
    match P.seedError data.key.privateKey,
      tonProof P.signer data a.rawAddress a.timestamp a.privateKey with
    | none, .ok (_, proof) =>
      some (connectEvent 1 a.rawAddress a.publicKey a.walletStateInit proof).address
    | _, _ => none

/-- The fields of a reply, as its comment has them (`TonAddressItemReply.kt` lines 3–9). -/
structure Documented (key : TonlibKey) (stateInit : Boc) (reply : TonAddressItemReply) : Prop where
  publicKey : convertPublicKey key.serialized = .ok reply.publicKey
  walletStateInit : reply.walletStateInit = base64Encode stateInit.bytes

/-! ## The texts of the fields -/

/-- A serialized key is shorter than the hexadecimal form of the key. -/
theorem serialized_ne_hexEncode (k : TonlibKey) : k.serialized ≠ hexEncode k.key := by
  intro h
  have hlen := congrArg List.length h
  rw [TonlibKey.serialized, base64UrlEncode, List.length_map, length_base64Encode,
    length_hexEncode] at hlen
  simp [k.length_key, k.length_crc] at hlen

/-- A cell in Base64 has a symbol that is no hexadecimal digit, whatever its magic number is. -/
theorem exists_symbol_not_hex (stateInit : Boc) :
    ∃ c ∈ base64Encode stateInit.bytes, c ∉ hexDigits := by
  obtain ⟨m, hm, rest, hrest⟩ := stateInit.magic
  rw [← hrest]
  simp only [bocMagics, List.mem_cons, List.not_mem_nil, or_false] at hm
  obtain rfl | rfl | rfl := hm
  · refine ⟨base64Symbol 15, ?_, by decide⟩
    exact List.mem_cons_of_mem _ (List.mem_cons_self ..)
  · exact ⟨base64Symbol 43, List.mem_cons_self .., by decide⟩
  · exact ⟨base64Symbol 45, List.mem_cons_self .., by decide⟩

/-- No bytes in hexadecimal are a cell in Base64. -/
theorem hexEncode_ne_base64Encode (data : Bytes) (stateInit : Boc) :
    hexEncode data ≠ base64Encode stateInit.bytes := by
  intro h
  obtain ⟨c, hc, hnot⟩ := exists_symbol_not_hex stateInit
  rw [← h] at hc
  exact hnot (mem_hexEncode hc)

variable {P : Primitives} {data : TonConnectConnectionData} {w : ApprovalSource}

/-- A reply has the stored key, and the data of the account in hexadecimal. -/
theorem approvalReply_fields {reply : TonAddressItemReply}
    (h : approvalReply P data w = some reply) :
    reply.publicKey = w.key.serialized ∧ ∃ bytes, reply.walletStateInit = hexEncode bytes := by
  obtain ⟨a, ha, hreply⟩ := Option.bind_eq_some_iff.mp h
  have hfields : reply.publicKey = a.publicKey ∧ reply.walletStateInit = a.walletStateInit := by
    split at hreply
    · cases hreply
      exact ⟨rfl, rfl⟩
    · cases hreply
  obtain ⟨address, -, ha⟩ := Option.bind_eq_some_iff.mp ha
  obtain ⟨publicKey, hpublicKey, ha⟩ := Option.bind_eq_some_iff.mp ha
  obtain ⟨walletStateInit, hstateInit, ha⟩ := Option.bind_eq_some_iff.mp ha
  obtain ⟨privateKey, -, ha⟩ := Option.bind_eq_some_iff.mp ha
  cases ha
  obtain ⟨state, -, rfl⟩ := Option.map_eq_some_iff.mp hstateInit
  obtain rfl := Option.some.inj (w.publicKey.symm.trans hpublicKey)
  exact ⟨hfields.1, state.data, hfields.2⟩

/-- No reply has its key as it should be, and none its StateInit. -/
theorem fields_undocumented {reply : TonAddressItemReply} (stateInit : Boc)
    (h : approvalReply P data w = some reply) :
    convertPublicKey w.key.serialized ≠ .ok reply.publicKey ∧
      reply.walletStateInit ≠ base64Encode stateInit.bytes := by
  obtain ⟨hpublicKey, bytes, hstateInit⟩ := approvalReply_fields h
  rw [convertPublicKey_serialized, hpublicKey, hstateInit]
  exact ⟨fun he => serialized_ne_hexEncode w.key (Except.ok.inj he).symm,
    hexEncode_ne_base64Encode bytes stateInit⟩

/-- **The encodings of a connect reply.** Whatever the wallet and the state of its account are, no
reply is as its comment says. -/
theorem approval_never_documented (P : Primitives) (data : TonConnectConnectionData)
    (w : ApprovalSource) (stateInit : Boc) :
    ¬ ∃ reply ∈ approvalReply P data w, Documented w.key stateInit reply := by
  rintro ⟨reply, hreply, h⟩
  exact (fields_undocumented stateInit hreply).1 h.publicKey

/-- A wallet with a deployed account. -/
def sampleSource : ApprovalSource where
  key := ⟨List.replicate 32 1, [0, 0], rfl, rfl⟩
  wallet :=
    { address := text "EQ"
      publicKey := some (TonlibKey.serialized ⟨List.replicate 32 1, [0, 0], rfl, rfl⟩)
      walletVersion := .V3R2
      lastTransactionId := {}
      balance := 0 }
  publicKey := rfl
  unpackAccountAddress _ := some sampleAddress
  rawGetAccountState _ := some { code := [1], data := [2] }
  privateKeyTempData := some sampleKey
  timestamp := 1700000000

/-- The reply of this wallet has the key in the form that tonlib stores it in. -/
theorem stored_key_not_documented :
    ¬ ∀ (P : Primitives) (data : TonConnectConnectionData) (w : ApprovalSource) (stateInit : Boc),
      ∀ reply ∈ approvalReply P data w, Documented w.key stateInit reply := by
  intro h
  have hreply : (approvalReply samplePrimitives sampleConnection sampleSource).isSome := by
    decide +kernel
  obtain ⟨reply, hreply⟩ := Option.isSome_iff_exists.mp hreply
  have hdocumented := h samplePrimitives sampleConnection sampleSource
    ⟨[0xB5, 0xEE, 0x9C, 0x72], _, List.mem_of_getLast? rfl, List.prefix_refl _⟩ reply hreply
  have hkey := Except.ok.inj ((convertPublicKey_serialized _).symm.trans hdocumented.publicKey)
  rw [(approvalReply_fields hreply).1] at hkey
  exact serialized_ne_hexEncode _ hkey.symm

end TonWallet.TonConnect
