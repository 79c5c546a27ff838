import TonWallet.Encoding.Utf8
import TonWallet.TonConnect.OwnershipProof

/-!
# Reading the signed message

The message of an ownership proof is a concatenation in which only the host has
its length written before it. With a hash of 32 bytes and the length that the
host has in UTF-8, the parts can be told apart, so a signature is for one address,
one host, one time and one payload.

* `parseMessage_message`: the parts are read from the message.
* `parseMessage_tonProof`: so are those of a proof, from what the wallet has signed.
* `createMessage_unambiguous`: and no other parts make that message.
-/

namespace TonWallet.TonConnect

open Encoding

/-- What a message is made of. -/
structure MessageParts where
  address : Address
  appDomain : AppDomain
  timestamp : BitVec 64
  payload : Bytes
deriving DecidableEq, Repr

/-- Parts that are of the lengths the message relies on. -/
structure SoundParts extends MessageParts where
  hash_length : address.hash.length = 32
  host_paired : Paired appDomain.value
  host_length : appDomain.length.toInt = (toByteArray appDomain.value).length

namespace SoundParts

/-- The message that is signed for these parts. -/
def message (p : SoundParts) : Bytes := createMessage p.address p.appDomain p.timestamp p.payload

@[ext] theorem ext {p q : SoundParts} (h : p.toMessageParts = q.toMessageParts) : p = q := by
  cases p
  cases q
  congr

end SoundParts

/-! ## The reader -/

/-- The text every message begins with. -/
def messageHeader : Bytes := toByteArray (text "ton-proof-item-v2/")

/-- The first `n` bytes and the rest. -/
def readBytes (n : ℕ) (bytes : Bytes) : Option (Bytes × Bytes) :=
  if n ≤ bytes.length then some (bytes.take n, bytes.drop n) else none

/-- The parts of a message: the header, the workchain in four bytes, the hash in 32, the length of
the host in four, the host, the time in eight and the payload. -/
def parseMessage (bytes : Bytes) : Option MessageParts := do
  let (header, bytes) ← readBytes messageHeader.length bytes
  guard (header = messageHeader)
  let (wc, bytes) ← readBytes 4 bytes
  let (hashBytes, bytes) ← readBytes 32 bytes
  let (length, bytes) ← readBytes 4 bytes
  let (value, bytes) ← readBytes (ofLittleEndian length) bytes
  let (ts, payload) ← readBytes 8 bytes
  return {
    address := { workchain := BitVec.ofNat 32 (ofBigEndian wc), hash := hashBytes }
    appDomain :=
      { length := BitVec.ofNat 32 (ofLittleEndian length), value := decodeToString value }
    timestamp := BitVec.ofNat 64 (ofLittleEndian ts)
    payload := payload }

/-! ## Reading back -/

theorem readBytes_append {n : ℕ} {field : Bytes} (hn : field.length = n) (rest : Bytes) :
    readBytes n (field ++ rest) = some (field, rest) := by
  subst hn
  rw [readBytes, if_pos (by rw [List.length_append]; omega), List.take_left, List.drop_left]

/-- A length that is a natural number is read as that number. -/
theorem readLength {x : BitVec 32} {n : ℕ} (h : x.toInt = n) :
    ofLittleEndian (littleEndian 4 x.toNat) = n := by
  have hx := x.isLt
  rw [BitVec.toInt_eq_toNat_cond] at h
  rw [ofLittleEndian_toNat x (by decide)]
  split at h <;> omega

/-- The parts are read from their message. -/
theorem parseMessage_message (p : SoundParts) : parseMessage p.message = some p.toMessageParts := by
  have hlength := readLength p.host_length
  have hheader : toByteArray (text "ton-proof-item-v2/") = messageHeader := rfl
  rw [parseMessage, SoundParts.message, createMessage, hheader, readBytes_append rfl,
    Option.bind_eq_bind, Option.bind_some]
  dsimp only
  rw [readBytes_append (length_bigEndian _ _)]
  simp only [messageHeader, guard_true, Option.pure_def, Option.bind_eq_bind, Option.bind_some]
  rw [readBytes_append p.hash_length]
  simp only [Option.bind_some]
  rw [readBytes_append (length_littleEndian _ _)]
  simp only [Option.bind_some]
  rw [readBytes_append hlength.symm]
  simp only [Option.bind_some]
  rw [readBytes_append (length_littleEndian _ _)]
  simp only [Option.bind_some]
  rw [ofBigEndian_toNat _ (by decide), ofLittleEndian_toNat _ (by decide),
    ofLittleEndian_toNat _ (by decide), BitVec.ofNat_toNat, BitVec.ofNat_toNat, BitVec.ofNat_toNat,
    BitVec.setWidth_eq, BitVec.setWidth_eq, BitVec.setWidth_eq,
    p.host_paired.decodeToString_toByteArray]

/-! ## The message that is signed -/

theorem paired_fixedHost : Paired (text "ton-connect.github.io") := by decide +kernel

theorem length_fixedHost : (21 : BitVec 32).toInt
    = (toByteArray (text "ton-connect.github.io")).length := by decide +kernel

/-- What is signed for an address of 32 bytes. -/
def proofParts (hash : Bytes) (hlen : hash.length = 32) (timestamp : BitVec 64) (payload : Bytes) :
    SoundParts where
  address := { workchain := 0, hash := hash }
  appDomain := { length := 21, value := text "ton-connect.github.io" }
  timestamp := timestamp
  payload := payload
  hash_length := hlen
  host_paired := paired_fixedHost
  host_length := length_fixedHost

/-- The signed message of a proof has the time and the payload that the proof states. -/
theorem parseMessage_tonProof {G : Signer} {data : TonConnectConnectionData} {raw : Text}
    {timestamp : BitVec 64} {privateKey hash : Bytes} {signature : Signature} {proof : TonProof}
    (h : tonProof G data raw timestamp privateKey = .ok (signature, proof))
    (hhash : hexDecode (raw.drop 2) = .ok hash) (hlen : hash.length = 32) :
    parseMessage signature.message = some
      (proofParts hash hlen proof.timestamp (payloadBytes proof.payload)).toMessageParts := by
  obtain ⟨hash', hhash', hmessage, hts, hpayload, -, -⟩ := tonProof_ok h
  obtain rfl := Except.ok.inj (hhash.symm.trans hhash')
  rw [← parseMessage_message, hts, hpayload, hmessage]
  rfl

/-- **A message is of one address, host, time and payload.** -/
theorem createMessage_unambiguous :
    (∀ p : SoundParts, parseMessage p.message = some p.toMessageParts) ∧
      Function.Injective SoundParts.message := by
  refine ⟨parseMessage_message, fun p q h => SoundParts.ext (Option.some.inj ?_)⟩
  rw [← parseMessage_message, h, parseMessage_message]

end TonWallet.TonConnect
