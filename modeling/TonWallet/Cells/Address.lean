import Mathlib.Data.List.DropRight
import TonWallet.Encoding.Base64
import TonWallet.Lib.Segments
import TonWallet.Cells.Checksums

/-!
# Addresses

`Address.java` reads and writes the two forms of an address: the raw form
`workchain:hash`, and the user-friendly form, which has a tag and a checksum and
is written in one of the two alphabets of Base64.

* `ofText_toText`: an address that is written in any of its forms is read again.
* `ofText_ok_iff`: the texts that are accepted. A user-friendly text is what is
  written for its address, up to the alphabet; a raw text may have any 63 or 64
  characters where the hash should be.
* `friendly_burst`: two accepted user-friendly texts that differ in at most two
  characters in a row differ in the alphabet only.
-/

namespace TonWallet.Cells

open TonWallet.Encoding

/-- `Address` (`Address.java` lines 20–25). -/
structure Address where
  wc : BitVec 8
  hashPart : Bytes
  isTestOnly : Bool
  isUserFriendly : Bool
  isBounceable : Bool
  isUrlSafe : Bool
deriving DecidableEq, Repr

/-- `bounceable_tag`, `non_bounceable_tag` and `test_flag` (`Address.java` lines 16–18). -/
def bounceableTag : Byte := 0x11
def nonBounceableTag : Byte := 0x51
def testFlag : Byte := 0x80

/-- The tag of a user-friendly address. -/
def tagByte (isBounceable isTestOnly : Bool) : Byte :=
  let tag := if isBounceable then bounceableTag else nonBounceableTag
  if isTestOnly then tag ||| testFlag else tag

/-- `toString` with all four flags (`Address.java` lines 139–170). -/
def Address.toText (a : Address) (isUserFriendly isUrlSafe isBounceable isTestOnly : Bool) :
    Except Fault Text :=
  if !isUserFriendly then .ok (intText a.wc.toInt ++ text ":" ++ bytesToHex a.hashPart)
  else if a.hashPart.length < 32 then .error (.thrown .indexOutOfBounds)
  else
    let addr := tagByte isBounceable isTestOnly :: a.wc :: a.hashPart.take 32
    let addressWithChecksum := addr ++ getCRC16ChecksumAsBytes addr
    .ok (if isUrlSafe then base64UrlEncode addressWithChecksum
      else base64Encode addressWithChecksum)

/-- `address.split(sep)`: empty strings at the end are dropped. -/
def javaSplit (sep : Char16) (s : Text) : List Text :=
  if sep ∈ s then (s.splitOn sep).rdropWhile (· == []) else [s]

/-- `Byte.parseByte`. -/
def parseByte (s : Text) : Except Fault (BitVec 8) :=
  match parse (-128) 127 10 s with
  | some v => .ok (BitVec.ofInt 8 v)
  | none => .error (.thrown .numberFormat)

/-- `parseFriendlyAddress` (`Address.java` lines 181–231). -/
def parseFriendlyAddress (addressString : Text) : Except Fault Address := do
  Fault.throwIf (addressString.length ≠ 48)
    (.error (text "User-friendly address should contain strictly 48 characters"))
  let data ← (base64Decode addressString).mapError .thrown
  Fault.throwIf (data.length ≠ 36)
    (.error (text "Unknown address type: byte length is not equal to 36"))
  let addr ← copyOfRange data 0 34
  let crc ← copyOfRange data 34 36
  Fault.throwIf (getCRC16ChecksumAsBytes addr ≠ crc) (.error (text "Wrong crc16 hashsum"))
  let tag := addr.getD 0 0
  let isTestOnly := tag &&& testFlag ≠ 0
  let tag := if isTestOnly then tag ^^^ testFlag else tag
  Fault.throwIf (tag ≠ bounceableTag ∧ tag ≠ nonBounceableTag)
    (.error (text "Unknown address tag"))
  let workchain := if addr.getD 1 0 = 0xff then -1 else addr.getD 1 0
  Fault.throwIf (workchain ≠ 0 ∧ workchain ≠ -1)
    (.error (text "Invalid address wc " ++ intText workchain.toInt))
  let hashPart ← copyOfRange addr 2 34
  return {
    wc := workchain, hashPart, isTestOnly, isUserFriendly := false,
    isBounceable := tag = bounceableTag, isUrlSafe := false }

/-- The hash of a raw address (`Address.java` lines 60–67): a digit may be missing. -/
def rawHex (address hex : Text) : Except Fault Text :=
  if hex.length = 64 then .ok hex
  else if hex.length = 63 then .ok (0x30 :: hex)
  else .error (.error (text "Invalid address hex " ++ address))

/-- `new Address(address)` for a text (`Address.java` lines 31–82). -/
def Address.ofText (address : Text) : Except Fault Address := do
  if 0x3A ∈ address then
    match javaSplit 0x3A address with
    | [wc, hex] =>
      let wcInternal ← parseByte wc
      Fault.throwIf (wcInternal ≠ 0 ∧ wcInternal ≠ -1)
        (.error (text "Invalid address wc " ++ address))
      let hashPart ← hexToBytes (← rawHex address hex)
      return {
        wc := wcInternal, hashPart, isTestOnly := false, isUserFriendly := false,
        isBounceable := false, isUrlSafe := false }
    | _ => .error (.error (text "Invalid address " ++ address))
  else
    let isUrlSafe := 0x2D ∈ address ∨ 0x5F ∈ address
    let parseResult ← parseFriendlyAddress (address.map ofUrlSafe)
    return { parseResult with isUserFriendly := true, isUrlSafe }

/-- `isValid` (`Address.java` lines 172–179). -/
def Address.isValid (address : Text) : Bool := (Address.ofText address).isOk

/-- What is read: one of the two workchains, and 32 bytes. -/
structure Address.Valid (a : Address) : Prop where
  wc : a.wc = 0 ∨ a.wc = -1
  hashPart : a.hashPart.length = 32

/-! ## The user-friendly form -/

/-- The array behind a user-friendly address. -/
def Address.friendlyBytes (a : Address) (isBounceable isTestOnly : Bool) : Bytes :=
  let addr := tagByte isBounceable isTestOnly :: a.wc :: a.hashPart
  addr ++ getCRC16ChecksumAsBytes addr

theorem length_friendlyBytes {a : Address} (h : a.Valid) (b t : Bool) :
    (a.friendlyBytes b t).length = 36 := by
  simp [Address.friendlyBytes, getCRC16ChecksumAsBytes, h.hashPart]

theorem Address.Valid.toText_friendly {a : Address} (h : a.Valid) (u b t : Bool) :
    a.toText true u b t = .ok (if u then base64UrlEncode (a.friendlyBytes b t)
      else base64Encode (a.friendlyBytes b t)) := by
  have htake : a.hashPart.take 32 = a.hashPart := List.take_of_length_le (by rw [h.hashPart])
  rw [Address.toText, if_neg (by simp), if_neg (by rw [h.hashPart]; omega), htake]
  rfl

/-- What is read of a tag. -/
theorem tagByte_spec : ∀ b t : Bool, (tagByte b t &&& testFlag = 0 ↔ t = false) ∧
    (if t then tagByte b t ^^^ testFlag else tagByte b t)
      = if b then bounceableTag else nonBounceableTag := by decide

/-- A tag that is known. -/
theorem exists_tagByte (tag : Byte) :
    let tag' := if tag &&& testFlag ≠ 0 then tag ^^^ testFlag else tag
    tag' = bounceableTag ∨ tag' = nonBounceableTag →
      tag = tagByte (tag' = bounceableTag) (tag &&& testFlag ≠ 0) := by
  intro tag'
  by_cases ht : tag &&& testFlag = 0
  · rw [show tag' = tag from if_neg (not_not.mpr ht)]
    rintro (rfl | rfl)
    · decide
    · decide
  · rw [show tag' = tag ^^^ testFlag from if_pos ht]
    intro h
    have htag : tag = bounceableTag ^^^ testFlag ∨ tag = nonBounceableTag ^^^ testFlag :=
      h.imp (fun h => by rw [← h, BitVec.xor_assoc, BitVec.xor_self, BitVec.xor_zero])
        fun h => by rw [← h, BitVec.xor_assoc, BitVec.xor_self, BitVec.xor_zero]
    rcases htag with rfl | rfl
    · decide
    · decide

/-- The parts of the array behind a user-friendly address. -/
theorem friendly_parts {data : Bytes} (h : data.length = 36) : ∃ tag wc : Byte, ∃ hash crc : Bytes,
    data = tag :: wc :: hash ++ crc ∧ hash.length = 32 ∧ crc.length = 2 := by
  obtain _ | ⟨tag, _ | ⟨wc, rest⟩⟩ := data
  · cases h
  · cases h
  · rw [List.length_cons, List.length_cons] at h
    refine ⟨tag, wc, rest.take 32, rest.drop 32, ?_, ?_, ?_⟩
    · rw [List.cons_append, List.cons_append, List.take_append_drop]
    · rw [List.length_take]
      omega
    · rw [List.length_drop]
      omega

/-- The branch for the workchain minus one changes nothing. -/
theorem workchain_eq (wc : Byte) : (if wc = 0xff then -1 else wc) = wc := by
  split
  · rename_i h
    rw [h]
    rfl
  · rfl

section
variable {tag wc : Byte} {hash crc : Bytes} (hhash : hash.length = 32) (hcrc : crc.length = 2)
include hhash hcrc

theorem copyOfRange_addr :
    copyOfRange (tag :: wc :: hash ++ crc) 0 34 = .ok (tag :: wc :: hash) := by
  have h := copyOfRange_prefix (tag :: wc :: hash ++ crc) (n := 34)
    (by simp [hhash, hcrc])
  rwa [List.take_append_of_le_length (by simp [hhash]), List.take_of_length_le (by simp [hhash])]
    at h

theorem copyOfRange_crc : copyOfRange (tag :: wc :: hash ++ crc) 34 36 = .ok crc := by
  have h := copyOfRange_range (tag :: wc :: hash ++ crc) 34 36 (by decide)
    (by simp [hhash, hcrc])
  rwa [List.drop_left' (by simp [hhash]), List.take_of_length_le (by simp [hcrc])] at h

end

theorem copyOfRange_hash {tag wc : Byte} {hash : Bytes} (hhash : hash.length = 32) :
    copyOfRange (tag :: wc :: hash) 2 34 = .ok hash := by
  have h := copyOfRange_range (tag :: wc :: hash) 2 34 (by decide)
    (by simp [hhash])
  rwa [List.drop_succ_cons, List.drop_succ_cons, List.drop_zero,
    List.take_of_length_le (by simp [hhash])] at h

/-- A user-friendly text is accepted exactly if it is what is written for the address. -/
theorem parseFriendlyAddress_ok_iff {s : Text} {a : Address} : parseFriendlyAddress s = .ok a ↔
    a.Valid ∧ a.isUserFriendly = false ∧ a.isUrlSafe = false ∧
      s = base64Encode (a.friendlyBytes a.isBounceable a.isTestOnly) := by
  constructor
  · intro h
    simp only [parseFriendlyAddress, Fault.bind_eq_ok, Fault.throwIf_eq_ok, Fault.mapError_eq_ok,
      exists_const, not_not, ne_eq, not_and_or] at h
    obtain ⟨-, data, hdecode, hdata, addr, haddr, sum, hsum, hchecked, htag, hwc, hashPart, hpart,
      ha⟩ := h
    obtain ⟨tag, wc, hash, crc, rfl, hhash, hcrc⟩ := friendly_parts hdata
    obtain rfl := Except.ok.inj ((copyOfRange_addr hhash hcrc).symm.trans haddr)
    obtain rfl := Except.ok.inj ((copyOfRange_crc hhash hcrc).symm.trans hsum)
    obtain rfl := Except.ok.inj ((copyOfRange_hash hhash).symm.trans hpart)
    obtain rfl := Except.ok.inj ha
    simp only [List.getD_cons_zero, List.getD_cons_succ, workchain_eq] at htag hwc hchecked ⊢
    have hencode : s = base64Encode (tag :: wc :: hash ++ crc) := by
      rw [base64Decode] at hdecode
      split at hdecode
      · cases hdecode
      · exact base64Encode_of_decodeImpl hdecode (by rw [hdata])
    refine ⟨⟨hwc, hhash⟩, trivial, trivial, ?_⟩
    rw [hencode, Address.friendlyBytes]
    simp only [← exists_tagByte tag htag, hchecked]
  · rintro ⟨hvalid, hfriendly, hsafe, rfl⟩
    have hlen := length_friendlyBytes hvalid a.isBounceable a.isTestOnly
    obtain ⟨htest, htag⟩ := tagByte_spec a.isBounceable a.isTestOnly
    have hwc := hvalid.wc
    have hcrc : ∀ addr, (getCRC16ChecksumAsBytes addr).length = 2 := fun _ => rfl
    rw [parseFriendlyAddress, Fault.throwIf_bind (by rw [length_base64Encode, hlen]; decide),
      base64Decode_base64Encode]
    show Fault.throwIf _ _ >>= _ = _
    rw [Fault.throwIf_bind (by rw [hlen]; decide), Address.friendlyBytes,
      copyOfRange_addr hvalid.hashPart (hcrc _), Fault.ok_bind,
      copyOfRange_crc hvalid.hashPart (hcrc _), Fault.ok_bind, Fault.throwIf_bind (by simp)]
    have hknown : ∀ b : Bool, ((if b then bounceableTag else nonBounceableTag) = bounceableTag ↔
        b = true) ∧ ((if b then bounceableTag else nonBounceableTag) = bounceableTag ∨
        (if b then bounceableTag else nonBounceableTag) = nonBounceableTag) := by decide
    obtain ⟨hbounce, hknown⟩ := hknown a.isBounceable
    simp only [List.getD_cons_zero, List.getD_cons_succ, workchain_eq, ne_eq, htest,
      Bool.not_eq_false, htag]
    rw [Fault.throwIf_bind (fun h => hknown.elim h.1 h.2),
      Fault.throwIf_bind (fun h => hwc.elim h.1 h.2), copyOfRange_hash hvalid.hashPart,
      Fault.ok_bind]
    simp only [hbounce, Bool.decide_eq_true]
    refine congrArg Except.ok ?_
    obtain ⟨wc, hash, t, u, b, f⟩ := a
    obtain rfl : u = false := hfriendly
    obtain rfl : f = false := hsafe
    rfl

/-! ## The two forms -/

/-- The text of a hash, filled up. -/
def padHex (hex : Text) : Text := if hex.length = 63 then 0x30 :: hex else hex

/-- The texts that are read in the user-friendly form: what is written for the address, in one of
the two alphabets or in a mixture of them. -/
structure ReadFriendly (s : Text) (a : Address) : Prop where
  valid : a.Valid
  friendly : a.isUserFriendly = true
  urlSafe : a.isUrlSafe = decide (0x2D ∈ s ∨ 0x5F ∈ s)
  text_eq : s.map ofUrlSafe = base64Encode (a.friendlyBytes a.isBounceable a.isTestOnly)

/-- The texts that are read in the raw form: a number, a colon, 63 or 64 characters, which need not
be digits, and any number of colons. -/
structure ReadRaw (s : Text) (a : Address) : Prop where
  valid : a.Valid
  flags : a.isTestOnly = false ∧ a.isUserFriendly = false ∧ a.isBounceable = false ∧
    a.isUrlSafe = false
  parts : ∃ wc hex : Text, 0x3A ∉ wc ∧ 0x3A ∉ hex ∧ (hex.length = 64 ∨ hex.length = 63) ∧
    parseByte wc = .ok a.wc ∧ hexToBytes (padHex hex) = .ok a.hashPart ∧
    ∃ k, s = wc ++ 0x3A :: (hex ++ List.replicate k 0x3A)

/-- A text without a colon is read in the user-friendly form. -/
theorem ofText_friendly_iff {s : Text} {a : Address} (hs : 0x3A ∉ s) :
    Address.ofText s = .ok a ↔ ReadFriendly s a := by
  rw [Address.ofText, if_neg hs]
  simp only [Fault.bind_eq_ok, parseFriendlyAddress_ok_iff]
  constructor
  · rintro ⟨r, ⟨hvalid, hfriendly, hsafe, hr⟩, ha⟩
    obtain rfl := Except.ok.inj ha
    exact ⟨⟨hvalid.wc, hvalid.hashPart⟩, rfl, rfl, hr⟩
  · rintro ⟨hvalid, hfriendly, hsafe, hr⟩
    refine ⟨{ a with isUserFriendly := false, isUrlSafe := false },
      ⟨⟨hvalid.wc, hvalid.hashPart⟩, rfl, rfl, hr⟩, ?_⟩
    rw [← hsafe, ← hfriendly]
    rfl

/-- The two parts of a raw text, and colons behind them. -/
theorem javaSplit_pair_iff {s w h : Text} {sep : Char16} (hs : sep ∈ s) :
    javaSplit sep s = [w, h] ↔
      sep ∉ w ∧ sep ∉ h ∧ h ≠ [] ∧ ∃ k, s = w ++ sep :: (h ++ List.replicate k sep) := by
  rw [javaSplit, if_pos hs]
  constructor
  · intro hsplit
    have hlast := List.rdropWhile_last_not (· == []) (s.splitOn sep) (by rw [hsplit]; simp)
    simp only [hsplit, List.getLast_cons_cons, List.getLast_singleton, beq_iff_eq] at hlast
    have happend : [w, h] ++ (s.splitOn sep).rtakeWhile (· == []) = s.splitOn sep := by
      rw [← hsplit, List.rdropWhile_append_rtakeWhile]
    obtain ⟨k, hempty⟩ : ∃ k, (s.splitOn sep).rtakeWhile (· == []) = List.replicate k [] :=
      ⟨_, List.eq_replicate_of_mem fun x hx => by simpa using List.mem_rtakeWhile_imp hx⟩
    rw [hempty] at happend
    have hw : sep ∉ w := Segments.not_mem_of_mem_splitOn (l := s) (by rw [← happend]; simp)
    have hh : sep ∉ h := Segments.not_mem_of_mem_splitOn (l := s) (by rw [← happend]; simp)
    refine ⟨hw, hh, hlast, k, ?_⟩
    have hjoin : [sep].intercalate (s.splitOn sep) = s := List.intercalate_splitOn sep
    rw [← hjoin, ← happend, ← Segments.splitOn_pair hw hh, List.intercalate_splitOn]
  · rintro ⟨hw, hh, hne, k, rfl⟩
    rw [Segments.splitOn_pair hw hh]
    induction k with
    | zero => exact List.rdropWhile_concat_neg _ [w] h (by simpa using hne)
    | succ k ih =>
      rw [List.replicate_succ', ← List.append_assoc, List.rdropWhile_concat_pos _ _ _ (by simp)]
      exact ih (by simp)

theorem rawHex_eq_ok {address hex h : Text} : rawHex address hex = .ok h ↔
    (hex.length = 64 ∨ hex.length = 63) ∧ padHex hex = h := by
  rw [rawHex, padHex]
  split
  · rename_i h64
    simp [h64]
  · split
    · rename_i h63
      simp [h63]
    · rename_i h64 h63
      simp [h64, h63]

theorem hexToBytes_length {s : Text} {bytes : Bytes} (h : hexToBytes s = .ok bytes) :
    s.length = 2 * bytes.length := by
  induction s using hexToBytes.induct generalizing bytes with
  | case1 =>
    obtain rfl := Except.ok.inj h
    rfl
  | case2 => cases h
  | case3 c d s ih =>
    rw [hexToBytes] at h
    obtain ⟨data, hdata, h⟩ := Fault.bind_eq_ok.mp h
    obtain rfl := Except.ok.inj h
    rw [List.length_cons, List.length_cons, List.length_cons, ih hdata]
    omega

/-- A text with a colon is read in the raw form. -/
theorem ofText_raw_iff {s : Text} {a : Address} (hs : 0x3A ∈ s) :
    Address.ofText s = .ok a ↔ ReadRaw s a := by
  rw [Address.ofText, if_pos hs]
  constructor
  · intro h
    split at h
    · rename_i wc hex hsplit
      obtain ⟨hwc, hhex, -, hk⟩ := (javaSplit_pair_iff hs).mp hsplit
      simp only [Fault.bind_eq_ok, Fault.throwIf_eq_ok, exists_const, ne_eq, not_and_or,
        not_not] at h
      obtain ⟨v, hv, hvalid, hex', hpad, bytes, hbytes, ha⟩ := h
      obtain rfl := Except.ok.inj ha
      obtain ⟨hlen, rfl⟩ := rawHex_eq_ok.mp hpad
      have hsize := hexToBytes_length hbytes
      have hpadded : (padHex hex).length = 64 := by
        rw [padHex]
        split
        · simp [*]
        · omega
      exact ⟨⟨hvalid, by show bytes.length = 32; omega⟩, ⟨rfl, rfl, rfl, rfl⟩, wc, hex, hwc, hhex,
        hlen, hv, hbytes, hk⟩
    · cases h
  · rintro ⟨hvalid, ⟨ht, hu, hb, hf⟩, wc, hex, hwc, hhex, hlen, hparse, hbytes, k, rfl⟩
    have hne : hex ≠ [] := by
      rintro rfl
      simp at hlen
    rw [(javaSplit_pair_iff hs).mpr ⟨hwc, hhex, hne, k, rfl⟩]
    simp only
    rw [hparse, Fault.ok_bind, Fault.throwIf_bind (fun h => hvalid.wc.elim h.1 h.2),
      rawHex_eq_ok.mpr ⟨hlen, rfl⟩, Fault.ok_bind, hbytes]
    refine congrArg Except.ok ?_
    obtain ⟨w, hash, t, u, b, f⟩ := a
    obtain rfl : t = false := ht
    obtain rfl : u = false := hu
    obtain rfl : b = false := hb
    obtain rfl : f = false := hf
    rfl

/-- **The texts that are accepted.** -/
theorem ofText_ok_iff (s : Text) (a : Address) : Address.ofText s = .ok a ↔
    0x3A ∉ s ∧ ReadFriendly s a ∨ 0x3A ∈ s ∧ ReadRaw s a := by
  by_cases hs : 0x3A ∈ s
  · rw [ofText_raw_iff hs]
    exact ⟨fun h => .inr ⟨hs, h⟩, fun h => h.elim (fun h => absurd hs h.1) And.right⟩
  · rw [ofText_friendly_iff hs]
    exact ⟨fun h => .inl ⟨hs, h⟩, fun h => h.elim And.right fun h => absurd h.1 hs⟩

/-! ## Round trip -/

theorem base64Symbol_plain : ∀ v < 64, base64Symbol v ≠ 0x2D ∧ base64Symbol v ≠ 0x5F ∧
    base64Symbol v ≠ 0x3A ∧ toUrlSafe (base64Symbol v) ≠ 0x3A ∧
    ofUrlSafe (base64Symbol v) = base64Symbol v ∧
    ofUrlSafe (toUrlSafe (base64Symbol v)) = base64Symbol v := by decide +kernel

theorem base64Encode_plain (bytes : Bytes) : ∀ c ∈ base64Encode bytes, c ≠ 0x2D ∧ c ≠ 0x5F ∧
    c ≠ 0x3A ∧ toUrlSafe c ≠ 0x3A ∧ ofUrlSafe c = c ∧ ofUrlSafe (toUrlSafe c) = c :=
  forall_mem_base64Encode base64Symbol_plain (by decide) bytes

/-- The raw text of an address, read again. -/
theorem Address.Valid.ofText_raw {a : Address} (h : a.Valid) :
    Address.ofText (intText a.wc.toInt ++ text ":" ++ bytesToHex a.hashPart) = .ok {
      wc := a.wc, hashPart := a.hashPart, isTestOnly := false, isUserFriendly := false,
      isBounceable := false, isUrlSafe := false } := by
  have hwc : ∀ wc : Byte, wc = 0 ∨ wc = -1 →
      0x3A ∉ intText wc.toInt ∧ parseByte (intText wc.toInt) = .ok wc := by
    rintro wc (rfl | rfl)
    · exact ⟨by decide, by decide⟩
    · exact ⟨by decide, by decide⟩
  obtain ⟨hcolon, hparse⟩ := hwc a.wc h.wc
  have hlen : (bytesToHex a.hashPart).length = 64 := by
    rw [bytesToHex_eq, length_hexEncode, h.hashPart]
  have hhex : 0x3A ∉ bytesToHex a.hashPart := by
    rw [bytesToHex_eq]
    intro hmem
    exact absurd (mem_hexEncode hmem) (by decide)
  refine (ofText_raw_iff (by simp [text, codeUnits])).mpr ⟨⟨h.wc, h.hashPart⟩, ⟨rfl, rfl, rfl, rfl⟩,
    _, _, hcolon, hhex, .inl hlen, hparse, ?_, 0, ?_⟩
  · rw [padHex, if_neg (by omega), hexToBytes_bytesToHex]
  · rw [List.replicate_zero, List.append_nil, List.append_assoc]
    rfl

/-- **An address that is written in any of its forms is read again.** The tag is lost in the raw
form, and the alphabet of a text that has none of the symbols in which the alphabets differ. -/
theorem ofText_toText {a : Address} (h : a.Valid) (u safe b t : Bool) :
    ∃ s, a.toText u safe b t = .ok s ∧ Address.ofText s = .ok {
      wc := a.wc, hashPart := a.hashPart, isTestOnly := u && t, isUserFriendly := u,
      isBounceable := u && b, isUrlSafe := u && safe && decide (0x2D ∈ s ∨ 0x5F ∈ s) } := by
  cases u with
  | false => exact ⟨_, rfl, h.ofText_raw⟩
  | true =>
    refine ⟨_, h.toText_friendly safe b t, ?_⟩
    have hplain := base64Encode_plain (a.friendlyBytes b t)
    cases safe with
    | false =>
      have hnone : decide (0x2D ∈ base64Encode (a.friendlyBytes b t)
          ∨ 0x5F ∈ base64Encode (a.friendlyBytes b t)) = false :=
        decide_eq_false (not_or.mpr
          ⟨fun hc => (hplain _ hc).1 rfl, fun hc => (hplain _ hc).2.1 rfl⟩)
      refine (ofText_friendly_iff fun hc => (hplain _ hc).2.2.1 rfl).mpr
        ⟨⟨h.wc, h.hashPart⟩, rfl, hnone.symm, ?_⟩
      exact (List.map_congr_left fun c hc => (hplain c hc).2.2.2.2.1).trans (List.map_id _)
    | true =>
      have hcolon : 0x3A ∉ base64UrlEncode (a.friendlyBytes b t) := by
        intro hc
        obtain ⟨c, hc, he⟩ := List.mem_map.mp hc
        exact (hplain c hc).2.2.2.1 he
      refine (ofText_friendly_iff hcolon).mpr
        ⟨⟨h.wc, h.hashPart⟩, rfl, Bool.true_and _, ?_⟩
      rw [if_pos rfl, base64UrlEncode, List.map_map]
      exact (List.map_congr_left fun c hc => (hplain c hc).2.2.2.2.2).trans (List.map_id _)

theorem ofText_toText_masterchain : ∃ s,
    Address.toText ⟨-1, List.replicate 32 0x5A, true, false, true, false⟩ true true false true
        = .ok s ∧
      Address.ofText s = .ok ⟨-1, List.replicate 32 0x5A, true, true, false,
        true && true && decide (0x2D ∈ s ∨ 0x5F ∈ s)⟩ :=
  ofText_toText ⟨.inr rfl, rfl⟩ true true false true

/-! ## Changed characters -/

/-- The symbols of whole units are the bits of the array, six at a time. -/
theorem exists_sixBits {bytes : Bytes} (h : bytes.length % 3 = 0) : ∃ vs : List ℕ,
    (∀ v ∈ vs, v < 64) ∧ base64Encode bytes = vs.map base64Symbol ∧
      BitList.unpack bytes = vs.flatMap (BitList.ofNat 6) := by
  induction bytes using base64Encode.induct with
  | case1 a b c bytes ih =>
    have ha := a.isLt; have hb := b.isLt; have hc := c.isLt
    simp only [List.length_cons] at h
    obtain ⟨vs, hvs, hencode, hbits⟩ := ih (by omega)
    refine ⟨a.toNat / 4 :: (a.toNat % 4 * 16 + b.toNat / 16) :: (b.toNat % 16 * 4 + c.toNat / 64)
      :: c.toNat % 64 :: vs, ?_, ?_, ?_⟩
    · simp only [List.forall_mem_cons]
      exact ⟨by omega, by omega, by omega, by omega, hvs⟩
    · rw [base64Encode, hencode]
      rfl
    · have hunit : BitList.ofNat 8 a.toNat ++ BitList.ofNat 8 b.toNat ++ BitList.ofNat 8 c.toNat
          = BitList.ofNat 6 (a.toNat / 4) ++ BitList.ofNat 6 (a.toNat % 4 * 16 + b.toNat / 16)
            ++ BitList.ofNat 6 (b.toNat % 16 * 4 + c.toNat / 64)
            ++ BitList.ofNat 6 (c.toNat % 64) := by
        refine BitList.value_injective (by simp) ?_
        simp only [BitList.value_append, BitList.length_ofNat]
        rw [BitList.value_ofNat_of_lt ha, BitList.value_ofNat_of_lt hb,
          BitList.value_ofNat_of_lt hc, BitList.value_ofNat_of_lt (by omega),
          BitList.value_ofNat_of_lt (by omega),
          BitList.value_ofNat_of_lt (by omega), BitList.value_ofNat_of_lt (by omega)]
        omega
      simp only [BitList.unpack_cons, List.flatMap_cons, hbits]
      simp only [← List.append_assoc, hunit]
  | case2 a b => simp at h
  | case3 a => simp at h
  | case4 => exact ⟨[], by simp, rfl, rfl⟩

theorem base64Symbol_injOn {vs ws : List ℕ} (hv : ∀ v ∈ vs, v < 64) (hw : ∀ w ∈ ws, w < 64)
    (h : vs.map base64Symbol = ws.map base64Symbol) : vs = ws := by
  have hvalues : ∀ vs : List ℕ, (∀ v ∈ vs, v < 64) →
      (vs.map base64Symbol).map base64Value = vs.map some := by
    intro vs hvs
    rw [List.map_map]
    exact List.map_congr_left fun v hv => base64Value_base64Symbol v (hvs v hv)
  have h := congrArg (List.map base64Value) h
  rw [hvalues vs hv, hvalues ws hw] at h
  exact List.map_injective_iff.mpr (Option.some_injective ℕ) h

/-- The text of an array, taken apart, and the bits of the parts. -/
theorem exists_bits_parts {p u q : Text} {bytes : Bytes} (h : bytes.length % 3 = 0)
    (hs : p ++ u ++ q = base64Encode bytes) : ∃ ps us qs : List ℕ,
    (∀ v ∈ ps, v < 64) ∧ (∀ v ∈ qs, v < 64) ∧ ps.map base64Symbol = p ∧ us.length = u.length ∧
      qs.map base64Symbol = q ∧ BitList.unpack bytes = ps.flatMap (BitList.ofNat 6)
        ++ us.flatMap (BitList.ofNat 6) ++ qs.flatMap (BitList.ofNat 6) := by
  obtain ⟨vs, hvs, hencode, hbits⟩ := exists_sixBits h
  rw [hencode] at hs
  obtain ⟨ps', qs, rfl, hps', hqs⟩ := List.map_eq_append_iff.mp hs.symm
  obtain ⟨ps, us, rfl, hps, hus⟩ := List.map_eq_append_iff.mp hps'
  refine ⟨ps, us, qs, fun v hv => hvs v (by simp [hv]), fun v hv => hvs v (by simp [hv]), hps, ?_,
    hqs, ?_⟩
  · rw [← hus, List.length_map]
  · rw [hbits, List.flatMap_append, List.flatMap_append]

theorem length_flatMap_ofNat (w : ℕ) (vs : List ℕ) :
    (vs.flatMap (BitList.ofNat w)).length = vs.length * w := by
  induction vs with
  | nil => simp
  | cons v vs ih =>
    rw [List.flatMap_cons, List.length_append, ih, BitList.length_ofNat, List.length_cons]
    ring

theorem tagByte_injective : ∀ b t b' t' : Bool, tagByte b t = tagByte b' t' → b = b' ∧ t = t' := by
  decide

/-- The array behind a text has the whole address in it. -/
theorem Address.Valid.friendlyBytes_inj {a b : Address} (ha : a.Valid) (hb : b.Valid)
    (h : a.friendlyBytes a.isBounceable a.isTestOnly
      = b.friendlyBytes b.isBounceable b.isTestOnly) :
    a.wc = b.wc ∧ a.hashPart = b.hashPart ∧ a.isBounceable = b.isBounceable ∧
      a.isTestOnly = b.isTestOnly := by
  obtain ⟨haddr, -⟩ := List.append_inj h (by simp [ha.hashPart, hb.hashPart])
  obtain ⟨htag, hrest⟩ := List.cons.inj haddr
  obtain ⟨hwc, hhash⟩ := List.cons.inj hrest
  exact ⟨hwc, hhash, tagByte_injective _ _ _ _ htag⟩

/-- **A changed character is found.** Two user-friendly texts that differ in at most two characters
in a row are both accepted only if they differ in the alphabet alone; then they are the same
address. -/
theorem friendly_burst {p u v q : Text} {a b : Address} (hlen : u.length = v.length)
    (hu : u.length ≤ 2) (hcolon : 0x3A ∉ p ++ u ++ q) (hcolon' : 0x3A ∉ p ++ v ++ q)
    (ha : Address.ofText (p ++ u ++ q) = .ok a) (hb : Address.ofText (p ++ v ++ q) = .ok b) :
    u.map ofUrlSafe = v.map ofUrlSafe ∧ a.wc = b.wc ∧ a.hashPart = b.hashPart ∧
      a.isBounceable = b.isBounceable ∧ a.isTestOnly = b.isTestOnly := by
  obtain ⟨hva, -, -, hsa⟩ := (ofText_friendly_iff hcolon).mp ha
  obtain ⟨hvb, -, -, hsb⟩ := (ofText_friendly_iff hcolon').mp hb
  have hla := length_friendlyBytes hva a.isBounceable a.isTestOnly
  have hlb := length_friendlyBytes hvb b.isBounceable b.isTestOnly
  rw [List.map_append, List.map_append] at hsa hsb
  obtain ⟨ps, us, qs, hps, hqs, hpsa, husa, hqsa, hbits⟩ :=
    exists_bits_parts (by rw [hla]) hsa
  obtain ⟨ps', vs, qs', hps', hqs', hpsb, hvsb, hqsb, hbits'⟩ :=
    exists_bits_parts (by rw [hlb]) hsb
  -- the characters around the change are the same six bits each
  obtain rfl := base64Symbol_injOn hps hps' (hpsa.trans hpsb.symm)
  obtain rfl := base64Symbol_injOn hqs hqs' (hqsa.trans hqsb.symm)
  rw [List.length_map] at husa hvsb
  have hbytes : a.friendlyBytes a.isBounceable a.isTestOnly
      = b.friendlyBytes b.isBounceable b.isTestOnly :=
    crc16_burst rfl rfl rfl rfl hbits hbits' (by rw [length_flatMap_ofNat]; omega)
      (by rw [length_flatMap_ofNat, length_flatMap_ofNat, husa, hvsb, hlen])
  refine ⟨?_, hva.friendlyBytes_inj hvb hbytes⟩
  rw [hbytes, ← hsb] at hsa
  exact List.append_cancel_left (List.append_cancel_right hsa)

/-- An address that is written in two alphabets. -/
def plusses (isUrlSafe : Bool) : Address where
  wc := 0
  hashPart := [0, 0xFB, 0xEF, 0xBE] ++ List.replicate 28 0
  isTestOnly := false
  isUserFriendly := true
  isBounceable := true
  isUrlSafe := isUrlSafe

theorem ofText_plusses (isUrlSafe : Bool) :
    Address.ofText (text "EQAA" ++ text (if isUrlSafe then "-+" else "++")
      ++ text "++AAAAAAAAAAAAAAAAAAAAAAAAAAAAAAAAAAAAAO+M") = .ok (plusses isUrlSafe) := by
  have hsum : crc16 (0x11 :: 0 :: (plusses false).hashPart) = 0xEF8C := by decide +kernel
  have hbytes : (plusses isUrlSafe).friendlyBytes true false
      = 0x11 :: 0 :: (plusses isUrlSafe).hashPart ++ [0xEF, 0x8C] := by
    rw [Address.friendlyBytes, getCRC16ChecksumAsBytes, getCRC16ChecksumAsInt_eq]
    show _ ++ [((crc16 (0x11 :: 0 :: (plusses false).hashPart)).setWidth 32 >>> 8).setWidth 8,
      ((crc16 (0x11 :: 0 :: (plusses false).hashPart)).setWidth 32).setWidth 8] = _
    rw [hsum]
    rfl
  refine (ofText_friendly_iff (by cases isUrlSafe <;> decide)).mpr
    ⟨⟨.inl rfl, rfl⟩, rfl, by cases isUrlSafe <;> decide, ?_⟩
  show _ = base64Encode ((plusses isUrlSafe).friendlyBytes true false)
  rw [hbytes]
  cases isUrlSafe <;> decide +kernel

theorem friendly_burst_alphabet : (text "++").map ofUrlSafe = (text "-+").map ofUrlSafe ∧
    (plusses false).wc = (plusses true).wc ∧ (plusses false).hashPart = (plusses true).hashPart ∧
      (plusses false).isBounceable = (plusses true).isBounceable ∧
      (plusses false).isTestOnly = (plusses true).isTestOnly :=
  friendly_burst (by decide) (by decide) (by decide) (by decide) (ofText_plusses false)
    (ofText_plusses true)

end TonWallet.Cells
