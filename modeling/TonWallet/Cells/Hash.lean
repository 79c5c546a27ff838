import TonWallet.Lib.Merkle
import TonWallet.Cells.Builder
import TonWallet.Cells.TopUp

/-!
# The hash of a cell

A cell is hashed as its representation: two descriptors, the bits filled up to whole
bytes, and the depths and hashes of what it refers to.

* `Valid`: the cells that have a representation which tells them apart.
* `hash_eq`: the hash of a valid cell is the digest of its content. Cursors, spare
  bytes and the place of a cell in memory do not matter.
* `content_eq_or_collision`: two valid cells with one hash have the same content, or
  a collision of SHA-256 stands in them.
-/

namespace TonWallet.Cells

open TonWallet.Encoding
open BitList (unpack pack)
open Trees (Rose All)
open BitString (bytesFor topUp)

/-- A value of SHA-256. -/
abbrev Digest := { d : Bytes // d.length = 32 }

namespace Cell

mutual

/-- `getMaxLevel` (`Cell.java` lines 144–153), and its loop. -/
def getMaxLevel : Cell → ℕ
  | mk _ refs _ => maxLevels 0 refs

def maxLevels : ℕ → List Cell → ℕ
  | maxLevel, [] => maxLevel
  | maxLevel, i :: refs =>
    maxLevels (if maxLevel < i.getMaxLevel then i.getMaxLevel else maxLevel) refs

end

mutual

/-- `getMaxDepth` (`Cell.java` lines 155–166), and its loop. -/
def getMaxDepth : Cell → ℕ
  | mk _ refs _ => if refs.isEmpty then 0 else maxDepths 0 refs + 1

def maxDepths : ℕ → List Cell → ℕ
  | maxDepth, [] => maxDepth
  | maxDepth, i :: refs =>
    maxDepths (if maxDepth < i.getMaxDepth then i.getMaxDepth else maxDepth) refs

end

/-- The two bytes of a depth. -/
def depthBytes (maxDepth : ℕ) : Bytes :=
  [BitVec.ofNat 8 (maxDepth / 256), BitVec.ofNat 8 (maxDepth % 256)]

/-- `getMaxDepthAsArray` (`Cell.java` lines 168–174). -/
def getMaxDepthAsArray (c : Cell) : Bytes := depthBytes c.getMaxDepth

/-- `getRefsDescriptor` (`Cell.java` lines 180–184). -/
def getRefsDescriptor (c : Cell) : Byte :=
  BitVec.ofNat 8 (c.refs.length + (if c.isExotic then 1 else 0) * 8 + c.getMaxLevel * 32)

/-- `getBitsDescriptor` (`Cell.java` lines 186–190). -/
def getBitsDescriptor (c : Cell) : Byte :=
  BitVec.ofNat 8 (bytesFor c.bits.writeCursor + c.bits.writeCursor / 8)

/-- `getDataWithDescriptors` (`Cell.java` lines 192–197). -/
def getDataWithDescriptors (c : Cell) : Except Fault Bytes := do
  let tuBits ← c.bits.getTopUppedArray
  return c.getRefsDescriptor :: c.getBitsDescriptor :: tuBits

section
variable (sha256 : Bytes → Digest)

mutual

/-- `getRepr` (`Cell.java` lines 199–215). -/
def getRepr : Cell → Except Fault Bytes
  | mk bits refs isExotic => do
    let data ← (mk bits refs isExotic).getDataWithDescriptors
    let hashes ← hashes refs
    return data ++ refs.flatMap getMaxDepthAsArray ++ hashes.flatten

/-- The hashes of the references. -/
def hashes : List Cell → Except Fault (List Bytes)
  | [] => .ok []
  | cell :: refs => do
    let repr ← getRepr cell
    let hash ← hexToBytes (sha256Hex (fun b => (sha256 b).1) repr)
    let rest ← hashes refs
    return hash :: rest

end

/-- `hash` (`Cell.java` lines 217–220). -/
def hash (c : Cell) : Except Fault Bytes := do
  let repr ← c.getRepr sha256
  hexToBytes (sha256Hex (fun b => (sha256 b).1) repr)

end

end Cell

/-! ## What a cell says -/

/-- The bits of a cell, and whether it is exotic. -/
structure CellData where
  bits : List Bool
  isExotic : Bool
deriving DecidableEq

mutual

/-- A cell without its cursors and spare bytes. -/
def Cell.content : Cell → Rose CellData
  | .mk bits refs isExotic => .node ⟨bits.bits, isExotic⟩ (contents refs)

def contents : List Cell → List (Rose CellData)
  | [] => []
  | c :: cells => c.content :: contents cells

end

theorem contents_eq (cells : List Cell) : contents cells = cells.map Cell.content := by
  induction cells with
  | nil => rw [contents, List.map_nil]
  | cons c cells ih => rw [contents, ih, List.map_cons]

theorem Cell.content_mk (bits : BitString) (refs : List Cell) (isExotic : Bool) :
    (Cell.mk bits refs isExotic).content
      = .node ⟨bits.bits, isExotic⟩ (refs.map Cell.content) := by
  rw [Cell.content, contents_eq]

theorem Cell.children_content (c : Cell) : c.content.children = c.refs.map Cell.content := by
  obtain ⟨bits, refs, isExotic⟩ := c
  rw [Cell.content_mk]
  rfl

/-- Bits that a cell can be hashed and stored with. -/
structure BitString.Exportable (bs : BitString) : Prop where
  fits : bs.Fits
  room : bytesFor bs.writeCursor * 8 ≤ bs.capacity
  short : bs.writeCursor ≤ 1023

/-- Cells whose representation says all about them. -/
inductive Cell.Valid : Cell → Prop
  | mk {bits : BitString} {refs : List Cell} {isExotic : Bool} (hbits : bits.Exportable)
      (hlen : refs.length ≤ 7) (hrefs : ∀ c ∈ refs, Valid c) : Valid (.mk bits refs isExotic)

theorem Cell.Valid.refs {c : Cell} (h : c.Valid) : ∀ r ∈ c.refs, r.Valid := by
  obtain ⟨-, -, hrefs⟩ := h
  exact hrefs

/-! ## The preimage -/

/-- How the representation of a cell is written. -/
def encodeNode (a : CellData) (refs : List (ℕ × Digest)) : Bytes :=
  BitVec.ofNat 8 (refs.length + (if a.isExotic then 1 else 0) * 8)
    :: BitVec.ofNat 8 (bytesFor a.bits.length + a.bits.length / 8)
    :: pack (topUp a.bits) ++ refs.flatMap (fun r => Cell.depthBytes r.1)
      ++ (refs.map fun r => r.2.1).flatten

/-- Bits are told apart by what they are filled up to and by whether that changed them. -/
theorem topUp_inj {as bs : List Bool} (h : topUp as = topUp bs)
    (hmod : as.length % 8 = 0 ↔ bs.length % 8 = 0) : as = bs := by
  have hunpack : unpack (pack (topUp as)) = topUp as :=
    BitList.unpack_pack (BitString.topUp_dvd as)
  obtain ⟨b, hb, -, hbits, -⟩ := BitString.setTopUppedArray_topUp (.ofLength 0) hunpack
  obtain ⟨b', hb', -, hbits', -⟩ := BitString.setTopUppedArray_topUp (.ofLength 0) (hunpack.trans h)
  have hflag : decide (as.length % 8 = 0) = decide (bs.length % 8 = 0) := decide_eq_decide.mpr hmod
  rw [hflag, hb'] at hb
  rw [← hbits, ← hbits', Except.ok.inj hb]

theorem flatten_inj {n : ℕ} {xs ys : List Bytes} (hx : ∀ x ∈ xs, x.length = n)
    (hy : ∀ y ∈ ys, y.length = n) (hlen : xs.length = ys.length) (h : xs.flatten = ys.flatten) :
    xs = ys := by
  induction xs generalizing ys with
  | nil => exact (List.eq_nil_of_length_eq_zero hlen.symm).symm
  | cons x xs ih =>
    obtain _ | ⟨y, ys⟩ := ys
    · cases hlen
    · obtain ⟨hx, hxs⟩ := List.forall_mem_cons.mp hx
      obtain ⟨hy, hys⟩ := List.forall_mem_cons.mp hy
      obtain ⟨rfl, hrest⟩ := List.append_inj h (hx.trans hy.symm)
      rw [ih hxs hys (Nat.succ.inj hlen) hrest]

theorem length_depths (refs : List (ℕ × Digest)) :
    (refs.flatMap fun r => Cell.depthBytes r.1).length = 2 * refs.length := by
  induction refs with
  | nil => rfl
  | cons r refs ih =>
    rw [List.flatMap_cons, List.length_append, ih, List.length_cons, Nat.mul_succ, Nat.add_comm]
    rfl

theorem length_of_mem_digests (refs : List (ℕ × Digest)) :
    ∀ d ∈ refs.map fun r => r.2.1, d.length = 32 := by
  intro d hd
  obtain ⟨r, -, rfl⟩ := List.mem_map.mp hd
  exact r.2.2

/-- The representation tells bits, kind and hashes apart. -/
theorem encodeNode_inj {a b : CellData} {xs ys : List (ℕ × Digest)}
    (ha : a.bits.length ≤ 1023 ∧ xs.length ≤ 7) (hb : b.bits.length ≤ 1023 ∧ ys.length ≤ 7)
    (h : encodeNode a xs = encodeNode b ys) : a = b ∧ xs.map Prod.snd = ys.map Prod.snd := by
  obtain ⟨has, hxs⟩ := ha
  obtain ⟨hbs, hys⟩ := hb
  rw [encodeNode, encodeNode, List.cons_append, List.cons_append, List.cons_append,
    List.cons_append, List.cons_append, List.cons_append, List.cons_append, List.cons_append] at h
  obtain ⟨hd1, h⟩ := List.cons.inj h
  obtain ⟨hd2, h⟩ := List.cons.inj h
  have hd1 := congrArg BitVec.toNat hd1
  have hd2 := congrArg BitVec.toNat hd2
  rw [BitVec.toNat_ofNat, BitVec.toNat_ofNat] at hd1 hd2
  have hrefs : xs.length = ys.length ∧ a.isExotic = b.isExotic := by
    cases hea : a.isExotic <;> cases heb : b.isExotic <;>
      simp only [hea, heb, if_true, Bool.false_eq_true, if_false] at hd1 <;>
      simp <;> omega
  have hmod : a.bits.length % 8 = 0 ↔ b.bits.length % 8 = 0 := by
    rw [bytesFor, bytesFor] at hd2
    omega
  have hbytes : bytesFor a.bits.length = bytesFor b.bits.length := by
    rw [bytesFor, bytesFor] at hd2 ⊢
    omega
  have hpa := BitList.length_pack (BitString.topUp_dvd a.bits)
  have hpb := BitList.length_pack (BitString.topUp_dvd b.bits)
  rw [BitString.length_topUp] at hpa hpb
  rw [List.append_assoc, List.append_assoc] at h
  obtain ⟨hbits, h⟩ := List.append_inj h (by omega)
  obtain ⟨-, hhashes⟩ := List.append_inj h (by rw [length_depths, length_depths, hrefs.1])
  have hunpack := congrArg unpack hbits
  rw [BitList.unpack_pack (BitString.topUp_dvd _), BitList.unpack_pack (BitString.topUp_dvd _)]
    at hunpack
  have hmap := flatten_inj (length_of_mem_digests xs) (length_of_mem_digests ys)
    (by simpa using hrefs.1) hhashes
  obtain ⟨as, ea⟩ := a
  obtain ⟨bs, eb⟩ := b
  obtain rfl : as = bs := topUp_inj hunpack hmod
  obtain rfl : ea = eb := hrefs.2
  refine ⟨rfl, ?_⟩
  have hinj : Function.Injective (Subtype.val : Digest → Bytes) := Subtype.val_injective
  refine List.map_injective_iff.mpr hinj ?_
  rw [List.map_map, List.map_map]
  exact hmap

/-- The representation of cells, as a scheme of preimages. -/
def cellScheme : Merkle.Scheme CellData ℕ Digest Bytes where
  note _ depths := if depths = [] then 0 else depths.foldl max 0 + 1
  encode := encodeNode
  Proper a n := a.bits.length ≤ 1023 ∧ n ≤ 7
  encode_inj := encodeNode_inj

/-! ## Representation and hash -/

theorem Cell.Valid.all {c : Cell} (h : c.Valid) : All cellScheme.Proper c.content := by
  induction h with
  | @mk bits refs isExotic hbits hlen _ ih =>
    rw [Cell.content_mk]
    refine .node ⟨?_, by rwa [List.length_map]⟩ fun t ht => ?_
    · show bits.bits.length ≤ 1023
      rw [BitString.length_bits hbits.fits]
      exact hbits.short
    · obtain ⟨c, hc, rfl⟩ := List.mem_map.mp ht
      exact ih c hc

theorem maxLevels_eq_zero {refs : List Cell} (h : ∀ c ∈ refs, c.getMaxLevel = 0) :
    Cell.maxLevels 0 refs = 0 := by
  induction refs with
  | nil => rw [Cell.maxLevels]
  | cons c refs ih =>
    obtain ⟨hc, h⟩ := List.forall_mem_cons.mp h
    rw [Cell.maxLevels, hc, if_neg (Nat.lt_irrefl 0), ih h]

theorem Cell.Valid.getMaxLevel_eq_zero {c : Cell} (h : c.Valid) : c.getMaxLevel = 0 := by
  induction h with
  | @mk bits refs isExotic _ _ _ ih => rw [Cell.getMaxLevel, maxLevels_eq_zero ih]

theorem maxDepths_eq (m : ℕ) (refs : List Cell) :
    Cell.maxDepths m refs = (refs.map Cell.getMaxDepth).foldl max m := by
  induction refs generalizing m with
  | nil => rw [Cell.maxDepths, List.map_nil, List.foldl_nil]
  | cons c refs ih =>
    have hmax : (if m < c.getMaxDepth then c.getMaxDepth else m) = max m c.getMaxDepth := by
      split <;> omega
    rw [Cell.maxDepths, hmax, ih, List.map_cons, List.foldl_cons]

section
variable (sha256 : Bytes → Digest)

/-- A digest that is written as a text, and read. -/
theorem hexToBytes_sha256Hex (bytes : Bytes) :
    hexToBytes (sha256Hex (fun b => (sha256 b).1) bytes) = .ok (sha256 bytes).1 := by
  rw [sha256Hex_eq, hexToBytes_hexEncode]

theorem Cell.Valid.getMaxDepth_eq {c : Cell} (h : c.Valid) :
    c.getMaxDepth = (cellScheme.summary sha256 c.content).1 := by
  induction h with
  | @mk bits refs isExotic _ _ _ ih =>
    rw [Cell.getMaxDepth, maxDepths_eq, Cell.content_mk, Merkle.Scheme.summary,
      Merkle.Scheme.summaries_eq, List.map_map, List.map_map]
    rw [List.map_congr_left ih]
    obtain _ | ⟨c, refs⟩ := refs
    · rfl
    · rfl

theorem Cell.hashes_cons (c : Cell) (refs : List Cell) : Cell.hashes sha256 (c :: refs)
    = do
      let hash ← c.hash sha256
      let rest ← Cell.hashes sha256 refs
      return hash :: rest := by
  rw [Cell.hashes, Cell.hash]
  simp only [bind_assoc]

theorem hashes_eq {refs : List Cell} {digest : Cell → Digest}
    (h : ∀ c ∈ refs, c.hash sha256 = .ok (digest c).1) :
    Cell.hashes sha256 refs = .ok (refs.map fun c => (digest c).1) := by
  induction refs with
  | nil => rw [Cell.hashes, List.map_nil]
  | cons c refs ih =>
    obtain ⟨hc, h⟩ := List.forall_mem_cons.mp h
    rw [Cell.hashes_cons, hc, ih h]
    rfl

/-- The data of a cell that is valid. -/
theorem getDataWithDescriptors_eq {bits : BitString} {refs : List Cell} {isExotic : Bool}
    (hbits : bits.Exportable) (hlevel : Cell.maxLevels 0 refs = 0) :
    (Cell.mk bits refs isExotic).getDataWithDescriptors = .ok
      (BitVec.ofNat 8 (refs.length + (if isExotic then 1 else 0) * 8)
        :: BitVec.ofNat 8 (bytesFor bits.bits.length + bits.bits.length / 8)
        :: pack (topUp bits.bits)) := by
  have htop : bits.getTopUppedArray = .ok (pack (topUp bits.bits)) :=
    (BitString.getTopUppedArray_eq_ok hbits.fits).mpr
      ⟨hbits.room, BitList.unpack_pack (BitString.topUp_dvd _)⟩
  rw [Cell.getDataWithDescriptors, Cell.bits_mk, htop, Cell.getRefsDescriptor,
    Cell.getBitsDescriptor, Cell.getMaxLevel, hlevel, BitString.length_bits hbits.fits]
  rfl

/-- The representation of a valid cell. -/
theorem getRepr_eq {bits : BitString} {refs : List Cell} {isExotic : Bool}
    (h : (Cell.mk bits refs isExotic).Valid)
    (ih : ∀ c ∈ refs, c.hash sha256 = .ok (cellScheme.digest sha256 c.content).1) :
    (Cell.mk bits refs isExotic).getRepr sha256
      = .ok (cellScheme.preimage sha256 (Cell.mk bits refs isExotic).content) := by
  have hlevel := h.getMaxLevel_eq_zero
  rw [Cell.getMaxLevel] at hlevel
  obtain ⟨hbits, -, hrefs⟩ := h
  have hdepths : refs.flatMap Cell.getMaxDepthAsArray
      = (refs.map fun c => cellScheme.summary sha256 c.content).flatMap
        fun r => Cell.depthBytes r.1 := by
    rw [List.flatMap_map]
    exact List.flatMap_congr fun c hc => by
      rw [Cell.getMaxDepthAsArray, (hrefs c hc).getMaxDepth_eq sha256]
  rw [Cell.getRepr, getDataWithDescriptors_eq hbits hlevel, hashes_eq sha256 ih, hdepths,
    Cell.content_mk, Merkle.Scheme.preimage]
  simp only [Fault.ok_bind, Trees.Rose.children_node, Trees.Rose.label_node, List.map_map]
  show _ = Except.ok (encodeNode _ _)
  rw [encodeNode, List.length_map, List.map_map]
  rfl

/-- The hash of a valid cell is the digest of its content. -/
theorem Cell.Valid.hash_eq {c : Cell} (h : c.Valid) :
    c.hash sha256 = .ok (cellScheme.digest sha256 c.content).1 := by
  induction h with
  | @mk bits refs isExotic hbits hlen hrefs ih =>
    rw [Cell.hash, getRepr_eq sha256 ⟨hbits, hlen, hrefs⟩ ih, Fault.ok_bind, hexToBytes_sha256Hex,
      Merkle.Scheme.digest_eq]

theorem Cell.Valid.getRepr_eq_preimage {c : Cell} (h : c.Valid) :
    c.getRepr sha256 = .ok (cellScheme.preimage sha256 c.content) := by
  obtain ⟨bits, refs, isExotic⟩ := c
  exact getRepr_eq sha256 h fun c hc => Cell.Valid.hash_eq sha256 (h.refs c hc)

end

/-! ## The hash names the content -/

/-- `c` is `d`, or stands behind a reference of it. -/
inductive Cell.Part (c : Cell) : Cell → Prop
  | refl : Part c c
  | ref {r d : Cell} (h : Part c r) (hr : r ∈ d.refs) : Part c d

theorem Cell.Part.trans {c d e : Cell} (h : c.Part d) (h' : d.Part e) : c.Part e := by
  induction h' with
  | refl => exact h
  | ref _ hr ih => exact .ref ih hr

theorem Cell.Valid.part {c d : Cell} (hd : d.Valid) (h : c.Part d) : c.Valid := by
  induction h with
  | refl => exact hd
  | ref _ hr ih => exact ih (hd.refs _ hr)

theorem exists_part {t : Rose CellData} {c : Cell} (h : Trees.Within t c.content) :
    ∃ p : Cell, p.Part c ∧ p.content = t := by
  generalize hu : c.content = u at h
  induction h generalizing c with
  | refl => exact ⟨c, .refl, hu⟩
  | child _ ht ih =>
    rw [← hu, Cell.children_content] at ht
    obtain ⟨r, hr, hrt⟩ := List.mem_map.mp ht
    obtain ⟨p, hp, hpt⟩ := ih hrt
    exact ⟨p, .ref hp hr, hpt⟩

theorem Cell.Part.within {p c : Cell} (h : p.Part c) : Trees.Within p.content c.content := by
  induction h with
  | refl => exact .refl
  | @ref r d _ hr ih =>
    refine .child ih ?_
    rw [Cell.children_content]
    exact List.mem_map_of_mem hr

theorem Cell.Part.cases_iff {p c : Cell} : p.Part c ↔ p = c ∨ ∃ r ∈ c.refs, p.Part r := by
  constructor
  · rintro (_ | ⟨h, hr⟩)
    · exact .inl rfl
    · exact .inr ⟨_, hr, h⟩
  · rintro (rfl | ⟨r, hr, h⟩)
    · exact .refl
    · exact .ref h hr

/-- Parts of two cells with different representations and one digest. -/
def Collision (sha256 : Bytes → Digest) (c d : Cell) : Prop :=
  ∃ (p q : Cell) (x y : Bytes), p.Part c ∧ q.Part d ∧ p.getRepr sha256 = .ok x ∧
    q.getRepr sha256 = .ok y ∧ x ≠ y ∧ sha256 x = sha256 y

theorem Cell.Valid.eq_or_collision {sha256 : Bytes → Digest} {c d : Cell} (hc : c.Valid)
    (hd : d.Valid) (h : cellScheme.digest sha256 c.content = cellScheme.digest sha256 d.content) :
    c.content = d.content ∨ Collision sha256 c d := by
  refine (Merkle.Scheme.eq_or_collision hc.all hd.all h).imp id ?_
  rintro ⟨t, u, ht, hu, hne, heq⟩
  obtain ⟨p, hp, rfl⟩ := exists_part ht
  obtain ⟨q, hq, rfl⟩ := exists_part hu
  exact ⟨p, q, _, _, hp, hq, (hc.part hp).getRepr_eq_preimage sha256,
    (hd.part hq).getRepr_eq_preimage sha256, hne, heq⟩

/-- **The hash of a cell names its content.** Cells with one content have one hash; of two cells
with one hash, the contents are the same, or parts of them are a collision of SHA-256. -/
theorem content_eq_or_collision (sha256 : Bytes → Digest) {c d : Cell} (hc : c.Valid)
    (hd : d.Valid) : (c.content = d.content → c.hash sha256 = d.hash sha256) ∧
      (c.hash sha256 = d.hash sha256 → c.content = d.content ∨ Collision sha256 c d) := by
  rw [hc.hash_eq, hd.hash_eq]
  exact ⟨fun h => by rw [h], fun h =>
    hc.eq_or_collision hd (Subtype.val_injective (Except.ok.inj h))⟩

theorem exportable_ofLength (n : ℕ) : (BitString.ofLength n).Exportable where
  fits := BitString.fits_ofLength n
  room := by simp [bytesFor, BitString.ofLength]
  short := Nat.zero_le _

/-- The first bytes, as a digest. -/
def firstBytes (bytes : Bytes) : Digest := ⟨(bytes ++ List.replicate 32 0).take 32, by simp⟩

/-- A cell with three bits. -/
def sampleLeaf : Cell := .mk ⟨[0xA0], 3, 0, 8⟩ [] false

/-- A cell with the bits of the first byte of an array, and a reference. -/
def sampleCell (array : Bytes) : Cell :=
  .mk ⟨array, 8, 0, 8 * array.length⟩ [sampleLeaf] false

theorem valid_sampleCell {array : Bytes} (h : 1 ≤ array.length) : (sampleCell array).Valid := by
  have hleaf : sampleLeaf.Valid :=
    .mk ⟨show 3 ≤ min (8 + 1) (8 * 1) by decide, by decide, by decide⟩ (by decide)
      (List.forall_mem_nil _)
  have hfits : 8 ≤ min (8 * array.length + 1) (8 * array.length) := by omega
  have hroom : bytesFor 8 * 8 ≤ min (8 * array.length + 1) (8 * array.length) := hfits
  exact .mk ⟨hfits, hroom, show 8 ≤ 1023 by decide⟩ (by decide)
    (List.forall_mem_singleton.mpr hleaf)

/-- The size of the array is not hashed; cells with another byte have another hash, or there is a
collision. -/
theorem content_eq_sample :
    (sampleCell [0xFF]).hash firstBytes = (sampleCell [0xFF, 0]).hash firstBytes ∧
    ((sampleCell [0xFF]).hash firstBytes = (sampleCell [0xFE]).hash firstBytes →
      (sampleCell [0xFF]).content = (sampleCell [0xFE]).content ∨
        Collision firstBytes (sampleCell [0xFF]) (sampleCell [0xFE])) :=
  ⟨(content_eq_or_collision firstBytes (valid_sampleCell (by decide))
      (valid_sampleCell (by decide))).1 rfl,
    (content_eq_or_collision firstBytes (valid_sampleCell (by decide))
      (valid_sampleCell (by decide))).2⟩

end TonWallet.Cells
