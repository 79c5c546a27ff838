import TonWallet.Cells.Builder
import TonWallet.Encoding.Utf8

/-!
# What is stored is loaded again

A `Item` is a value that a caller stores in a cell, a `Shape` is what a caller says
to load one: its kind, and its width where the bits do not tell it.

* `Item.store_spec`: an item that is stored is one that fits, and it appends its
  bits and its references.
* `Item.load_spec`: an item is loaded from the bits and references it was stored as.
* `loadAll_storeAll`: whatever list of items is stored in a cell is loaded again
  in the same order, and then the slice is at its end.
-/

namespace TonWallet.Cells

open TonWallet.Encoding
open BitList (unpack)

/-- A value, as it is stored. -/
inductive Item where
  | bit (b : Bool)
  | bits (ba : List Bool)
  | uint (number : ℤ) (bitLength : ℕ)
  | int (number : ℤ) (bitLength : ℕ)
  | coins (amount : ℤ)
  | bytes (number : Bytes)
  | string (str : { s : Text // Paired s })
  | address (a : Option { a : Address // a.Valid })
  | bitString (bs : { bs : BitString // bs.Fits })
  | ref (c : Cell)
  | refs (cells : List Cell)

/-- What is said to load a value. Lengths are in bits, as `CellSlice` has them. -/
inductive Shape where
  | bit
  | bits (length : ℕ)
  | uint (length : ℕ)
  | int (length : ℕ)
  | coins
  | bytes (length : ℕ)
  | string (length : ℕ)
  | address
  | ref
  | refs (count : ℕ)

/-- A value, as it is loaded. -/
inductive Value where
  | bit (b : Bool)
  | bits (ba : List Bool)
  | number (z : ℤ)
  | bytes (b : Bytes)
  | string (s : Text)
  | address (a : Option Address)
  | ref (c : Cell)
  | refs (cells : List Cell)

/-- An address without its flags. A cell has no room for them. -/
def Address.raw (a : Address) : Address where
  wc := a.wc
  hashPart := a.hashPart
  isTestOnly := false
  isUserFriendly := false
  isBounceable := false
  isUrlSafe := false

namespace Item

def store (c : Cell) : Item → Except Fault Cell
  | bit b => CellBuilder.storeBit c b
  | bits ba => CellBuilder.storeBits c ba
  | uint number bitLength => CellBuilder.storeUint c number bitLength
  | int number bitLength => CellBuilder.storeInt c number bitLength
  | coins amount => CellBuilder.storeCoins c amount
  | bytes number => CellBuilder.storeBytes c number
  | string str => CellBuilder.storeString c str.1
  | address a => CellBuilder.storeAddress c (a.map Subtype.val)
  | bitString bs => CellBuilder.storeBitString c bs.1
  | ref r => CellBuilder.storeRef c r
  | refs cells => CellBuilder.storeRefs c cells

/-- The bits of an item. -/
def encode : Item → List Bool
  | bit b => [b]
  | bits ba => ba
  | uint number bitLength => BitList.ofNat bitLength number.toNat
  | int number bitLength => BitString.intBits bitLength number
  | coins amount => BitString.coinsBits amount.toNat
  | bytes number => unpack number
  | string str => unpack (toByteArray str.1)
  | address a => BitString.addressBits (a.map Subtype.val)
  | bitString bs => bs.1.remaining
  | ref _ => []
  | refs _ => []

/-- The references of an item. -/
def cells : Item → List Cell
  | ref c => [c]
  | refs cells => cells
  | _ => []

/-- The items that fit into their width. -/
def Storable : Item → Prop
  | uint number bitLength => 0 ≤ number ∧ number < 2 ^ bitLength
  | int number bitLength => BitString.IntFits bitLength number
  | coins amount => 0 ≤ amount ∧ amount < 2 ^ 120
  | _ => True

def shape : Item → Shape
  | bit _ => .bit
  | bits ba => .bits ba.length
  | uint _ bitLength => .uint bitLength
  | int _ bitLength => .int bitLength
  | coins _ => .coins
  | bytes number => .bytes (8 * number.length)
  | string str => .string (8 * (toByteArray str.1).length)
  | address _ => .address
  | bitString bs => .bits bs.1.remaining.length
  | ref _ => .ref
  | refs cells => .refs cells.length

def value : Item → Value
  | bit b => .bit b
  | bits ba => .bits ba
  | uint number _ => .number number
  | int number _ => .number number
  | coins amount => .number amount
  | bytes number => .bytes number
  | string str => .string str.1
  | address a => .address (a.map fun a => a.1.raw)
  | bitString bs => .bits bs.1.remaining
  | ref c => .ref c
  | refs cells => .refs cells

end Item

/-- The loader of a shape. -/
def Shape.load (s : CellSlice) : Shape → Except Fault (Value × CellSlice)
  | bit => do
    let (b, s) ← s.loadBit
    return (.bit b, s)
  | bits length => do
    let (result, s) ← s.loadBits length
    return (.bits result.bits, s)
  | uint length => do
    let (i, s) ← s.loadUint length
    return (.number i, s)
  | int length => do
    let (i, s) ← s.loadInt length
    return (.number i, s)
  | coins => do
    let (i, s) ← s.loadCoins
    return (.number i, s)
  | bytes length => do
    let (b, s) ← s.loadBytes length
    return (.bytes b, s)
  | string length => do
    let (str, s) ← s.loadString length
    return (.string str, s)
  | address => do
    let (a, s) ← s.loadAddress
    return (.address a, s)
  | ref => do
    let (c, s) ← s.loadRef
    return (.ref c, s)
  | refs count => do
    let (cells, s) ← s.loadRefs count
    return (.refs cells, s)

def storeAll (items : List Item) (c : Cell) : Except Fault Cell := items.foldlM Item.store c

/-- The values of the shapes, loaded in a row. -/
def loadAll : List Shape → CellSlice → Except Fault (List Value × CellSlice)
  | [], s => .ok ([], s)
  | shape :: shapes, s => do
    let (v, s) ← shape.load s
    let (vs, s) ← loadAll shapes s
    return (v :: vs, s)

/-! ## Stored -/

/-- A signed number is stored only if it fits. -/
theorem storeInt_eq_ok {c c' : Cell} {z : ℤ} {w : ℕ} (h : CellBuilder.storeInt c z w = .ok c') :
    BitString.IntFits w z ∧ CellBuilder.withBits c (fun bits => bits.writeInt z w) = .ok c' := by
  rw [CellBuilder.storeInt] at h
  split at h
  · rename_i hz
    refine ⟨?_, h⟩
    cases w with
    | zero => exact absurd hz.2 (not_lt.mpr hz.1)
    | succ w => exact ⟨Nat.succ_pos w, hz⟩
  · cases h

/-- An item that is stored fits, and its bits and references are appended. -/
theorem Item.store_spec {c c' : Cell} {f : Item} (h : f.store c = .ok c') :
    f.Storable ∧ Stored c f.encode f.cells c' := by
  cases f with
  | bit b => exact ⟨trivial, CellBuilder.stored_withBits (bind_pure _).symm
      (CellBuilder.of_checkBitsOverflow h)⟩
  | bits ba => exact ⟨trivial, CellBuilder.stored_withBits rfl (CellBuilder.of_checkBitsOverflow h)⟩
  | uint number bitLength =>
    obtain ⟨_, -, h⟩ := Fault.bind_eq_ok.mp (CellBuilder.of_checkBitsOverflow h)
    obtain ⟨bits, hbits, -⟩ := CellBuilder.withBits_eq_ok.mp h
    obtain ⟨n, rfl, hn, -⟩ := BitString.writeUint_eq_ok hbits
    exact ⟨⟨Int.natCast_nonneg n, by exact_mod_cast hn⟩,
      CellBuilder.stored_withBits (BitString.writeUint_eq hn) h⟩
  | int number bitLength =>
    obtain ⟨hfits, h⟩ := storeInt_eq_ok h
    exact ⟨hfits, CellBuilder.stored_withBits (BitString.writeInt_eq hfits) h⟩
  | coins amount =>
    replace h : CellBuilder.storeCoins c amount = .ok c' := h
    rw [CellBuilder.storeCoins] at h
    obtain ⟨bits, hbits, -⟩ := CellBuilder.withBits_eq_ok.mp h
    obtain ⟨n, rfl, hn⟩ := BitString.writeCoins_eq_ok hbits
    exact ⟨⟨Int.natCast_nonneg n, by exact_mod_cast hn⟩,
      CellBuilder.stored_withBits (BitString.writeCoins_eq hn) h⟩
  | bytes number => exact ⟨trivial, CellBuilder.stored_withBits (BitString.writeBytes_eq _ _)
      (CellBuilder.of_checkBitsOverflow h)⟩
  | string str => exact ⟨trivial, CellBuilder.stored_withBits (BitString.writeBytes_eq _ _)
      (CellBuilder.of_checkBitsOverflow h)⟩
  | address a => exact ⟨trivial, CellBuilder.stored_withBits (BitString.writeAddress_eq _ _)
      (CellBuilder.of_checkBitsOverflow h)⟩
  | bitString bs => exact ⟨trivial, CellBuilder.stored_withBits (BitString.writeBitString_eq bs.2)
      (CellBuilder.of_checkBitsOverflow h)⟩
  | ref r =>
    obtain ⟨_, -, h⟩ := Fault.bind_eq_ok.mp h
    obtain rfl := Except.ok.inj h
    exact ⟨trivial, rfl, rfl, rfl⟩
  | refs cells =>
    obtain ⟨_, -, h⟩ := Fault.bind_eq_ok.mp h
    obtain rfl := Except.ok.inj h
    exact ⟨trivial, rfl, rfl, rfl⟩

theorem storeAll_spec {items : List Item} {c c' : Cell} (h : storeAll items c = .ok c') :
    (∀ f ∈ items, f.Storable) ∧
      Stored c (items.flatMap Item.encode) (items.flatMap Item.cells) c' := by
  induction items generalizing c with
  | nil =>
    obtain rfl := Except.ok.inj h
    exact ⟨List.forall_mem_nil _, Stored.refl c⟩
  | cons f items ih =>
    obtain ⟨c₁, hf, h⟩ := Fault.bind_eq_ok.mp h
    obtain ⟨hstorable, hstored⟩ := Item.store_spec hf
    obtain ⟨hall, hrest⟩ := ih h
    exact ⟨List.forall_mem_cons.mpr ⟨hstorable, hall⟩, hstored.trans hrest⟩

/-! ## Loaded -/

namespace CellSlice

variable {s : CellSlice} {rest : List Bool} {refs : List Cell}

/-- The hash of an address, loaded as a number and written as a text. -/
theorem hashText_eq {a : Address} (h : a.Valid) :
    ascii (List.replicate (64 - (Nat.toDigits 16 (BitList.value (unpack a.hashPart))).length) '0'
      ++ Nat.toDigits 16 (BitList.value (unpack a.hashPart))) = bytesToHex a.hashPart := by
  have hlt := BitList.value_lt (unpack a.hashPart)
  rw [BitList.length_unpack, h.hashPart] at hlt
  rw [Digits.pad_toDigits (by decide) (by decide) (show _ < 16 ^ 64 from hlt), bytesToHex_eq,
    ← fixed_sixteen, h.hashPart]

theorem Holds.loadCoins {n : ℕ} (hn : n < 2 ^ 120)
    (h : s.Holds (BitString.coinsBits n ++ rest) refs) : ∃ s',
      s.loadCoins = .ok ((n : ℤ), s') ∧ s'.Holds rest refs := by
  have hsize : n.size ≤ 120 := Nat.size_le.mpr hn
  set k := (n.size + 7) / 8 with hk
  rw [BitString.coinsBits, ← hk, List.append_assoc] at h
  have hlen := h.loadUint (show k < 2 ^ 4 by omega)
  have h₁ := h.skip
  rw [BitList.length_ofNat] at h₁
  have hleq : s.loadUintLEQ 15 = .ok ((k : ℤ), { s with bits := s.bits.skip 4 }) := by
    rw [loadUintLEQ, show Nat.size 15 = 4 by decide, hlen]
    simp only [Fault.ok_bind]
    rw [Fault.throwIf_bind (by omega)]
    rfl
  rw [CellSlice.loadCoins, loadVarUInteger, hleq]
  simp only [Fault.ok_bind]
  by_cases hzero : k = 0
  · have hn0 : n = 0 := Nat.size_eq_zero.mp (by omega)
    subst hn0
    refine ⟨_, if_pos (by omega), ?_⟩
    rwa [hzero] at h₁
  · have h₂ := h₁.skip
    have hload := h₁.loadUint (hk ▸ BitString.lt_two_pow_size n)
    rw [BitList.length_ofNat] at h₂
    refine ⟨_, ?_, h₂⟩
    rw [if_neg (by omega), show ((k : ℤ) * 8).toNat = k * 8 by omega]
    exact hload

theorem Holds.loadAddress {a : Address} (ha : a.Valid)
    (h : s.Holds (BitString.addressBits (some a) ++ rest) refs) : ∃ s',
      s.loadAddress = .ok (some a.raw, s') ∧ s'.Holds rest refs := by
  rw [BitString.addressBits, List.append_assoc, List.append_assoc] at h
  have h₀ : s.Holds (BitList.ofNat 2 2 ++ ([false] ++ (BitString.intBits 8 a.wc.toInt
      ++ (unpack a.hashPart ++ rest)))) refs := h
  have htag := h₀.loadUint (w := 2) (n := 2) (by decide)
  obtain ⟨r, hr, -⟩ := h₀.loadBits
  have h₁ := h₀.skip
  obtain ⟨r', hr', -⟩ := h₁.loadBits
  have h₂ := h₁.skip
  have hwc := h₂.loadInt (BitString.intFits_byte a.wc)
  have h₃ := h₂.skip
  rw [show (BitString.intBits 8 a.wc.toInt).length = 8 from BitList.length_ofNat _ _] at h₃
  have hlen : (unpack a.hashPart).length = 256 := by rw [BitList.length_unpack, ha.hashPart]
  have h₄ := h₃
  rw [← BitList.ofNat_value (unpack a.hashPart), hlen] at h₄
  have hhash := h₄.loadUint (by rw [← hlen]; exact BitList.value_lt _)
  have h₅ := h₃.skip
  rw [hlen] at h₅
  have hr : s.loadBits 2 = _ := hr
  have hr' : CellSlice.loadBits _ 1 = _ := hr'
  refine ⟨_, ?_, h₅⟩
  rw [CellSlice.loadAddress, htag]
  simp only [Fault.ok_bind]
  rw [if_neg (by decide), loadAddressParts, hr]
  simp only [Fault.ok_bind]
  rw [hr']
  simp only [Fault.ok_bind, hwc, hhash, Int.toNat_natCast, hashText_eq ha, ha.ofText_raw]
  rfl

theorem Holds.loadRefs {cells : List Cell} (h : s.Holds rest (cells ++ refs)) :
    s.loadRefs cells.length = .ok (cells, { s with refs }) := by
  induction cells generalizing s with
  | nil =>
    rw [← show s.refs = refs from h.refs]
    rfl
  | cons c cells ih =>
    have hload : s.loadRef = .ok (c, { s with refs := cells ++ refs }) := by
      rw [CellSlice.loadRef, show s.refs = c :: (cells ++ refs) from h.refs]
    have ih := ih (s := { s with refs := cells ++ refs })
      ⟨h.fits, h.cursor, h.remaining, rfl⟩
    rw [List.length_cons, CellSlice.loadRefs, hload]
    simp only [Fault.ok_bind, ih]
    rfl

theorem Holds.setRefs {cells : List Cell} (h : s.Holds rest cells) (refs : List Cell) :
    CellSlice.Holds { s with refs } rest refs :=
  ⟨h.fits, h.cursor, h.remaining, rfl⟩

end CellSlice

/-- An item is loaded, and the slice holds what was behind it. -/
theorem Item.load_spec {s : CellSlice} {i : Item} (hi : i.Storable) {rest : List Bool}
    {refs : List Cell} (h : s.Holds (i.encode ++ rest) (i.cells ++ refs)) :
    ∃ s', i.shape.load s = .ok (i.value, s') ∧ s'.Holds rest refs := by
  cases i with
  | bit b =>
    refine ⟨_, ?_, h.skip⟩
    rw [Item.shape, Shape.load, CellSlice.loadBit, show 1 = (Item.bit b).encode.length from rfl,
      h.check, BitString.remaining_cons h.remaining]
    rfl
  | bits ba =>
    obtain ⟨r, hload, hr, -⟩ := h.loadBits
    refine ⟨_, ?_, h.skip⟩
    rw [Item.shape, Shape.load, show ba = (Item.bits ba).encode from rfl, hload]
    simp only [Fault.ok_bind, hr]
    rfl
  | uint number bitLength =>
    obtain ⟨n, rfl⟩ := Int.eq_ofNat_of_zero_le hi.1
    have hload := CellSlice.Holds.loadUint (by exact_mod_cast hi.2) h
    have hskip := h.skip
    rw [Item.encode, BitList.length_ofNat] at hskip
    refine ⟨_, ?_, hskip⟩
    rw [Item.shape, Shape.load, hload]
    rfl
  | int number bitLength =>
    have hskip := h.skip
    rw [Item.encode, BitString.intBits, BitList.length_ofNat] at hskip
    refine ⟨_, ?_, hskip⟩
    rw [Item.shape, Shape.load, CellSlice.Holds.loadInt hi h]
    rfl
  | coins amount =>
    obtain ⟨n, rfl⟩ := Int.eq_ofNat_of_zero_le hi.1
    obtain ⟨s', hload, hs'⟩ := CellSlice.Holds.loadCoins (by exact_mod_cast hi.2) h
    refine ⟨s', ?_, hs'⟩
    rw [Item.shape, Shape.load, hload]
    rfl
  | bytes number =>
    obtain ⟨r, hload, hr⟩ := CellSlice.Holds.loadBytes h
    have hskip := h.skip
    rw [Item.encode, BitList.length_unpack] at hskip
    refine ⟨_, ?_, hskip⟩
    rw [Item.shape, Shape.load, CellSlice.loadBytes, hload]
    simp only [Fault.ok_bind, hr]
    rfl
  | string str =>
    obtain ⟨r, hload, hr⟩ := CellSlice.Holds.loadBytes h
    have hskip := h.skip
    rw [Item.encode, BitList.length_unpack] at hskip
    refine ⟨_, ?_, hskip⟩
    rw [Item.shape, Shape.load, CellSlice.loadString, hload]
    simp only [Fault.ok_bind, hr, str.2.decodeToString_toByteArray]
    rfl
  | address a =>
    cases a with
    | none =>
      have h₀ : s.Holds (BitList.ofNat 2 0 ++ rest) refs := h
      refine ⟨_, ?_, h₀.skip⟩
      rw [Item.shape, Shape.load, CellSlice.loadAddress, h₀.loadUint (by decide)]
      simp only [Fault.ok_bind]
      rw [if_pos Nat.cast_zero, CellSlice.skipBits, show 2 = (BitList.ofNat 2 0).length from rfl,
        h₀.check]
      rfl
    | some a =>
      obtain ⟨s', hload, hs'⟩ := CellSlice.Holds.loadAddress a.2 h
      refine ⟨s', ?_, hs'⟩
      rw [Item.shape, Shape.load, hload]
      rfl
  | bitString bs =>
    obtain ⟨r, hload, hr, -⟩ := h.loadBits
    refine ⟨_, ?_, h.skip⟩
    rw [Item.shape, Shape.load, show bs.1.remaining = (Item.bitString bs).encode from rfl, hload]
    simp only [Fault.ok_bind, hr]
    rfl
  | ref c =>
    refine ⟨_, ?_, h.setRefs refs⟩
    rw [Item.shape, Shape.load, CellSlice.loadRef, show s.refs = c :: refs from h.refs]
    rfl
  | refs cells =>
    refine ⟨_, ?_, h.setRefs refs⟩
    rw [Item.shape, Shape.load, show cells = (Item.refs cells).cells from rfl,
      CellSlice.Holds.loadRefs h]
    rfl

theorem loadAll_spec {s : CellSlice} {items : List Item} (hi : ∀ i ∈ items, i.Storable)
    {rest : List Bool} {refs : List Cell}
    (h : s.Holds (items.flatMap Item.encode ++ rest) (items.flatMap Item.cells ++ refs)) :
    ∃ s', loadAll (items.map Item.shape) s = .ok (items.map Item.value, s') ∧
      s'.Holds rest refs := by
  induction items generalizing s with
  | nil => exact ⟨s, rfl, h⟩
  | cons i items ih =>
    obtain ⟨hstorable, hi⟩ := List.forall_mem_cons.mp hi
    rw [List.flatMap_cons, List.flatMap_cons, List.append_assoc, List.append_assoc] at h
    obtain ⟨s₁, hload, hs₁⟩ := Item.load_spec hstorable h
    obtain ⟨s', hall, hs'⟩ := ih hi hs₁
    refine ⟨s', ?_, hs'⟩
    rw [List.map_cons, loadAll, hload]
    simp only [Fault.ok_bind, hall]
    rfl

/-- A slice of a cell that was built holds what was stored. -/
theorem Stored.holds {c : Cell} {ba : List Bool} {refs : List Cell}
    (h : Stored Cell.empty ba refs c) : (CellSlice.beginParse c).Holds ba refs := by
  have ha := BitString.writeBitArray_appends h.bits
  have hread : c.bits.readCursor = 0 := ha.readCursor
  have hwrite : c.bits.writeCursor = ba.length := by
    rw [ha.writeCursor]
    exact Nat.zero_add _
  refine ⟨BitString.fits_of_writeBitArray (BitString.fits_ofLength 1023) h.bits, ?_, ?_, h.refs⟩
  · show c.bits.readCursor + _ = c.bits.writeCursor
    rw [hread, hwrite, Nat.zero_add]
  · show c.bits.remaining = ba
    rw [BitString.remaining, hread, List.drop_zero, ha.bits]
    rfl

/-- **Whatever is stored in a cell is loaded again**, item by item in the same order; then the slice
is at its end, and no reference is left. -/
theorem loadAll_storeAll {items : List Item} {c : Cell} (h : storeAll items Cell.empty = .ok c) :
    ∃ s, loadAll (items.map Item.shape) (CellSlice.beginParse c) = .ok (items.map Item.value, s) ∧
      s.endParse = .ok () ∧ s.refs = [] := by
  obtain ⟨hi, hstored⟩ := storeAll_spec h
  have hholds := hstored.holds
  rw [← List.append_nil (items.flatMap Item.encode),
    ← List.append_nil (items.flatMap Item.cells)] at hholds
  obtain ⟨s, hload, hs⟩ := loadAll_spec hi hholds
  exact ⟨s, hload, Fault.throwIf_eq_ok.mpr (not_not.mpr hs.cursor), hs.refs⟩

/-- A message of a thousand nanocoins with a comment. -/
def sampleItems : List Item :=
  [.uint 0x10 6, .address none, .coins 1000, .int (-1) 32, .string ⟨text "gift", by decide⟩,
    .ref Cell.empty]

theorem exists_sampleCell : ∃ c, storeAll sampleItems Cell.empty = .ok c := by
  have hok : (storeAll sampleItems Cell.empty).isOk = true := by decide +kernel
  cases h : storeAll sampleItems Cell.empty with
  | ok c => exact ⟨c, rfl⟩
  | error e =>
    rw [h] at hok
    cases hok

theorem loadAll_sampleItems : ∃ c s, loadAll (sampleItems.map Item.shape) (CellSlice.beginParse c)
    = .ok (sampleItems.map Item.value, s) ∧ s.endParse = .ok () ∧ s.refs = [] :=
  exists_sampleCell.imp fun _ h => loadAll_storeAll h

end TonWallet.Cells
