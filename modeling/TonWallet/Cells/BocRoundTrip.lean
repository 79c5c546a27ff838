import TonWallet.Cells.BocReader

/-!
# A bag of cells, written and read

* `deserializeBoc_toBoc`: a bag that is written is read as a cell of the same content,
  with all options, and is written again as the same bytes.
* `toBoc_content`: only the content of a cell counts for the bytes of its bag.
-/

namespace TonWallet.Cells

open TonWallet.Encoding
open BitList (unpack pack)
open BitString (bytesFor topUp)
open Trees (Rose Within)

/-! ## The header -/

theorem copyOfRange_append {a rest : Bytes} {n : ℕ} (h : a.length = n) :
    copyOfRange (a ++ rest) n (a ++ rest).length = .ok rest := by
  rw [copyOfRange_suffix (by simp [h]), List.drop_left' h]

theorem copyOfRange_cons (b : Byte) (rest : Bytes) :
    copyOfRange (b :: rest) 1 (b :: rest).length = .ok rest := copyOfRange_append (a := [b]) rfl

theorem readNumber_bigEndian {w n : ℕ} (hw : w ≤ 3) (hn : n < 256 ^ w) (rest : Bytes) :
    readNumber w (bigEndian w n ++ rest) = .ok ((n : ℤ), rest) := by
  rw [readNumber, readNBytesFromArray_bigEndian hw hn, Fault.ok_bind,
    copyOfRange_append (length_bigEndian w n)]
  rfl

theorem readNumbers_bigEndian {w : ℕ} (hw : w ≤ 3) {l : List ℕ} (h : ∀ i ∈ l, i < 256 ^ w)
    (rest : Bytes) : readNumbers w l.length (l.flatMap (bigEndian w) ++ rest)
      = .ok (l.map Nat.cast, rest) := by
  induction l with
  | nil => rfl
  | cons i l ih =>
    obtain ⟨hi, h⟩ := List.forall_mem_cons.mp h
    rw [List.length_cons, List.flatMap_cons, List.append_assoc, readNumbers,
      readNumber_bigEndian hw hi, Fault.ok_bind]
    simp only [ih h, Fault.ok_bind]
    rfl

theorem readPrefix_reach : ∀ a b d : Bool, ∀ m < 4,
    (readPrefix reachBocMagicPrefix (flagsByte a b d m)).hasIdx = (if a then 128 else 0) ∧
    (readPrefix reachBocMagicPrefix (flagsByte a b d m)).hashCrc32 = (if b then 64 else 0) ∧
    (readPrefix reachBocMagicPrefix (flagsByte a b d m)).sizeBytes = 1 := by
  decide

theorem checkCrc_bagBytes {hashCrc32 : Bool} {n : ℕ} (hn : n = if hashCrc32 then 64 else 0)
    (serArr : Bytes) : checkCrc n (serArr ++ if hashCrc32 then
        getCRC32ChecksumAsBytesReversed serArr else [])
      (if hashCrc32 then getCRC32ChecksumAsBytesReversed serArr else []) = .ok [] := by
  cases hashCrc32 with
  | false =>
    rw [checkCrc, if_neg (by simp [hn])]
    rfl
  | true =>
    have hlen := length_getCRC32ChecksumAsBytesReversed serArr
    simp only [if_true] at hn ⊢
    rw [checkCrc, if_pos (by omega), Fault.throwIf_bind (by simp [hlen]),
      show ((serArr ++ getCRC32ChecksumAsBytesReversed serArr).length : ℤ) - 4
        = (serArr.length : ℕ) by rw [List.length_append, hlen]; omega,
      copyOfRange_prefix _ (by simp), List.take_left, Fault.ok_bind,
      show (4 : ℤ) = (4 : ℕ) from rfl, copyOfRange_prefix _ hlen.ge,
      List.take_of_length_le hlen.le, Fault.ok_bind, Fault.throwIf_bind (by simp),
      copyOfRange_suffix hlen.ge, List.drop_of_length_le hlen.le]

theorem readIndex_offsets (hasIdx : Bool) {n off : ℕ} (hn : n = if hasIdx then 128 else 0)
    (hoff : off ≤ 2) {l : List ℕ} (hlen : l.length < 256) (h : ∀ i ∈ l, i < 256 ^ off)
    (rest : Bytes) : ∃ index, readIndex n off l.length
      ((if hasIdx then l.flatMap (bigEndian off) else []) ++ rest) = .ok (index, rest) := by
  rw [readIndex, Fault.throwIf_bind (by omega)]
  cases hasIdx with
  | false =>
    rw [if_neg (by simp [hn])]
    exact ⟨_, rfl⟩
  | true =>
    have hsize : (l.flatMap (bigEndian off)).length = off * l.length := by
      clear hlen h
      induction l with
      | nil => rfl
      | cons i l ih => rw [List.flatMap_cons, List.length_append, ih, length_bigEndian,
          List.length_cons, Nat.mul_succ, Nat.add_comm]
    have hmul : intMul off l.length = (off * l.length : ℕ) := by
      have hle : off * l.length ≤ 2 * 255 := Nat.mul_le_mul hoff (by omega)
      rw [intMul, ← Nat.cast_mul, Int.bmod_eq_of_le (by omega) (by omega)]
    simp only [if_true] at hn ⊢
    rw [if_pos (by omega), hmul, Fault.throwIf_bind (by rw [List.length_append, hsize]; omega),
      Int.toNat_natCast, readNumbers_bigEndian (by omega) h]
    exact ⟨_, rfl⟩

/-- The header of a bag that was written. -/
theorem parseBocHeader_bocBytes (hasIdx hashCrc32 hasCacheBits : Bool) {flags : ℕ}
    (hflags : flags < 4) {records : List Bytes} (hn : records.length < 256)
    (hshort : ∀ record ∈ records, record.length ≤ 137) :
    ∃ header, parseBocHeader (bocBytes hasIdx hashCrc32 hasCacheBits flags records) = .ok header ∧
      header.sizeBytes = 1 ∧ header.cellsNum = records.length ∧ header.rootList = [0] ∧
      header.cellsData = records.flatten := by
  obtain ⟨hidx, hcrc, hsizeBytes⟩ := readPrefix_reach hasIdx hashCrc32 hasCacheBits flags hflags
  set flag := flagsByte hasIdx hashCrc32 hasCacheBits flags with hflag
  set size := records.flatten.length with hsize
  set off := offsetBytesFor size with hoff
  have hfull := length_flatten_le hshort
  have hoff1 : 1 ≤ off := Nat.le_max_right _ _
  have hoff2 : off ≤ 2 := (offsetBytesFor_le (by decide)).mpr (show _ < 65536 by omega)
  have hlt : size < 256 ^ off := lt_offsetBytesFor size
  have hoffsets : ∀ i ∈ offsets 0 records, i < 256 ^ off := fun i hi =>
    ((offsets_le 0 records i hi).trans_eq (Nat.zero_add _)).trans_lt hlt
  set idx := if hasIdx then (offsets 0 records).flatMap (bigEndian off) else [] with hidxs
  set crc := if hashCrc32 then getCRC32ChecksumAsBytesReversed
    (bagBytes hasIdx hashCrc32 hasCacheBits flags records) else [] with hcrcs
  obtain ⟨index, hindex⟩ := readIndex_offsets hasIdx hidx hoff2
    (by rwa [length_offsets]) hoffsets (records.flatten ++ crc)
  rw [length_offsets, ← hidxs] at hindex
  obtain ⟨tail, htail⟩ : ∃ tail, tail = bigEndian 1 records.length ++ (bigEndian 1 1 ++
    (bigEndian 1 0 ++ (bigEndian off size ++ (bigEndian 1 0
      ++ (idx ++ (records.flatten ++ crc)))))) := ⟨_, rfl⟩
  have hinput : bocBytes hasIdx hashCrc32 hasCacheBits flags records
      = reachBocMagicPrefix ++ (flag :: BitVec.ofNat 8 off :: tail) := by
    rw [bocBytes, ← hcrcs, bagBytes, htail]
    simp only [← hsize, ← hoff, ← hflag, ← hidxs, headerBytes, List.append_assoc, bigEndian_one off,
      List.cons_append, List.nil_append]
  have hcheck := checkCrc_bagBytes hcrc (bagBytes hasIdx hashCrc32 hasCacheBits flags records)
  rw [← hcrcs, show bagBytes hasIdx hashCrc32 hasCacheBits flags records ++ crc
    = bocBytes hasIdx hashCrc32 hasCacheBits flags records from rfl] at hcheck
  generalize bocBytes hasIdx hashCrc32 hasCacheBits flags records = input at hinput hcheck
  have hone : ∀ (n : ℕ) (rest : Bytes), n < 256 → readNumber 1 (bigEndian 1 n ++ rest)
      = .ok ((n : ℤ), rest) := fun n rest hn =>
    readNumber_bigEndian (w := 1) (by decide) (by simpa using hn) rest
  have hprefix : copyOfRange input 0 4 = .ok reachBocMagicPrefix := by
    rw [show (4 : ℤ) = (reachBocMagicPrefix.length : ℕ) from rfl, hinput,
      copyOfRange_prefix _ (by simp), List.take_left]
  have hcut : copyOfRange input 4 input.length = .ok (flag :: BitVec.ofNat 8 off :: tail) := by
    rw [hinput]
    exact copyOfRange_append rfl
  have hlen : 5 ≤ tail.length := by
    rw [htail]
    simp only [List.length_append, length_bigEndian]
    omega
  have hbyte : (BitVec.ofNat 8 off).toNat = off := by
    rw [BitVec.toNat_ofNat]
    omega
  have hroots : ¬ ((bigEndian 1 0 ++ (idx ++ (records.flatten ++ crc))).length : ℤ)
      < intMul ((1 : ℕ) : ℤ) 1 := by
    rw [show intMul ((1 : ℕ) : ℤ) 1 = 1 from rfl, List.length_append, length_bigEndian]
    omega
  have hroot : readNumbers 1 (((1 : ℕ) : ℤ)).toNat
      (bigEndian 1 0 ++ (idx ++ (records.flatten ++ crc)))
      = .ok ([0], idx ++ (records.flatten ++ crc)) :=
    readNumbers_bigEndian (w := 1) (l := [0]) (by decide) (by simp) _
  refine ⟨⟨readPrefix reachBocMagicPrefix flag, off, records.length, 1, 0, size, [0], index,
    records.flatten⟩, ?_, hsizeBytes, rfl, rfl, rfl⟩
  rw [parseBocHeader, Fault.throwIf_bind (by rw [hinput]; simp [reachBocMagicPrefix]), hprefix,
    Fault.ok_bind, hcut, Fault.ok_bind]
  simp only [List.headD_cons, copyOfRange_cons, Fault.ok_bind, hsizeBytes, firstByte]
  rw [Fault.throwIf_bind (by rw [List.length_cons]; omega), htail, hone _ _ hn]
  simp only [Fault.ok_bind, hone 1 _ (by decide), hone 0 _ (by decide)]
  rw [hbyte, readNBytesFromArray_bigEndian (by omega) hlt, Fault.ok_bind,
    Fault.throwIf_bind (by omega), copyOfRange_append (length_bigEndian off size), Fault.ok_bind,
    Fault.throwIf_bind hroots, hroot]
  simp only [Fault.ok_bind, hindex]
  rw [Fault.throwIf_bind (by rw [List.length_append]; omega),
    copyOfRange_prefix _ (by simp [hsize]), hsize, List.take_left, Fault.ok_bind,
    copyOfRange_append rfl, Fault.ok_bind, hcheck,
    Fault.ok_bind, Fault.throwIf_bind (by simp)]
  rfl

/-! ## The cells -/

theorem refsDescriptor_eq : ∀ n < 8, ∀ e : Bool,
    (n + (if e then 1 else 0) * 8) % 8 = n ∧
      decide ((n + (if e then 1 else 0) * 8) &&& 8 ≠ 0) = e := by
  decide

/-- A record is read as the cell that it was written for. -/
theorem deserializeCellData_cellBytes {a : CellData} {refs : List ℕ} (ha : a.bits.length ≤ 1023)
    (hrefs : refs.length ≤ 7) (hlt : ∀ r ∈ refs, r < 256) (rest : Bytes) : ∃ bits : BitString,
      deserializeCellData (cellBytes a refs ++ rest) 1
        = .ok (⟨bits, a.isExotic, refs.map Nat.cast⟩, rest) ∧ bits.bits = a.bits := by
  obtain ⟨hrefNum, hexotic⟩ := refsDescriptor_eq refs.length (by omega) a.isExotic
  set n := bytesFor a.bits.length with hn
  have hfor : n = (a.bits.length + 7) / 8 := rfl
  have hd1 : (BitVec.ofNat 8 (refs.length + (if a.isExotic then 1 else 0) * 8)).toNat
      = refs.length + (if a.isExotic then 1 else 0) * 8 := by
    rw [BitVec.toNat_ofNat]
    split <;> omega
  have hd2 : (BitVec.ofNat 8 (n + a.bits.length / 8)).toNat = n + a.bits.length / 8 := by
    rw [BitVec.toNat_ofNat]
    omega
  have hpack : (pack (topUp a.bits)).length = n := by
    have h := BitList.length_pack (BitString.topUp_dvd a.bits)
    rw [BitString.length_topUp] at h
    omega
  have hflag : decide ((n + a.bits.length / 8) % 2 = 0) = decide (a.bits.length % 8 = 0) :=
    decide_eq_decide.mpr (by omega)
  obtain ⟨bits, hbits, -, hba, -⟩ := BitString.setTopUppedArray_topUp (.ofLength 1023)
    (BitList.unpack_pack (BitString.topUp_dvd a.bits))
  have hmap : refs.map (BitVec.ofNat 8) = refs.flatMap (bigEndian 1) := by
    rw [List.map_eq_flatMap]
    exact List.flatMap_congr fun r _ => (bigEndian_one r).symm
  have hread : readNumbers 1 refs.length (refs.flatMap (bigEndian 1) ++ rest)
      = .ok (refs.map Nat.cast, rest) :=
    readNumbers_bigEndian (w := 1) (by decide) (by simpa using hlt) rest
  refine ⟨bits, ?_, hba⟩
  rw [cellBytes, List.append_assoc, List.cons_append, List.cons_append, deserializeCellData]
  simp only [← hn, hd1, hd2, hrefNum, hexotic, hflag,
    show (n + a.bits.length / 8 + 1) / 2 = n by omega]
  rw [Fault.throwIf_bind (by
      rw [List.length_append, List.length_append, hpack, List.length_map]
      omega),
    copyOfRange_prefix _ (by rw [List.length_append]; omega), List.take_left' hpack, Fault.ok_bind,
    hbits, Fault.ok_bind, copyOfRange_append hpack, Fault.ok_bind, hmap, hread]
  rfl

/-- What a bag says of a cell: its data, and the positions of what it refers to. -/
def RawCell.entry (c : RawCell) : CellData × List ℤ := (⟨c.bits.bits, c.isExotic⟩, c.refsInt)

theorem deserializeCells_records {l : List (CellData × List ℕ)}
    (h : ∀ e ∈ l, (e.1.bits.length ≤ 1023 ∧ e.2.length ≤ 7) ∧ ∀ r ∈ e.2, r < 256) : ∃ cells,
      deserializeCells 1 l.length (l.map fun e => cellBytes e.1 e.2).flatten = .ok cells ∧
        cells.map RawCell.entry = l.map fun e => (e.1, e.2.map Nat.cast) := by
  induction l with
  | nil => exact ⟨[], rfl, rfl⟩
  | cons e l ih =>
    obtain ⟨⟨hshort, hlt⟩, h⟩ := List.forall_mem_cons.mp h
    obtain ⟨bits, hread, hbits⟩ := deserializeCellData_cellBytes hshort.1 hshort.2 hlt
      (l.map fun e => cellBytes e.1 e.2).flatten
    obtain ⟨cells, hcells, hentries⟩ := ih h
    refine ⟨⟨bits, e.1.isExotic, e.2.map Nat.cast⟩ :: cells, ?_, ?_⟩
    · rw [List.length_cons, List.map_cons, List.flatten_cons, deserializeCells, hread]
      simp only [Fault.ok_bind, hcells]
      rfl
    · rw [List.map_cons, List.map_cons, hentries, RawCell.entry, hbits]

/-! ## The references -/

/-- A reference from position `i` to the content at position `r`. -/
def PointsTo (full : List (Rose CellData)) (i : ℕ) (r : ℤ) (t : Rose CellData) : Prop :=
  ∃ k : ℕ, r = k ∧ i < k ∧ full[k]? = some t

theorem mapM_linkRef {ci : ℕ} {later : List Cell} {full : List (Rose CellData)} {refsInt : List ℤ}
    {ts : List (Rose CellData)} (hlater : later.map Cell.content = full.drop (ci + 1))
    (h : List.Forall₂ (PointsTo full ci) refsInt ts) :
    ∃ refs : List Cell, refsInt.mapM (linkRef ci (later.map some)) = .ok (refs.map some) ∧
      refs.map Cell.content = ts := by
  induction h with
  | nil => exact ⟨[], rfl, rfl⟩
  | @cons r t refsInt ts hr _ ih =>
    obtain ⟨k, rfl, hk, hfull⟩ := hr
    obtain ⟨refs, hrefs, hcontents⟩ := ih
    have hget : (later.map Cell.content)[k - ci - 1]? = some t := by
      rw [hlater, List.getElem?_drop, show ci + 1 + (k - ci - 1) = k by omega, hfull]
    rw [List.getElem?_map, Option.map_eq_some_iff] at hget
    obtain ⟨c, hc, rfl⟩ := hget
    have hlink : linkRef ci (later.map some) k = .ok (some c) := by
      rw [linkRef, if_neg (by omega), if_neg (by omega),
        show ((k : ℤ) - ci - 1).toNat = k - ci - 1 by omega, List.getElem?_map, hc]
      rfl
    refine ⟨c :: refs, ?_, by rw [List.map_cons, hcontents]⟩
    rw [List.mapM_cons, hlink, hrefs]
    rfl

theorem mapM_id_map_some {α : Type} (l : List α) : (l.map some).mapM id = some l := by
  induction l with
  | nil => rfl
  | cons a l ih =>
    rw [List.map_cons, List.mapM_cons, ih]
    rfl

/-- The content that a cell of a bag gets: its data, and the contents at the positions. -/
def EntryOf (full : List (Rose CellData)) (i : ℕ) (e : CellData × List ℤ) (t : Rose CellData) :
    Prop :=
  t.label = e.1 ∧ List.Forall₂ (PointsTo full i) e.2 t.children

/-- From the last cell to the first, each gets its content. -/
theorem link_eq (full : List (Rose CellData)) (cells : List RawCell) (ci : ℕ)
    (hlen : ci + cells.length = full.length)
    (h : ∀ (j : ℕ) c, cells[j]? = some c → ∃ t, full[ci + j]? = some t ∧
      EntryOf full (ci + j) c.entry t) :
    ∃ cs : List Cell, link ci cells = .ok (cs.map some) ∧ cs.map Cell.content = full.drop ci := by
  induction cells generalizing ci with
  | nil => exact ⟨[], rfl, (List.drop_of_length_le hlen.ge).symm⟩
  | cons c cells ih =>
    rw [List.length_cons] at hlen
    obtain ⟨later, hlater, hcontents⟩ := @ih (ci + 1) (by omega) fun j d hd => by
      rw [show ci + 1 + j = ci + (j + 1) by omega]
      exact h (j + 1) d hd
    obtain ⟨t, hfull, hlabel, hrefs⟩ := h 0 c rfl
    obtain ⟨refs, hlink, htrees⟩ := mapM_linkRef hcontents
      (show List.Forall₂ (PointsTo full ci) c.refsInt t.children from hrefs)
    refine ⟨.mk c.bits refs c.isExotic :: later, ?_, ?_⟩
    · rw [link, hlater, Fault.ok_bind, hlink, Fault.ok_bind, mapM_id_map_some]
      rfl
    · obtain ⟨label, children⟩ := t
      obtain ⟨hlt, hget⟩ : ∃ hlt : ci < full.length, full[ci] = .node label children :=
        List.getElem?_eq_some_iff.mp hfull
      rw [List.drop_eq_getElem_cons hlt, hget, List.map_cons, hcontents, Cell.content_mk, htrees]
      obtain rfl := hlabel
      rfl

/-! ## Writing and reading -/

section
variable {sha256 : Bytes → Digest} {result : TreeWalkResult} {c : Cell}

/-- A bag that the walk has listed is read as its contents. -/
theorem link_records (h : result.Lists sha256 c) (hn : result.topologicalOrderArray.length < 256) :
    ∃ (cells : List RawCell) (cs : List Cell), deserializeCells 1 (records sha256 result).length
        (records sha256 result).flatten = .ok cells ∧ link 0 cells = .ok (cs.map some) ∧
      cs.map Cell.content = result.topologicalOrderArray.map fun e => e.2.content := by
  set order := result.topologicalOrderArray with horder
  set l := order.map fun e => (e.2.data, e.2.refs.map (position sha256 result)) with hl
  have hrecords : records sha256 result = l.map fun e => cellBytes e.1 e.2 := by
    rw [hl, List.map_map]
    rfl
  obtain ⟨cells, hcells, hentries⟩ := deserializeCells_records (l := l) fun e he => by
    obtain ⟨e, hmem, rfl⟩ := List.mem_map.mp he
    obtain ⟨hbits, hrefs⟩ := (h.hashes e hmem).1.data_short
    refine ⟨⟨hbits, by rwa [List.length_map]⟩, fun i hi => ?_⟩
    obtain ⟨r, hr, rfl⟩ := List.mem_map.mp hi
    obtain ⟨i, hi⟩ := List.mem_iff_getElem?.mp hmem
    obtain ⟨-, e', he', -⟩ := h.position_lt hi hr
    exact (List.getElem?_eq_some_iff.mp he').1.trans hn
  have hlen : cells.length = order.length := by
    have hlen := congrArg List.length hentries
    rwa [List.length_map, List.length_map, List.length_map] at hlen
  obtain ⟨cs, hlink, hcontents⟩ := link_eq (order.map fun e => e.2.content)
    cells 0 (by rw [List.length_map]; omega) fun j c hc => by
      have hentry : (cells.map RawCell.entry)[j]? = some c.entry := by
        rw [List.getElem?_map, hc]
        rfl
      rw [hentries, hl, List.map_map, List.getElem?_map, Option.map_eq_some_iff] at hentry
      obtain ⟨e, he, hentry⟩ := hentry
      refine ⟨e.2.content, by rw [Nat.zero_add, List.getElem?_map, he]; rfl, ?_⟩
      rw [← hentry]
      refine ⟨rfl, ?_⟩
      rw [Cell.children_content]
      show List.Forall₂ _ ((e.2.refs.map _).map _) _
      rw [List.map_map, List.forall₂_map_left_iff, List.forall₂_map_right_iff, List.forall₂_same]
      intro r hr
      obtain ⟨hlt, e', he', hcontent, -⟩ := h.position_lt he hr
      refine ⟨position sha256 result r, rfl, by omega, ?_⟩
      rw [List.getElem?_map, he', ← hcontent]
      rfl
  refine ⟨cells, cs, ?_, hlink, by rwa [List.drop_zero] at hcontents⟩
  rw [hrecords, List.length_map]
  exact hcells

/-- A bag that was written is read as a cell of the same content. -/
theorem deserializeBoc_bocBytes (h : result.Lists sha256 c)
    (hn : result.topologicalOrderArray.length < 256) (hasIdx hashCrc32 hasCacheBits : Bool)
    {flags : ℕ} (hflags : flags < 4) : ∃ c' : Cell, deserializeBoc
        (bocBytes hasIdx hashCrc32 hasCacheBits flags (records sha256 result)) = .ok (some c') ∧
      c'.content = c.content := by
  have hlen : (records sha256 result).length = result.topologicalOrderArray.length :=
    List.length_map _
  obtain ⟨header, hparse, hsize, hnum, hroots, hdata⟩ := parseBocHeader_bocBytes
    hasIdx hashCrc32 hasCacheBits hflags (hlen.trans_lt hn) h.record_short
  obtain ⟨cells, cs, hcells, hlink, hcontents⟩ := link_records h hn
  have hfirst := h.first
  rw [← hcontents] at hfirst
  cases cs with
  | nil => cases hfirst
  | cons c' cs =>
    refine ⟨c', ?_, Option.some.inj hfirst⟩
    rw [deserializeBoc, hparse, Fault.ok_bind, hsize, hnum, hdata, Int.toNat_natCast, hcells,
      Fault.ok_bind, hlink, Fault.ok_bind, hroots]
    rfl

/-! ## What counts -/

theorem Represents.records_eq {l : List (Rose CellData)} (h : Represents sha256 result l) :
    records sha256 result = l.map fun t => cellBytes t.label
      (t.children.map fun u => (result.indexHashmap (key sha256 u)).getD 0) := by
  rw [← h.contents, List.map_map, records]
  refine List.map_congr_left fun e _ => ?_
  show _ = cellBytes _ (e.2.content.children.map _)
  rw [Cell.children_content, List.map_map]
  rfl

/-- The order of the contents says all about the records. -/
theorem Represents.records_unique {result' : TreeWalkResult} {l : List (Rose CellData)}
    (h : Represents sha256 result l) (h' : Represents sha256 result' l) :
    records sha256 result = records sha256 result' := by
  have hindex : result.indexHashmap = result'.indexHashmap := by
    funext k
    exact Option.ext fun i => (h.index k i).trans (h'.index k i).symm
  rw [h.records_eq, h'.records_eq, hindex]

theorem Collision.of_content {d : Cell} (hc : c.Valid) (hd : d.Valid) (hcd : c.content = d.content)
    (h : Collision sha256 d d) : Collision sha256 c c := by
  have hpart : ∀ p : Cell, p.Part d → ∃ p' : Cell, p'.Part c ∧
      p'.getRepr sha256 = p.getRepr sha256 := by
    intro p hp
    obtain ⟨p', hp', hcontent⟩ := exists_part (hcd ▸ hp.within)
    refine ⟨p', hp', ?_⟩
    rw [(hc.part hp').getRepr_eq_preimage, (hd.part hp).getRepr_eq_preimage, hcontent]
  obtain ⟨p, q, x, y, hp, hq, hx, hy, hne, heq⟩ := h
  obtain ⟨p', hp', hpx⟩ := hpart p hp
  obtain ⟨q', hq', hqy⟩ := hpart q hq
  exact ⟨p', q', x, y, hp', hq', hpx.trans hx, hqy.trans hy, hne, heq⟩

/-- Only the content of a cell counts for the bytes of its bag. -/
theorem toBoc_content {d : Cell} (hc : c.Valid) (hd : d.Valid) (hcd : c.content = d.content)
    (hcollision : ¬ Collision sha256 c c) {frames : ℕ} (hframes : c.getMaxDepth < frames)
    {hasIdx hashCrc32 hasCacheBits : Bool} {flags : ℤ} {bytes : Bytes}
    (h : toBoc sha256 frames c hasIdx hashCrc32 hasCacheBits flags = .ok bytes) :
    toBoc sha256 frames d hasIdx hashCrc32 hasCacheBits flags = .ok bytes := by
  have hcollision' : ¬ Collision sha256 d d := fun hd' => hcollision (hd'.of_content hc hd hcd)
  have hframes' : d.getMaxDepth < frames := by
    rwa [hd.getMaxDepth_eq sha256, ← hcd, ← hc.getMaxDepth_eq sha256]
  obtain ⟨⟨hpos, hflags⟩, hn⟩ := (toBoc_ok_iff sha256 hc hcollision hframes _ _ _ _).mp ⟨bytes, h⟩
  obtain ⟨n, rfl⟩ := Int.eq_ofNat_of_zero_le hpos
  obtain ⟨result, hwalk, hlists⟩ := treeWalk_spec sha256 hc hcollision hframes
  obtain ⟨result', hwalk', hlists'⟩ := treeWalk_spec sha256 hd hcollision' hframes'
  obtain ⟨_, hsame, hrep⟩ := treeWalk_represents sha256 hc hcollision hframes
  obtain ⟨_, hsame', hrep'⟩ := treeWalk_represents sha256 hd hcollision' hframes'
  obtain rfl := Except.ok.inj (hwalk.symm.trans hsame)
  obtain rfl := Except.ok.inj (hwalk'.symm.trans hsame')
  rw [← hcd] at hrep'
  rw [toBoc_eq hwalk hlists (by rwa [hlists.length_eq]) (by omega)] at h
  rw [toBoc_eq hwalk' hlists' (by rwa [hlists'.length_eq, ← hcd]) (by omega),
    ← hrep.records_unique hrep']
  exact h

end

/-- **A bag that is written is read again.** Where no two parts of a cell collide, whatever `toBoc`
writes for it, with any options, is read as a cell of the same content; and this cell is written as
the same bytes. -/
theorem deserializeBoc_toBoc (sha256 : Bytes → Digest) {c : Cell} (hc : c.Valid)
    (hcollision : ¬ Collision sha256 c c) {frames : ℕ} (hframes : c.getMaxDepth < frames)
    {hasIdx hashCrc32 hasCacheBits : Bool} {flags : ℤ} {bytes : Bytes}
    (h : toBoc sha256 frames c hasIdx hashCrc32 hasCacheBits flags = .ok bytes) :
    ∃ c' : Cell, deserializeBoc bytes = .ok (some c') ∧ c'.content = c.content ∧
      toBoc sha256 frames c' hasIdx hashCrc32 hasCacheBits flags = .ok bytes := by
  obtain ⟨⟨hpos, hflags⟩, hn⟩ := (toBoc_ok_iff sha256 hc hcollision hframes _ _ _ _).mp ⟨bytes, h⟩
  obtain ⟨n, rfl⟩ := Int.eq_ofNat_of_zero_le hpos
  obtain ⟨result, hwalk, hlists⟩ := treeWalk_spec sha256 hc hcollision hframes
  have hlen : result.topologicalOrderArray.length < 256 := by rwa [hlists.length_eq]
  have hbytes := Except.ok.inj
    ((toBoc_eq hwalk hlists hlen (show n < 4 by omega)).symm.trans h)
  obtain ⟨c', hread, hcontent⟩ := deserializeBoc_bocBytes hlists hlen hasIdx hashCrc32 hasCacheBits
    (show n < 4 by omega)
  rw [hbytes] at hread
  have hvalid := (deserializeBoc_valid sha256 hread).1
  exact ⟨c', hread, hcontent, toBoc_content hc hvalid hcontent.symm hcollision hframes h⟩

theorem deserializeBoc_toBoc_sharedCell : ∃ bytes, ∃ c' : Cell,
    deserializeBoc bytes = .ok (some c') ∧ c'.content = sharedCell.content ∧
      toBoc firstBytes 3 c' true false false 0 = .ok bytes := by
  have hok : (toBoc firstBytes 3 sharedCell true false false 0).isOk = true := by decide +kernel
  cases h : toBoc firstBytes 3 sharedCell true false false 0 with
  | error e =>
    rw [h] at hok
    cases hok
  | ok bytes =>
    exact ⟨bytes, deserializeBoc_toBoc firstBytes valid_sharedCell not_collision_sharedCell
      (by decide) h⟩

end TonWallet.Cells
