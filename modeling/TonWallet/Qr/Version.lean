import Mathlib.Algebra.BigOperators.Group.List.Basic
import Mathlib.Tactic.Ring

/-!
# The versions of a QR code

`Version.java`: how many codewords a version has, and how they are divided into blocks in each
level of error correction.

* `exists_geometry`: every version has blocks of at most two sizes in every level, and as many
  codewords for error correction in each.
-/

namespace TonWallet.Qr

/-! ## Versions -/

/-- `ECB` (`Version.java` lines 218–234). -/
structure ECB where
  count : ℕ
  dataCodewords : ℕ
deriving DecidableEq, Repr

/-- `ECBlocks` (`Version.java` lines 183–211). -/
structure ECBlocks where
  ecCodewordsPerBlock : ℕ
  ecBlocks : List ECB
deriving DecidableEq, Repr

/-- `getNumBlocks` (`Version.java` lines 196–202). -/
def ECBlocks.getNumBlocks (b : ECBlocks) : ℕ := (b.ecBlocks.map ECB.count).sum

/-- `getTotalECCodewords` (`Version.java` lines 204–206). -/
def ECBlocks.getTotalECCodewords (b : ECBlocks) : ℕ := b.ecCodewordsPerBlock * b.getNumBlocks

/-- `ErrorCorrectionLevel` (`ErrorCorrectionLevel.java` lines 25–34). -/
inductive ErrorCorrectionLevel where
  | L
  | M
  | Q
  | H
deriving DecidableEq, Repr

/-- `ordinal()`. -/
def ErrorCorrectionLevel.ordinal : ErrorCorrectionLevel → ℕ
  | .L => 0
  | .M => 1
  | .Q => 2
  | .H => 3

/-- `Version` (`Version.java` lines 45–63). -/
structure Version where
  versionNumber : ℕ
  ecBlocks : List ECBlocks
deriving DecidableEq, Repr

/-- `totalCodewords`, from the blocks of the first level (`Version.java` lines 56–62). -/
def Version.getTotalCodewords (v : Version) : ℕ :=
  let ecBlocks := v.ecBlocks.getD 0 ⟨0, []⟩
  (ecBlocks.ecBlocks.map fun b =>
    b.count * (b.dataCodewords + ecBlocks.ecCodewordsPerBlock)).sum

/-- `getECBlocksForLevel` (`Version.java` lines 81–83). -/
def Version.getECBlocksForLevel (v : Version) (level : ErrorCorrectionLevel) : ECBlocks :=
  v.ecBlocks.getD level.ordinal ⟨0, []⟩

/-- `VERSIONS` (`Version.java` lines 244–575). -/
def VERSIONS : List Version :=
  [
    ⟨1, [⟨7, [⟨1, 19⟩]⟩, ⟨10, [⟨1, 16⟩]⟩,
      ⟨13, [⟨1, 13⟩]⟩, ⟨17, [⟨1, 9⟩]⟩]⟩,
    ⟨2, [⟨10, [⟨1, 34⟩]⟩, ⟨16, [⟨1, 28⟩]⟩,
      ⟨22, [⟨1, 22⟩]⟩, ⟨28, [⟨1, 16⟩]⟩]⟩,
    ⟨3, [⟨15, [⟨1, 55⟩]⟩, ⟨26, [⟨1, 44⟩]⟩,
      ⟨18, [⟨2, 17⟩]⟩, ⟨22, [⟨2, 13⟩]⟩]⟩,
    ⟨4, [⟨20, [⟨1, 80⟩]⟩, ⟨18, [⟨2, 32⟩]⟩,
      ⟨26, [⟨2, 24⟩]⟩, ⟨16, [⟨4, 9⟩]⟩]⟩,
    ⟨5, [⟨26, [⟨1, 108⟩]⟩, ⟨24, [⟨2, 43⟩]⟩,
      ⟨18, [⟨2, 15⟩, ⟨2, 16⟩]⟩, ⟨22, [⟨2, 11⟩, ⟨2, 12⟩]⟩]⟩,
    ⟨6, [⟨18, [⟨2, 68⟩]⟩, ⟨16, [⟨4, 27⟩]⟩,
      ⟨24, [⟨4, 19⟩]⟩, ⟨28, [⟨4, 15⟩]⟩]⟩,
    ⟨7, [⟨20, [⟨2, 78⟩]⟩, ⟨18, [⟨4, 31⟩]⟩,
      ⟨18, [⟨2, 14⟩, ⟨4, 15⟩]⟩, ⟨26, [⟨4, 13⟩, ⟨1, 14⟩]⟩]⟩,
    ⟨8, [⟨24, [⟨2, 97⟩]⟩, ⟨22, [⟨2, 38⟩, ⟨2, 39⟩]⟩,
      ⟨22, [⟨4, 18⟩, ⟨2, 19⟩]⟩, ⟨26, [⟨4, 14⟩, ⟨2, 15⟩]⟩]⟩,
    ⟨9, [⟨30, [⟨2, 116⟩]⟩, ⟨22, [⟨3, 36⟩, ⟨2, 37⟩]⟩,
      ⟨20, [⟨4, 16⟩, ⟨4, 17⟩]⟩, ⟨24, [⟨4, 12⟩, ⟨4, 13⟩]⟩]⟩,
    ⟨10, [⟨18, [⟨2, 68⟩, ⟨2, 69⟩]⟩, ⟨26, [⟨4, 43⟩, ⟨1, 44⟩]⟩,
      ⟨24, [⟨6, 19⟩, ⟨2, 20⟩]⟩, ⟨28, [⟨6, 15⟩, ⟨2, 16⟩]⟩]⟩,
    ⟨11, [⟨20, [⟨4, 81⟩]⟩, ⟨30, [⟨1, 50⟩, ⟨4, 51⟩]⟩,
      ⟨28, [⟨4, 22⟩, ⟨4, 23⟩]⟩, ⟨24, [⟨3, 12⟩, ⟨8, 13⟩]⟩]⟩,
    ⟨12, [⟨24, [⟨2, 92⟩, ⟨2, 93⟩]⟩, ⟨22, [⟨6, 36⟩, ⟨2, 37⟩]⟩,
      ⟨26, [⟨4, 20⟩, ⟨6, 21⟩]⟩, ⟨28, [⟨7, 14⟩, ⟨4, 15⟩]⟩]⟩,
    ⟨13, [⟨26, [⟨4, 107⟩]⟩, ⟨22, [⟨8, 37⟩, ⟨1, 38⟩]⟩,
      ⟨24, [⟨8, 20⟩, ⟨4, 21⟩]⟩, ⟨22, [⟨12, 11⟩, ⟨4, 12⟩]⟩]⟩,
    ⟨14, [⟨30, [⟨3, 115⟩, ⟨1, 116⟩]⟩, ⟨24, [⟨4, 40⟩, ⟨5, 41⟩]⟩,
      ⟨20, [⟨11, 16⟩, ⟨5, 17⟩]⟩, ⟨24, [⟨11, 12⟩, ⟨5, 13⟩]⟩]⟩,
    ⟨15, [⟨22, [⟨5, 87⟩, ⟨1, 88⟩]⟩, ⟨24, [⟨5, 41⟩, ⟨5, 42⟩]⟩,
      ⟨30, [⟨5, 24⟩, ⟨7, 25⟩]⟩, ⟨24, [⟨11, 12⟩, ⟨7, 13⟩]⟩]⟩,
    ⟨16, [⟨24, [⟨5, 98⟩, ⟨1, 99⟩]⟩, ⟨28, [⟨7, 45⟩, ⟨3, 46⟩]⟩,
      ⟨24, [⟨15, 19⟩, ⟨2, 20⟩]⟩, ⟨30, [⟨3, 15⟩, ⟨13, 16⟩]⟩]⟩,
    ⟨17, [⟨28, [⟨1, 107⟩, ⟨5, 108⟩]⟩, ⟨28, [⟨10, 46⟩, ⟨1, 47⟩]⟩,
      ⟨28, [⟨1, 22⟩, ⟨15, 23⟩]⟩, ⟨28, [⟨2, 14⟩, ⟨17, 15⟩]⟩]⟩,
    ⟨18, [⟨30, [⟨5, 120⟩, ⟨1, 121⟩]⟩, ⟨26, [⟨9, 43⟩, ⟨4, 44⟩]⟩,
      ⟨28, [⟨17, 22⟩, ⟨1, 23⟩]⟩, ⟨28, [⟨2, 14⟩, ⟨19, 15⟩]⟩]⟩,
    ⟨19, [⟨28, [⟨3, 113⟩, ⟨4, 114⟩]⟩, ⟨26, [⟨3, 44⟩, ⟨11, 45⟩]⟩,
      ⟨26, [⟨17, 21⟩, ⟨4, 22⟩]⟩, ⟨26, [⟨9, 13⟩, ⟨16, 14⟩]⟩]⟩,
    ⟨20, [⟨28, [⟨3, 107⟩, ⟨5, 108⟩]⟩, ⟨26, [⟨3, 41⟩, ⟨13, 42⟩]⟩,
      ⟨30, [⟨15, 24⟩, ⟨5, 25⟩]⟩, ⟨28, [⟨15, 15⟩, ⟨10, 16⟩]⟩]⟩,
    ⟨21, [⟨28, [⟨4, 116⟩, ⟨4, 117⟩]⟩, ⟨26, [⟨17, 42⟩]⟩,
      ⟨28, [⟨17, 22⟩, ⟨6, 23⟩]⟩, ⟨30, [⟨19, 16⟩, ⟨6, 17⟩]⟩]⟩,
    ⟨22, [⟨28, [⟨2, 111⟩, ⟨7, 112⟩]⟩, ⟨28, [⟨17, 46⟩]⟩,
      ⟨30, [⟨7, 24⟩, ⟨16, 25⟩]⟩, ⟨24, [⟨34, 13⟩]⟩]⟩,
    ⟨23, [⟨30, [⟨4, 121⟩, ⟨5, 122⟩]⟩, ⟨28, [⟨4, 47⟩, ⟨14, 48⟩]⟩,
      ⟨30, [⟨11, 24⟩, ⟨14, 25⟩]⟩, ⟨30, [⟨16, 15⟩, ⟨14, 16⟩]⟩]⟩,
    ⟨24, [⟨30, [⟨6, 117⟩, ⟨4, 118⟩]⟩, ⟨28, [⟨6, 45⟩, ⟨14, 46⟩]⟩,
      ⟨30, [⟨11, 24⟩, ⟨16, 25⟩]⟩, ⟨30, [⟨30, 16⟩, ⟨2, 17⟩]⟩]⟩,
    ⟨25, [⟨26, [⟨8, 106⟩, ⟨4, 107⟩]⟩, ⟨28, [⟨8, 47⟩, ⟨13, 48⟩]⟩,
      ⟨30, [⟨7, 24⟩, ⟨22, 25⟩]⟩, ⟨30, [⟨22, 15⟩, ⟨13, 16⟩]⟩]⟩,
    ⟨26, [⟨28, [⟨10, 114⟩, ⟨2, 115⟩]⟩, ⟨28, [⟨19, 46⟩, ⟨4, 47⟩]⟩,
      ⟨28, [⟨28, 22⟩, ⟨6, 23⟩]⟩, ⟨30, [⟨33, 16⟩, ⟨4, 17⟩]⟩]⟩,
    ⟨27, [⟨30, [⟨8, 122⟩, ⟨4, 123⟩]⟩, ⟨28, [⟨22, 45⟩, ⟨3, 46⟩]⟩,
      ⟨30, [⟨8, 23⟩, ⟨26, 24⟩]⟩, ⟨30, [⟨12, 15⟩, ⟨28, 16⟩]⟩]⟩,
    ⟨28, [⟨30, [⟨3, 117⟩, ⟨10, 118⟩]⟩, ⟨28, [⟨3, 45⟩, ⟨23, 46⟩]⟩,
      ⟨30, [⟨4, 24⟩, ⟨31, 25⟩]⟩, ⟨30, [⟨11, 15⟩, ⟨31, 16⟩]⟩]⟩,
    ⟨29, [⟨30, [⟨7, 116⟩, ⟨7, 117⟩]⟩, ⟨28, [⟨21, 45⟩, ⟨7, 46⟩]⟩,
      ⟨30, [⟨1, 23⟩, ⟨37, 24⟩]⟩, ⟨30, [⟨19, 15⟩, ⟨26, 16⟩]⟩]⟩,
    ⟨30, [⟨30, [⟨5, 115⟩, ⟨10, 116⟩]⟩, ⟨28, [⟨19, 47⟩, ⟨10, 48⟩]⟩,
      ⟨30, [⟨15, 24⟩, ⟨25, 25⟩]⟩, ⟨30, [⟨23, 15⟩, ⟨25, 16⟩]⟩]⟩,
    ⟨31, [⟨30, [⟨13, 115⟩, ⟨3, 116⟩]⟩, ⟨28, [⟨2, 46⟩, ⟨29, 47⟩]⟩,
      ⟨30, [⟨42, 24⟩, ⟨1, 25⟩]⟩, ⟨30, [⟨23, 15⟩, ⟨28, 16⟩]⟩]⟩,
    ⟨32, [⟨30, [⟨17, 115⟩]⟩, ⟨28, [⟨10, 46⟩, ⟨23, 47⟩]⟩,
      ⟨30, [⟨10, 24⟩, ⟨35, 25⟩]⟩, ⟨30, [⟨19, 15⟩, ⟨35, 16⟩]⟩]⟩,
    ⟨33, [⟨30, [⟨17, 115⟩, ⟨1, 116⟩]⟩, ⟨28, [⟨14, 46⟩, ⟨21, 47⟩]⟩,
      ⟨30, [⟨29, 24⟩, ⟨19, 25⟩]⟩, ⟨30, [⟨11, 15⟩, ⟨46, 16⟩]⟩]⟩,
    ⟨34, [⟨30, [⟨13, 115⟩, ⟨6, 116⟩]⟩, ⟨28, [⟨14, 46⟩, ⟨23, 47⟩]⟩,
      ⟨30, [⟨44, 24⟩, ⟨7, 25⟩]⟩, ⟨30, [⟨59, 16⟩, ⟨1, 17⟩]⟩]⟩,
    ⟨35, [⟨30, [⟨12, 121⟩, ⟨7, 122⟩]⟩, ⟨28, [⟨12, 47⟩, ⟨26, 48⟩]⟩,
      ⟨30, [⟨39, 24⟩, ⟨14, 25⟩]⟩, ⟨30, [⟨22, 15⟩, ⟨41, 16⟩]⟩]⟩,
    ⟨36, [⟨30, [⟨6, 121⟩, ⟨14, 122⟩]⟩, ⟨28, [⟨6, 47⟩, ⟨34, 48⟩]⟩,
      ⟨30, [⟨46, 24⟩, ⟨10, 25⟩]⟩, ⟨30, [⟨2, 15⟩, ⟨64, 16⟩]⟩]⟩,
    ⟨37, [⟨30, [⟨17, 122⟩, ⟨4, 123⟩]⟩, ⟨28, [⟨29, 46⟩, ⟨14, 47⟩]⟩,
      ⟨30, [⟨49, 24⟩, ⟨10, 25⟩]⟩, ⟨30, [⟨24, 15⟩, ⟨46, 16⟩]⟩]⟩,
    ⟨38, [⟨30, [⟨4, 122⟩, ⟨18, 123⟩]⟩, ⟨28, [⟨13, 46⟩, ⟨32, 47⟩]⟩,
      ⟨30, [⟨48, 24⟩, ⟨14, 25⟩]⟩, ⟨30, [⟨42, 15⟩, ⟨32, 16⟩]⟩]⟩,
    ⟨39, [⟨30, [⟨20, 117⟩, ⟨4, 118⟩]⟩, ⟨28, [⟨40, 47⟩, ⟨7, 48⟩]⟩,
      ⟨30, [⟨43, 24⟩, ⟨22, 25⟩]⟩, ⟨30, [⟨10, 15⟩, ⟨67, 16⟩]⟩]⟩,
    ⟨40, [⟨30, [⟨19, 118⟩, ⟨6, 119⟩]⟩, ⟨28, [⟨18, 47⟩, ⟨31, 48⟩]⟩,
      ⟨30, [⟨34, 24⟩, ⟨34, 25⟩]⟩, ⟨30, [⟨20, 15⟩, ⟨61, 16⟩]⟩]⟩
  ]

/-! ## The shape of a version -/

/-- The first `short` blocks have `size` data codewords, the `long` blocks behind them one more. -/
structure Geometry (ecBlocks : ECBlocks) (total short long size : ℕ) : Prop where
  blocks : ecBlocks.ecBlocks = [⟨short, size⟩] ∧ long = 0 ∨
    ecBlocks.ecBlocks = [⟨short, size⟩, ⟨long, size + 1⟩]
  short_pos : 0 < short
  size_pos : 0 < size
  ec_pos : 0 < ecBlocks.ecCodewordsPerBlock
  lt_256 : size + 1 + ecBlocks.ecCodewordsPerBlock < 256
  total_eq : total = (short + long) * (size + ecBlocks.ecCodewordsPerBlock) + long

/-- The numbers of short and of long blocks, and the size of the short ones. -/
def ECBlocks.shape (b : ECBlocks) : ℕ × ℕ × ℕ :=
  match b.ecBlocks with
  | [x] => (x.count, 0, x.dataCodewords)
  | x :: y :: _ => (x.count, y.count, x.dataCodewords)
  | [] => (0, 0, 0)

instance (b : ECBlocks) (total short long size : ℕ) :
    Decidable (Geometry b total short long size) :=
  decidable_of_iff ((b.ecBlocks = [⟨short, size⟩] ∧ long = 0 ∨
      b.ecBlocks = [⟨short, size⟩, ⟨long, size + 1⟩]) ∧ 0 < short ∧ 0 < size ∧
      0 < b.ecCodewordsPerBlock ∧ size + 1 + b.ecCodewordsPerBlock < 256 ∧
      total = (short + long) * (size + b.ecCodewordsPerBlock) + long)
    ⟨fun ⟨h1, h2, h3, h4, h5, h6⟩ => ⟨h1, h2, h3, h4, h5, h6⟩,
      fun h => ⟨h.1, h.2, h.3, h.4, h.5, h.6⟩⟩

def levels : List ErrorCorrectionLevel := [.L, .M, .Q, .H]

theorem mem_levels (level : ErrorCorrectionLevel) : level ∈ levels := by
  cases level <;> decide

theorem geometry_of_check : ∀ version ∈ VERSIONS, ∀ level ∈ levels,
    Geometry (version.getECBlocksForLevel level) version.getTotalCodewords
      (version.getECBlocksForLevel level).shape.1 (version.getECBlocksForLevel level).shape.2.1
      (version.getECBlocksForLevel level).shape.2.2 := by
  decide +kernel

/-- Every version has blocks of at most two sizes in every level, and as many codewords in each. -/
theorem exists_geometry {version : Version} (hversion : version ∈ VERSIONS)
    (level : ErrorCorrectionLevel) : ∃ short long size, Geometry
      (version.getECBlocksForLevel level) version.getTotalCodewords short long size :=
  ⟨_, _, _, geometry_of_check version hversion level (mem_levels level)⟩

section Shape

variable {ecBlocks : ECBlocks} {total short long size : ℕ}

theorem Geometry.getNumBlocks (h : Geometry ecBlocks total short long size) :
    ecBlocks.getNumBlocks = short + long := by
  obtain ⟨hb, rfl⟩ | hb := h.blocks
  · simp [ECBlocks.getNumBlocks, hb]
  · simp [ECBlocks.getNumBlocks, hb]

theorem Geometry.numDataBytes (h : Geometry ecBlocks total short long size) :
    total - ecBlocks.getTotalECCodewords = (short + long) * size + long := by
  rw [ECBlocks.getTotalECCodewords, h.getNumBlocks, h.total_eq, Nat.mul_add,
    Nat.mul_comm ecBlocks.ecCodewordsPerBlock]
  omega

end Shape

end TonWallet.Qr
