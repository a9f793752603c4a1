import Netsdb.Lib.Binary32
import Netsdb.Lib.Grid
import Netsdb.Lib.Scatter

/-!
# Blocks of a matrix (`FFMatrixBlock.h`)

* `FFMatrixBlock.isLastRowBlock`, `isLastColBlock`   as in the source, with the quotient of two `float`s;
* `Represents`          blocks that are the whole matrix;
* `Represents.single`   there is one block where the matrix is not larger;
* `cut`                 such blocks.
-/

set_option linter.unusedSectionVars false

namespace Netsdb.Conv2d

/-- `rawData` has the rows one behind the other -/
structure FFMatrixBlock (V : Type) where
  blockRowIndex : ℕ
  blockColIndex : ℕ
  rowNums : ℕ
  colNums : ℕ
  totalRows : ℕ
  totalCols : ℕ
  rawData : List (List V)
deriving DecidableEq

namespace FFMatrixBlock
variable {V : Type}

def index (b : FFMatrixBlock V) : ℕ × ℕ := (b.blockRowIndex, b.blockColIndex)

def isLastColBlock (b : FFMatrixBlock V) : Prop :=
  (b.blockColIndex : ℤ) = Binary32.ceilDiv b.totalCols b.colNums - 1

instance (b : FFMatrixBlock V) : Decidable b.isLastColBlock := inferInstanceAs (Decidable (_ = _))

def isLastRowBlock (b : FFMatrixBlock V) : Prop :=
  (b.blockRowIndex : ℤ) = Binary32.ceilDiv b.totalRows b.rowNums - 1

instance (b : FFMatrixBlock V) : Decidable b.isLastRowBlock := inferInstanceAs (Decidable (_ = _))

end FFMatrixBlock

/-- the blocks of a grid with blocks of `blockX` rows and `blockY` columns, each once, are the matrix
`M`; the blocks at the edge are padded with zeros, or smaller -/
structure Represents {V : Type} [Zero V] (blockX blockY : ℕ) (padding : Bool) (rows cols : ℕ)
    (M : ℕ → ℕ → V) (blocks : List (FFMatrixBlock V)) : Prop where
  once : (blocks.map FFMatrixBlock.index).Nodup
  grid : ∀ i j, (i, j) ∈ blocks.map FFMatrixBlock.index ↔ i * blockX < rows ∧ j * blockY < cols
  totals : ∀ b ∈ blocks, b.totalRows = rows ∧ b.totalCols = cols
  rowNums : ∀ b ∈ blocks, b.rowNums = if padding then blockX else min blockX (rows - b.blockRowIndex * blockX)
  colNums : ∀ b ∈ blocks, b.colNums = if padding then blockY else min blockY (cols - b.blockColIndex * blockY)
  values : ∀ b ∈ blocks, Grid.Shaped b.rowNums b.colNums (fun x y v => v =
    if b.blockRowIndex * blockX + x < rows ∧ b.blockColIndex * blockY + y < cols then
      M (b.blockRowIndex * blockX + x) (b.blockColIndex * blockY + y) else 0) b.rawData

section
variable {V : Type} [Zero V] {blockX blockY rows cols : ℕ} {M : ℕ → ℕ → V} {padding : Bool}
  {blocks : List (FFMatrixBlock V)} {b : FFMatrixBlock V}

/-- a block of the grid -/
theorem Represents.exists_block (h : Represents blockX blockY padding rows cols M blocks) {i j : ℕ}
    (hi : i * blockX < rows) (hj : j * blockY < cols) :
    ∃ b ∈ blocks, b.blockRowIndex = i ∧ b.blockColIndex = j := by
  obtain ⟨b, hb, heq⟩ := List.mem_map.mp ((h.grid i j).mpr ⟨hi, hj⟩)
  exact ⟨b, hb, (Prod.mk.inj heq).1, (Prod.mk.inj heq).2⟩

theorem Represents.inside (h : Represents blockX blockY padding rows cols M blocks) (hb : b ∈ blocks) :
    b.blockRowIndex * blockX < rows ∧ b.blockColIndex * blockY < cols :=
  (h.grid _ _).mp (List.mem_map.mpr ⟨b, hb, rfl⟩)

theorem eq_zero_of_mul_lt {i n size : ℕ} (h : i * size < n) (hn : n ≤ size) : i = 0 := by
  by_contra hi
  exact absurd (Nat.le_mul_of_pos_left size (Nat.pos_of_ne_zero hi)) (by omega)

/-- a matrix without rows -/
theorem represents_nil (blockX blockY : ℕ) (padding : Bool) (cols : ℕ) (M : ℕ → ℕ → V) :
    Represents blockX blockY padding 0 cols M [] := by
  refine ⟨List.nodup_nil, fun i j => ?_, ?_, ?_, ?_, ?_⟩
  · exact iff_of_false List.not_mem_nil fun h => absurd h.1 (Nat.not_lt_zero _)
  all_goals
    intro b hb
    cases hb

/-- elements that do not differ where they have to -/
theorem eq_singleton_of_nodup_map {α β : Type} {f : α → β} {l : List α} {a : α} (h : (l.map f).Nodup)
    (ha : a ∈ l) (hall : ∀ x ∈ l, f x = f a) : l = [a] := by
  rw [List.map_congr_left hall, List.map_const'] at h
  obtain ⟨x, rfl⟩ := List.length_eq_one_iff.mp
    (le_antisymm (List.nodup_replicate.mp h) (List.length_pos_of_mem ha))
  rw [List.mem_singleton.mp ha]

/-- a matrix of one block -/
theorem Represents.single (h : Represents blockX blockY padding rows cols M blocks)
    (hrow : 0 < rows) (hcol : 0 < cols) (hx : rows ≤ blockX) (hy : cols ≤ blockY) :
    ∃ b, blocks = [b] ∧ b.blockRowIndex = 0 ∧ b.blockColIndex = 0 := by
  obtain ⟨b, hb, hi, hj⟩ := h.exists_block (i := 0) (j := 0) (by omega) (by omega)
  refine ⟨b, eq_singleton_of_nodup_map h.once hb fun b' hb' => ?_, hi, hj⟩
  obtain ⟨hi', hj'⟩ := h.inside hb'
  rw [FFMatrixBlock.index, FFMatrixBlock.index, hi, hj, eq_zero_of_mul_lt hi' hx,
    eq_zero_of_mul_lt hj' hy]

/-! ## Cutting a matrix -/

theorem lt_ceil_iff {i n size : ℕ} (hsize : 0 < size) : i < (n + size - 1) / size ↔ i * size < n := by
  rw [Nat.lt_iff_add_one_le, Nat.le_div_iff_mul_le hsize, Nat.succ_mul]
  omega

/-- one block of a matrix -/
def cutBlock (blockX blockY : ℕ) (padding : Bool) (rows cols : ℕ) (M : ℕ → ℕ → V) (i j : ℕ) :
    FFMatrixBlock V :=
  let rowNums := if padding then blockX else min blockX (rows - i * blockX)
  let colNums := if padding then blockY else min blockY (cols - j * blockY)
  { blockRowIndex := i, blockColIndex := j, rowNums, colNums, totalRows := rows, totalCols := cols
    rawData := Grid.table rowNums colNums fun x y =>
      if i * blockX + x < rows ∧ j * blockY + y < cols then M (i * blockX + x) (j * blockY + y) else 0 }

/-- all blocks of a matrix -/
def cut (blockX blockY : ℕ) (padding : Bool) (rows cols : ℕ) (M : ℕ → ℕ → V) :
    List (FFMatrixBlock V) :=
  (nested ((rows + blockX - 1) / blockX) ((cols + blockY - 1) / blockY)).map fun p =>
    cutBlock blockX blockY padding rows cols M p.1 p.2

theorem represents_cut (hx : 0 < blockX) (hy : 0 < blockY) (padding : Bool) (rows cols : ℕ)
    (M : ℕ → ℕ → V) :
    Represents blockX blockY padding rows cols M (cut blockX blockY padding rows cols M) := by
  have hindex : (cut blockX blockY padding rows cols M).map FFMatrixBlock.index =
      nested ((rows + blockX - 1) / blockX) ((cols + blockY - 1) / blockY) := by
    rw [cut, List.map_map]
    exact List.map_id _
  have hall : ∀ b ∈ cut blockX blockY padding rows cols M, ∃ i j,
      b = cutBlock blockX blockY padding rows cols M i j := by
    intro b hb
    obtain ⟨p, -, rfl⟩ := List.mem_map.mp hb
    exact ⟨p.1, p.2, rfl⟩
  refine ⟨?_, fun i j => ?_, fun b hb => ?_, fun b hb => ?_, fun b hb => ?_, fun b hb => ?_⟩
  · rw [hindex]
    exact List.nodup_range.product List.nodup_range
  · rw [hindex, mem_nested, lt_ceil_iff hx, lt_ceil_iff hy]
  · obtain ⟨i, j, rfl⟩ := hall b hb
    exact ⟨rfl, rfl⟩
  · obtain ⟨i, j, rfl⟩ := hall b hb
    rfl
  · obtain ⟨i, j, rfl⟩ := hall b hb
    rfl
  · obtain ⟨i, j, rfl⟩ := hall b hb
    exact Grid.shaped_table _ _ _

end
end Netsdb.Conv2d
