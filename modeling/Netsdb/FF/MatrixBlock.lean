import Mathlib.Algebra.Group.Defs
import Netsdb.Lib.Scatter
import Mathlib.Algebra.Group.Int.Defs

/-!
# `operator+` of matrix blocks (`MatrixBlock.h`, `FFMatrixBlock.h`, `TensorBlock2D.h`)

The sum of two blocks is a block of the size of the whole matrix, to which the next blocks are added.

* `MatrixBlock.plus`, `FFMatrixBlock.plus`, `TensorBlock2D.plus`   as in the source;
* `copyBlock`, `positions`   the loop nest that all of them have, and the positions it writes;
* `BlockClass.plus_eq`       where the three agree: one of them puts `this` to its own place, the others
                             to the place of `other`.
-/

namespace Netsdb

/-- what `operator+` reads of a block; `rawData` is the memory from `c_ptr ()` on -/
structure DenseBlock (α : Type*) where
  blockRowIndex : Int
  blockColIndex : Int
  totalRows : Int
  totalCols : Int
  rowNums : Int
  colNums : Int
  rawData : ℕ → α

/-- the positions (row, column) that are written in the whole matrix -/
abbrev WriteLog := List (Int × Int)

variable {α : Type*}

namespace DenseBlock

/-- the constructor, which fills the vector with zeros; `none`: `rowNumsIn * colNumsIn` is not an
`int` -/
def create [Zero α] (blockRowIndexIn blockColIndexIn rowNumsIn colNumsIn totalRows totalCols : Int) :
    Option (DenseBlock α) :=
  if rowNumsIn * colNumsIn < 2 ^ 31 then
    some ⟨blockRowIndexIn, blockColIndexIn, totalRows, totalCols, rowNumsIn, colNumsIn, fun _ => 0⟩
  else none

/-- the loops over `src`, whose first element comes to `(rowStart, colStart)` -/
def copyBlock (src : DenseBlock α) (rowStart colStart totalCols : Int) (rawData : ℕ → α) : ℕ → α :=
  scatter (fun p => ((rowStart + p.1) * totalCols + (colStart + p.2)).toNat)
    (fun p => src.rawData (p.1 * src.colNums + p.2).toNat)
    (nested src.rowNums.toNat src.colNums.toNat) rawData

def positions (src : DenseBlock α) (rowStart colStart : Int) : WriteLog :=
  (nested src.rowNums.toNat src.colNums.toNat).map fun p => (rowStart + p.1, colStart + p.2)

/-- where the block belongs -/
def rowStart (b : DenseBlock α) : Int := b.blockRowIndex * b.rowNums

def colStart (b : DenseBlock α) : Int := b.blockColIndex * b.colNums

/-- the block is already enlarged -/
def Enlarged (b : DenseBlock α) : Prop := b.rowNums = b.totalRows ∧ b.colNums = b.totalCols

instance (b : DenseBlock α) : Decidable b.Enlarged := inferInstanceAs (Decidable (_ ∧ _))

end DenseBlock

open DenseBlock
variable [Zero α]

/-- `MatrixBlock::operator+` -/
def MatrixBlock.plus (this other : DenseBlock α) : Option (DenseBlock α × WriteLog) :=
  let totalRows := this.totalRows
  let totalCols := this.totalCols
  if this.colNums = this.totalCols ∧ this.rowNums = this.totalRows then
    some ({ this with
        rawData := copyBlock other (other.blockRowIndex * other.rowNums)
          (other.blockColIndex * other.colNums) totalCols this.rawData },
      positions other (other.blockRowIndex * other.rowNums) (other.blockColIndex * other.colNums))
  else do
    let result ← create 0 0 totalRows totalCols totalRows totalCols
    let rawData := copyBlock this (this.blockRowIndex * this.rowNums)
      (this.blockColIndex * this.colNums) totalCols result.rawData
    let rawData := copyBlock other (other.blockRowIndex * other.rowNums)
      (other.blockColIndex * other.colNums) totalCols rawData
    return ({ result with rawData },
      positions this (this.blockRowIndex * this.rowNums) (this.blockColIndex * this.colNums) ++
        positions other (other.blockRowIndex * other.rowNums) (other.blockColIndex * other.colNums))

/-- the test at the start of the other two: `*this` is returned as it is -/
def Skips (other : DenseBlock α) : Prop :=
  let rowStart := other.blockRowIndex * other.rowNums
  let colStart := other.blockColIndex * other.colNums
  other.blockRowIndex < 0 ∨ rowStart > other.totalRows ∨ other.rowNums ≤ 0 ∨
    other.blockColIndex < 0 ∨ colStart > other.totalCols ∨ other.colNums ≤ 0

instance (other : DenseBlock α) : Decidable (Skips other) :=
  inferInstanceAs (Decidable (_ ∨ _ ∨ _ ∨ _ ∨ _ ∨ _))

/-- `rowStart` and `colStart` of `other` are used for both blocks -/
def plusAtOther (this other : DenseBlock α) : Option (DenseBlock α × WriteLog) :=
  let totalRows := this.totalRows
  let totalCols := this.totalCols
  let rowStart := other.blockRowIndex * other.rowNums
  let colStart := other.blockColIndex * other.colNums
  if Skips other then some (this, [])
  else if this.rowNums = totalRows ∧ this.colNums = totalCols then
    some ({ this with rawData := copyBlock other rowStart colStart totalCols this.rawData },
      positions other rowStart colStart)
  else do
    let result ← create 0 0 totalRows totalCols totalRows totalCols
    let rawData := copyBlock this rowStart colStart totalCols result.rawData
    let rawData := copyBlock other rowStart colStart totalCols rawData
    return ({ result with rawData }, positions this rowStart colStart ++ positions other rowStart colStart)

/-- `FFMatrixBlock::operator+` -/
def FFMatrixBlock.plus (this other : DenseBlock α) : Option (DenseBlock α × WriteLog) :=
  plusAtOther this other

/-- `TensorBlock2D::operator+` -/
def TensorBlock2D.plus (this other : DenseBlock α) : Option (DenseBlock α × WriteLog) :=
  plusAtOther this other

inductive BlockClass
  | matrixBlock
  | ffMatrixBlock
  | tensorBlock2D
deriving DecidableEq, Repr

namespace BlockClass

def plus : BlockClass → DenseBlock α → DenseBlock α → Option (DenseBlock α × WriteLog)
  | matrixBlock => MatrixBlock.plus
  | ffMatrixBlock => FFMatrixBlock.plus
  | tensorBlock2D => TensorBlock2D.plus

/-- `this` is put to its own place -/
def Own (cls : BlockClass) : Prop := cls = matrixBlock

instance (cls : BlockClass) : Decidable cls.Own := inferInstanceAs (Decidable (_ = _))

/-- the block whose place `this` is put to -/
def placeOf (cls : BlockClass) (this other : DenseBlock α) : DenseBlock α :=
  if cls.Own then this else other

variable {cls : BlockClass} {this other : DenseBlock α}

/-- `other` is added to a block that is enlarged -/
theorem plus_enlarged (cls : BlockClass) (hs : ¬ Skips other) (h : this.Enlarged) :
    cls.plus this other = some ({ this with
        rawData := copyBlock other other.rowStart other.colStart this.totalCols this.rawData },
      positions other other.rowStart other.colStart) := by
  cases cls with
  | matrixBlock => exact if_pos h.symm
  | ffMatrixBlock => exact (if_neg hs).trans (if_pos h)
  | tensorBlock2D => exact (if_neg hs).trans (if_pos h)

/-- the first sum -/
theorem plus_first (cls : BlockClass) (hs : ¬ Skips other) (h : ¬ this.Enlarged) :
    cls.plus this other = (create 0 0 this.totalRows this.totalCols this.totalRows this.totalCols).map
      fun result => ({ result with
          rawData := copyBlock other other.rowStart other.colStart this.totalCols
            (copyBlock this (cls.placeOf this other).rowStart (cls.placeOf this other).colStart
              this.totalCols result.rawData) },
        positions this (cls.placeOf this other).rowStart (cls.placeOf this other).colStart ++
          positions other other.rowStart other.colStart) := by
  have hcreate : ∀ f : DenseBlock α → DenseBlock α × WriteLog,
      ((create 0 0 this.totalRows this.totalCols this.totalRows this.totalCols).bind fun result =>
        some (f result)) =
      (create 0 0 this.totalRows this.totalCols this.totalRows this.totalCols).map f := fun f => by
    cases (create 0 0 this.totalRows this.totalCols this.totalRows this.totalCols :
      Option (DenseBlock α)) <;> rfl
  cases cls with
  | matrixBlock => exact (if_neg fun hh => h hh.symm).trans (hcreate _)
  | ffMatrixBlock => exact ((if_neg hs).trans (if_neg h)).trans (hcreate _)
  | tensorBlock2D => exact ((if_neg hs).trans (if_neg h)).trans (hcreate _)

end BlockClass
end Netsdb
