import Netsdb.FF.MatrixBlock
import Netsdb.Lib.Blocked
import Mathlib.Algebra.Order.Field.Basic
import Mathlib.Data.Matrix.Basic

/-!
# Blocks of matrices (`MatrixBlock.h`, `MatrixMeta.h`, `MatrixData.h`)

* `MatrixData.plus`    adds two values of a key, as the flag says;
* `MatrixBlock.create` a new block, with what Eigen assigns to it;
* `rowValue`, `colValue`  what the aggregations by rows and by columns take of a block;
* `getMaxElementValue`, `getMinElementValue`   the extreme elements, from -100000 and 100000 on.

Sizes and indices are such that the `int`s do not overflow, and numbers are exact.
-/

set_option linter.unusedSectionVars false

namespace Netsdb
namespace LinearAlgebra
open Finset Blocked

variable {F : Type}

structure MatrixMeta where
  blockRowIndex : ℕ
  blockColIndex : ℕ
  totalRows : ℕ
  totalCols : ℕ
deriving DecidableEq, Repr

/-- all that `operator==` compares -/
def MatrixMeta.index (m : MatrixMeta) : ℕ × ℕ := (m.blockRowIndex, m.blockColIndex)

inductive Flag
  | unset
  | maxtrixSum
  | matrixRowMax
  | matrixRowMin
  | matrixColMax
  | matrixColMin
deriving DecidableEq, Repr

/-- `rawData` is the memory from `c_ptr ()` on, and `size` is that of the vector -/
structure MatrixData (F : Type) where
  rowNums : ℕ
  colNums : ℕ
  flag : Flag
  size : ℕ
  rawData : ℕ → F

structure MatrixBlock (F : Type) where
  info : MatrixMeta
  data : MatrixData F

namespace MatrixData

/-- an element of the matrix that Eigen maps to the memory -/
def coeff (d : MatrixData F) (i j : ℕ) : F := d.rawData (i * d.colNums + j)

/-- a new vector, and what Eigen assigns to it -/
def create [Zero F] (flag : Flag) (rowNums colNums : ℕ) (m : ℕ → ℕ → F) : MatrixData F :=
  ⟨rowNums, colNums, flag, rowNums * colNums,
    fun k => if k < rowNums * colNums then m (k / colNums) (k % colNums) else 0⟩

/-- the loop of the five aggregations -/
def aggregate (op : F → F → F) (d other : MatrixData F) : MatrixData F :=
  { d with rawData := fun k =>
      if k < d.rowNums * d.colNums then op (d.rawData k) (other.rawData k) else d.rawData k }

variable [Field F] [LinearOrder F]

def sumAggregate : MatrixData F → MatrixData F → MatrixData F := aggregate fun x y => x + y

def rowMaxAggregate : MatrixData F → MatrixData F → MatrixData F :=
  aggregate fun x y => if x < y then y else x

def rowMinAggregate : MatrixData F → MatrixData F → MatrixData F :=
  aggregate fun x y => if y < x then y else x

def colMaxAggregate : MatrixData F → MatrixData F → MatrixData F :=
  aggregate fun x y => if x < y then y else x

def colMinAggregate : MatrixData F → MatrixData F → MatrixData F :=
  aggregate fun x y => if y < x then y else x

/-- `operator+`; blocks of different sizes clear the vector -/
def plus (d other : MatrixData F) : MatrixData F :=
  if d.rowNums ≠ other.rowNums ∨ d.colNums ≠ other.colNums then { d with size := 0 }
  else match d.flag with
    | .maxtrixSum => d.sumAggregate other
    | .matrixRowMax => d.rowMaxAggregate other
    | .matrixRowMin => d.rowMinAggregate other
    | .matrixColMax => d.colMaxAggregate other
    | .matrixColMin => d.colMinAggregate other
    | .unset => d

end MatrixData

/-- what an extreme element is: `LAMaxElementValueType`, `LAMinElementValueType` -/
structure ElementValue (F : Type) where
  value : F
  rowIndex : ℤ
  colIndex : ℤ
deriving DecidableEq

namespace MatrixBlock

def index (b : MatrixBlock F) : ℕ × ℕ := b.info.index

def coeff (b : MatrixBlock F) (i j : ℕ) : F := b.data.coeff i j

def create [Zero F] (blockRowIndex blockColIndex rowNums colNums totalRows totalCols : ℕ)
    (m : ℕ → ℕ → F) : MatrixBlock F :=
  ⟨⟨blockRowIndex, blockColIndex, totalRows, totalCols⟩, .create .unset rowNums colNums m⟩

def getMultiplyKey (b : MatrixBlock F) : MatrixMeta := b.info

def getMultiplyValue (b : MatrixBlock F) : MatrixData F := { b.data with flag := .maxtrixSum }

def getRowKey (b : MatrixBlock F) : MatrixMeta := ⟨b.info.blockRowIndex, 0, 0, 0⟩

def getColKey (b : MatrixBlock F) : MatrixMeta := ⟨0, b.info.blockColIndex, 0, 0⟩

/-- a column with a value for each row -/
def rowValue [Zero F] (flag : Flag) (op : F → F → F) (b : MatrixBlock F) : MatrixData F :=
  .create flag b.data.rowNums 1 fun i _ => total op b.data.colNums fun j => b.coeff i j

/-- a row with a value for each column -/
def colValue [Zero F] (flag : Flag) (op : F → F → F) (b : MatrixBlock F) : MatrixData F :=
  .create flag 1 b.data.colNums fun _ j => total op b.data.rowNums fun i => b.coeff i j

variable [Field F] [LinearOrder F]

def getRowMaxValue : MatrixBlock F → MatrixData F := rowValue .matrixRowMax max

def getRowMinValue : MatrixBlock F → MatrixData F := rowValue .matrixRowMin min

def getRowSumValue : MatrixBlock F → MatrixData F := rowValue .maxtrixSum fun x y => x + y

def getColMaxValue : MatrixBlock F → MatrixData F := colValue .matrixColMax max

def getColMinValue : MatrixBlock F → MatrixData F := colValue .matrixColMin min

def getColSumValue : MatrixBlock F → MatrixData F := colValue .maxtrixSum fun x y => x + y

/-- the loop over the elements; `better` is `>` or `<` -/
def elementValue (better : F → F → Bool) (start : F) (b : MatrixBlock F) : ElementValue F :=
  (List.range b.data.size).foldl (fun result i =>
    if better (b.data.rawData i) result.value then
      ⟨b.data.rawData i, b.info.blockRowIndex * b.data.rowNums + i / b.data.colNums,
        b.info.blockColIndex * b.data.colNums + i % b.data.colNums⟩
    else result) ⟨start, -1, -1⟩

def getMaxElementValue : MatrixBlock F → ElementValue F := elementValue (fun x y => y < x) (-100000)

def getMinElementValue : MatrixBlock F → ElementValue F := elementValue (fun x y => x < y) 100000

/-- as the operator that merges blocks sees it -/
def toDense (b : MatrixBlock F) : DenseBlock F :=
  ⟨b.info.blockRowIndex, b.info.blockColIndex, b.info.totalRows, b.info.totalCols, b.data.rowNums,
    b.data.colNums, b.data.rawData⟩

def ofDense (d : DenseBlock F) : MatrixBlock F :=
  ⟨⟨d.blockRowIndex.toNat, d.blockColIndex.toNat, d.totalRows.toNat, d.totalCols.toNat⟩,
    ⟨d.rowNums.toNat, d.colNums.toNat, .unset, d.rowNums.toNat * d.colNums.toNat, d.rawData⟩⟩

/-- `operator+` -/
def plus (b other : MatrixBlock F) : Option (MatrixBlock F) :=
  (Netsdb.MatrixBlock.plus b.toDense other.toDense).map fun r => ofDense r.1

end MatrixBlock

def ElementValue.plus (better : F → F → Bool) (e other : ElementValue F) : ElementValue F :=
  if better other.value e.value then other else e

/-- `operator+` of `LAMaxElementValueType` -/
def ElementValue.maxPlus [LinearOrder F] : ElementValue F → ElementValue F → ElementValue F :=
  plus fun x y => y < x

/-- `operator+` of `LAMinElementValueType` -/
def ElementValue.minPlus [LinearOrder F] : ElementValue F → ElementValue F → ElementValue F :=
  plus fun x y => x < y

/-! ## what is read back -/

section
variable [Field F] [LinearOrder F] {i j rowNums colNums : ℕ} {m : ℕ → ℕ → F} {flag : Flag}
  {d other : MatrixData F} {op : F → F → F}

theorem place_lt (hi : i < rowNums) (hj : j < colNums) : i * colNums + j < rowNums * colNums :=
  calc i * colNums + j < i * colNums + colNums := by omega
    _ = (i + 1) * colNums := (Nat.succ_mul ..).symm
    _ ≤ rowNums * colNums := Nat.mul_le_mul_right colNums hi

theorem place_div (hj : j < colNums) : (i * colNums + j) / colNums = i := by
  rw [Nat.mul_comm, Nat.mul_add_div (by omega), Nat.div_eq_of_lt hj, Nat.add_zero]

theorem place_mod (hj : j < colNums) : (i * colNums + j) % colNums = j := by
  rw [Nat.mul_comm, Nat.mul_add_mod, Nat.mod_eq_of_lt hj]

theorem coeff_create (hi : i < rowNums) (hj : j < colNums) :
    (MatrixData.create flag rowNums colNums m).coeff i j = m i j := by
  show (if i * colNums + j < rowNums * colNums then m ((i * colNums + j) / colNums)
    ((i * colNums + j) % colNums) else 0) = m i j
  rw [if_pos (place_lt hi hj), place_div hj, place_mod hj]

theorem create_congr {m' : ℕ → ℕ → F} (h : ∀ i < rowNums, ∀ j < colNums, m i j = m' i j) :
    MatrixData.create flag rowNums colNums m = .create flag rowNums colNums m' := by
  rw [MatrixData.create, MatrixData.create]
  congr 1
  funext k
  by_cases hk : k < rowNums * colNums
  · have hpos : 0 < colNums := Nat.pos_of_mul_pos_left (Nat.zero_lt_of_lt hk)
    rw [if_pos hk, if_pos hk, h _ (Nat.div_lt_of_lt_mul (Nat.mul_comm .. ▸ hk)) _ (Nat.mod_lt k hpos)]
  · rw [if_neg hk, if_neg hk]

theorem coeff_aggregate (hi : i < d.rowNums) (hj : j < d.colNums) (hcols : other.colNums = d.colNums) :
    (d.aggregate op other).coeff i j = op (d.coeff i j) (other.coeff i j) := by
  show (if i * d.colNums + j < d.rowNums * d.colNums then op (d.rawData (i * d.colNums + j))
    (other.rawData (i * d.colNums + j)) else _) = _
  rw [if_pos (place_lt hi hj), MatrixData.coeff, MatrixData.coeff, hcols]

/-- the operation that a flag chooses -/
def Flag.Chooses (op : F → F → F) : Flag → Prop
  | .unset => False
  | .maxtrixSum => op = fun x y => x + y
  | .matrixRowMax | .matrixColMax => op = max
  | .matrixRowMin | .matrixColMin => op = min

theorem plus_eq (hflag : d.flag.Chooses op) (hrows : other.rowNums = d.rowNums)
    (hcols : other.colNums = d.colNums) : d.plus other = d.aggregate op other := by
  have hmax : (fun x y : F => if x < y then y else x) = max := by
    funext x y
    exact (max_def_lt x y).symm
  have hmin : (fun x y : F => if y < x then y else x) = min := by
    funext x y
    rw [min_comm, min_def_lt]
  rw [MatrixData.plus, if_neg (not_or.mpr ⟨not_not.mpr hrows.symm, not_not.mpr hcols.symm⟩)]
  cases hf : d.flag <;> rw [hf] at hflag
  case unset => exact hflag.elim
  case maxtrixSum => exact congrArg (fun op => d.aggregate op other) (Eq.symm hflag)
  case matrixRowMax => exact congrArg (fun op => d.aggregate op other) (hmax.trans (Eq.symm hflag))
  case matrixRowMin => exact congrArg (fun op => d.aggregate op other) (hmin.trans (Eq.symm hflag))
  case matrixColMax => exact congrArg (fun op => d.aggregate op other) (hmax.trans (Eq.symm hflag))
  case matrixColMin => exact congrArg (fun op => d.aggregate op other) (hmin.trans (Eq.symm hflag))

end

end LinearAlgebra
end Netsdb
