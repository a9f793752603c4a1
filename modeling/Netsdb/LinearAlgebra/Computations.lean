import Netsdb.LinearAlgebra.MatrixBlock
import Netsdb.Lib.Aggregation

/-!
# The computations on blocks (`LASilly*.h`)

* `JoinComp`, `AggregateComp`   what a join and an aggregation are made of, and those of the language;
* `Computation`                 a graph of computations;
* `Gives`                       the blocks that a graph may give, in any order and grouping;
* `Exits`                       the graph may run into an `exit (1)`.
-/

set_option linter.unusedSectionVars false

namespace Netsdb
namespace LinearAlgebra
open Finset Blocked Aggregation

variable {F : Type}

/-- rows and columns of a block, and of blocks -/
structure LADimension where
  blockRowSize : ℕ
  blockColSize : ℕ
  blockRowNum : ℕ
  blockColNum : ℕ
deriving DecidableEq, Repr

def LADimension.transpose (dim : LADimension) : LADimension :=
  ⟨dim.blockColSize, dim.blockRowSize, dim.blockColNum, dim.blockRowNum⟩

/-! ## joins -/

/-- `none`: the blocks do not fit, and the program ends -/
structure JoinComp (F : Type) where
  selection : MatrixBlock F → MatrixBlock F → Bool
  projection : MatrixBlock F → MatrixBlock F → Option (MatrixBlock F)

section
variable [Field F] [LinearOrder F]

def multiply1Join : JoinComp F where
  selection in1 in2 := in1.info.blockColIndex = in2.info.blockRowIndex
  projection in1 in2 :=
    if in1.data.colNums ≠ in2.data.rowNums then none
    else some (.create in1.info.blockRowIndex in2.info.blockColIndex in1.data.rowNums in2.data.colNums
      in1.info.totalRows in2.info.totalCols
      fun i j => ∑ k ∈ range in1.data.colNums, in1.coeff i k * in2.coeff k j)

def transposeMultiply1Join : JoinComp F where
  selection in1 in2 := in1.info.blockRowIndex = in2.info.blockRowIndex
  projection in1 in2 :=
    if in1.data.rowNums ≠ in2.data.rowNums then none
    else some (.create in1.info.blockColIndex in2.info.blockColIndex in1.data.colNums in2.data.colNums
      in1.info.totalCols in2.info.totalCols
      fun i j => ∑ k ∈ range in1.data.rowNums, in1.coeff k i * in2.coeff k j)

/-- the joins of blocks at the same place, element by element -/
def elementJoin (op : F → F → F) (totalCols : MatrixBlock F → MatrixBlock F → ℕ) : JoinComp F where
  selection in1 in2 := in1.index = in2.index
  projection in1 in2 :=
    if in1.data.rowNums ≠ in2.data.rowNums ∨ in1.data.colNums ≠ in2.data.colNums then none
    else some (.create in1.info.blockRowIndex in1.info.blockColIndex in1.data.rowNums in1.data.colNums
      in1.info.totalRows (totalCols in1 in2) fun i j => op (in1.coeff i j) (in2.coeff i j))

def addJoin : JoinComp F := elementJoin (fun x y => x + y) fun in1 _ => in1.info.totalCols

def substractJoin : JoinComp F := elementJoin (fun x y => x - y) fun in1 _ => in1.info.totalCols

def scaleMultiplyJoin : JoinComp F := elementJoin (fun x y => x * y) fun _ in2 => in2.info.totalCols

/-! ## aggregations -/

structure AggregateComp (F : Type) where
  key : MatrixBlock F → MatrixMeta
  value : MatrixBlock F → MatrixData F

def multiply2Aggregate : AggregateComp F := ⟨MatrixBlock.getMultiplyKey, MatrixBlock.getMultiplyValue⟩

def rowMaxAggregate : AggregateComp F := ⟨MatrixBlock.getRowKey, MatrixBlock.getRowMaxValue⟩

def rowMinAggregate : AggregateComp F := ⟨MatrixBlock.getRowKey, MatrixBlock.getRowMinValue⟩

def rowSumAggregate : AggregateComp F := ⟨MatrixBlock.getRowKey, MatrixBlock.getRowSumValue⟩

def colMaxAggregate : AggregateComp F := ⟨MatrixBlock.getColKey, MatrixBlock.getColMaxValue⟩

def colMinAggregate : AggregateComp F := ⟨MatrixBlock.getColKey, MatrixBlock.getColMinValue⟩

def colSumAggregate : AggregateComp F := ⟨MatrixBlock.getColKey, MatrixBlock.getColSumValue⟩

/-! ## selections -/

def transposeSelection (checkMe : MatrixBlock F) : MatrixBlock F :=
  .create checkMe.info.blockColIndex checkMe.info.blockRowIndex checkMe.data.colNums checkMe.data.rowNums
    checkMe.info.totalCols checkMe.info.totalRows fun i j => checkMe.coeff j i

/-- the first row of the block, for each block row -/
def duplicateRow (targetDim : LADimension) (checkMe : MatrixBlock F) : List (MatrixBlock F) :=
  (List.range targetDim.blockRowNum).map fun i =>
    .create i checkMe.info.blockColIndex targetDim.blockRowSize checkMe.data.colNums
      (targetDim.blockRowNum * targetDim.blockRowSize) checkMe.info.totalCols
      fun _ jj => checkMe.data.rawData jj

/-- the first values of the block, for each block column -/
def duplicateCol (targetDim : LADimension) (checkMe : MatrixBlock F) : List (MatrixBlock F) :=
  (List.range targetDim.blockColNum).map fun i =>
    .create checkMe.info.blockRowIndex i checkMe.data.rowNums targetDim.blockColSize
      checkMe.info.totalRows (targetDim.blockColNum * targetDim.blockColSize)
      fun ii _ => checkMe.data.rawData ii

/-- the inverse that Eigen computes -/
abbrev Inverse (F : Type) := ∀ n, Matrix (Fin n) (Fin n) F → Matrix (Fin n) (Fin n) F

/-- `none`: the matrix is not a square -/
def getInverse (inverse : Inverse F) (myValue : MatrixBlock F) : Option (MatrixBlock F) :=
  let n := myValue.data.rowNums
  if myValue.data.colNums ≠ n then none
  else some (.create myValue.info.blockColIndex myValue.info.blockRowIndex n n myValue.info.totalRows
    myValue.info.totalCols fun i j =>
      if h : i < n ∧ j < n then
        inverse n (Matrix.of fun i j => myValue.coeff i j) ⟨i, h.1⟩ ⟨j, h.2⟩
      else 0)

/-- `LASillyInverse3MultiSelection` -/
def split (targetDim : LADimension) (largeM : MatrixBlock F) : List (MatrixBlock F) :=
  let totalRows := targetDim.blockRowSize * targetDim.blockRowNum
  let totalCols := targetDim.blockColSize * targetDim.blockColNum
  (nested targetDim.blockRowNum targetDim.blockColNum).map fun p =>
    .create p.1 p.2 targetDim.blockRowSize targetDim.blockColSize totalRows totalCols fun ii jj =>
      largeM.data.rawData ((p.1 * targetDim.blockRowSize + ii) * totalCols +
        (p.2 * targetDim.blockColSize + jj))

/-! ## graphs -/

/-- `LA_<method>_<n>` and `LA_computation_result_<identifier>` -/
inductive SetName
  | init (method : String) (index : ℕ)
  | result (identifier : String)
deriving DecidableEq, Repr

/-- `inverse` stands for the three computations of an inverse, one after the other -/
inductive Computation (F : Type)
  | scan (setName : SetName)
  | join (comp : JoinComp F) (left right : Computation F)
  | aggregate (comp : AggregateComp F) (input : Computation F)
  | selection (projection : MatrixBlock F → MatrixBlock F) (input : Computation F)
  | multiSelection (projection : MatrixBlock F → List (MatrixBlock F)) (input : Computation F)
  | inverse (targetDim : LADimension) (input : Computation F)

/-- the pairs of a join, projected -/
def JoinComp.pairs (comp : JoinComp F) (left right : List (MatrixBlock F)) :
    Option (List (MatrixBlock F)) :=
  ((left ×ˢ right).filter fun e => comp.selection e.1 e.2).mapM fun e => comp.projection e.1 e.2

/-- for each key a block; of equal keys any one is kept -/
def AggregateComp.Gives (comp : AggregateComp F) (inputs outputs : List (MatrixBlock F)) : Prop :=
  ∃ groups, Aggregates (fun b => (comp.key b).index) comp.value MatrixData.plus inputs groups ∧
    List.Forall₂ (fun e out => out.data = e.2 ∧ out.index = e.1 ∧ ∃ b ∈ inputs, comp.key b = out.info)
      groups outputs

/-- `operator+` of the aggregation to one block -/
def mergeBlocks (b other : Option (MatrixBlock F)) : Option (MatrixBlock F) :=
  b.bind fun b => other.bind fun other => b.plus other

variable (inverse : Inverse F) (sets : SetName → Option (List (MatrixBlock F)))

def Gives : Computation F → List (MatrixBlock F) → Prop
  | .scan setName, out => ∃ blocks, sets setName = some blocks ∧ out.Perm blocks
  | .join comp left right, out => ∃ l r blocks, Gives left l ∧ Gives right r ∧
      comp.pairs l r = some blocks ∧ out.Perm blocks
  | .aggregate comp input, out => ∃ blocks, Gives input blocks ∧ comp.Gives blocks out
  | .selection projection input, out => ∃ blocks, Gives input blocks ∧
      out.Perm (blocks.map projection)
  | .multiSelection projection input, out => ∃ blocks, Gives input blocks ∧
      out.Perm (blocks.flatMap projection)
  | .inverse targetDim input, out => ∃ blocks large inv, Gives input blocks ∧
      Merged some mergeBlocks blocks (some large) ∧ getInverse inverse large = some inv ∧
      out.Perm (split targetDim inv)

def Exits : Computation F → Prop
  | .scan setName => sets setName = none
  | .join comp left right => Exits left ∨ Exits right ∨
      ∃ l r, Gives inverse sets left l ∧ Gives inverse sets right r ∧ comp.pairs l r = none
  | .aggregate _ input | .selection _ input | .multiSelection _ input => Exits input
  | .inverse _ input => Exits input ∨ ∃ blocks large, Gives inverse sets input blocks ∧
      Merged some mergeBlocks blocks large ∧ large.bind (getInverse inverse) = none

end

end LinearAlgebra
end Netsdb
