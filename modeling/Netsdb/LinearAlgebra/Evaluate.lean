import Netsdb.LinearAlgebra.Represents
import Netsdb.Loading.LAInitializerNode

/-!
# Programs of the language (`LAEvaluateFunctions.cc`, `LAPDBInstance.h`)

* `Expr`              expressions; a node whose operator is `none` is its child;
* `evaluate`          the graph of an expression, and its dimension;
* `denote`            the matrix that it means;
* `evaluate_spec`     the graph is built just where there is such a matrix, and all its runs represent it;

Names of sets are told apart as they are made, `LA_<method>_<n>` and
`LA_computation_result_<identifier>`.
-/

set_option linter.unusedSectionVars false

namespace Netsdb
namespace LinearAlgebra
open Finset Blocked Aggregation

variable {F : Type}

/-! ## expressions -/

inductive Method
  | zeros
  | ones
  | identity
  | load (path : String)
deriving DecidableEq, Repr

def Method.text : Method → String
  | .zeros => "zeros"
  | .ones => "ones"
  | .identity => "identity"
  | .load _ => "load"

/-- the functions that fold rows or columns -/
inductive Fold
  | rowMax
  | rowMin
  | rowSum
  | colMax
  | colMin
  | colSum
deriving DecidableEq, Repr

inductive Operator
  | scaleMultiply
  | multiply
  | transposeMultiply
  | add
  | substract
deriving DecidableEq, Repr

inductive Expr
  | identifier (name : String)
  | initializer (method : Method) (dim : LADimension)
  | recursive (child : Expr)
  | fold (fn : Fold) (child : Expr)
  | duplicateRow (child : Expr) (size num : ℕ)
  | duplicateCol (child : Expr) (size num : ℕ)
  | transpose (child : Expr)
  | inverse (child : Expr)
  | binary (op : Operator) (left right : Expr)
deriving DecidableEq, Repr

def Expr.isSyntaxSugarInitializer : Expr → Bool
  | .initializer _ _ => true
  | _ => false

/-! ## the instance -/

/-- `sets` are those of the storage -/
structure LAPDBInstance (F : Type) where
  dispatchCount : ℕ
  cachedSet : SetName → Bool
  identifierPDBSetNameMap : String → Option SetName
  identifierDimensionMap : String → Option LADimension
  sets : SetName → Option (List (MatrixBlock F))

/-- the numbers in the files -/
abbrev Files (F : Type) := String → ℕ → LABlocks.Entry F

section
variable [Field F] [LinearOrder F]

/-! ## initializers -/

def ofLoaded (b : LABlocks.MatrixBlock F) : MatrixBlock F :=
  ⟨⟨b.blockRowIndex.toNat, b.blockColIndex.toNat, b.totalRows, b.totalCols⟩,
    ⟨b.rowNums, b.colNums, .unset, b.rowNums * b.colNums, b.rawData⟩⟩

def LADimension.plan (dim : LADimension) : LABlocks.Plan :=
  ⟨dim.blockRowSize, dim.blockColSize, dim.blockRowNum * dim.blockRowSize,
    dim.blockColNum * dim.blockColSize, dim.blockRowNum * dim.blockColNum⟩

/-- an element of a block, but for `load` -/
def Method.value (method : Method) (i j ii jj : ℕ) : F :=
  match method with
  | .ones => 1
  | .identity => if i = j ∧ ii = jj then 1 else 0
  | _ => 0

/-- the blocks that are sent; those of a file are what the loader reads where no block has to be
appended twice -/
def Method.blocks (files : Files F) (method : Method) (dim : LADimension) : List (MatrixBlock F) :=
  match method with
  | .load path => (List.range (dim.blockRowNum * dim.blockColNum)).map fun k =>
      ofLoaded ((files path k).block dim.plan)
  | _ => (List.range (dim.blockRowNum * dim.blockColNum)).map fun writtenBlocks =>
      .create (writtenBlocks / dim.blockColNum) (writtenBlocks % dim.blockColNum) dim.blockRowSize
        dim.blockColSize (dim.blockRowNum * dim.blockRowSize) (dim.blockColNum * dim.blockColSize)
        (method.value (writtenBlocks / dim.blockColNum) (writtenBlocks % dim.blockColNum))

/-! ## evaluation -/

def Fold.comp : Fold → AggregateComp F
  | .rowMax => rowMaxAggregate
  | .rowMin => rowMinAggregate
  | .rowSum => rowSumAggregate
  | .colMax => colMaxAggregate
  | .colMin => colMinAggregate
  | .colSum => colSumAggregate

def Fold.isRow : Fold → Bool
  | .rowMax | .rowMin | .rowSum => true
  | .colMax | .colMin | .colSum => false

def Fold.dimension (fn : Fold) (dim : LADimension) : LADimension :=
  if fn.isRow then ⟨dim.blockRowSize, 1, dim.blockRowNum, 1⟩
  else ⟨1, dim.blockColSize, 1, dim.blockColNum⟩

/-- the test of the dimensions -/
def Operator.Matches (op : Operator) (dimLeft dimRight : LADimension) : Prop :=
  match op with
  | .multiply => dimLeft.blockColSize = dimRight.blockRowSize ∧ dimLeft.blockColNum = dimRight.blockRowNum
  | .transposeMultiply =>
    dimLeft.blockRowSize = dimRight.blockRowSize ∧ dimLeft.blockRowNum = dimRight.blockRowNum
  | _ => dimLeft = dimRight

instance matchesDecidable (op : Operator) (dimLeft dimRight : LADimension) :
    Decidable (op.Matches dimLeft dimRight) :=
  match op with
  | .multiply | .transposeMultiply => inferInstanceAs (Decidable (_ ∧ _))
  | .scaleMultiply | .add | .substract => inferInstanceAs (Decidable (_ = _))

def Operator.dimension (op : Operator) (dimLeft dimRight : LADimension) : LADimension :=
  match op with
  | .multiply =>
    ⟨dimLeft.blockRowSize, dimRight.blockColSize, dimLeft.blockRowNum, dimRight.blockColNum⟩
  | .transposeMultiply =>
    ⟨dimLeft.blockColSize, dimRight.blockColSize, dimLeft.blockColNum, dimRight.blockColNum⟩
  | _ => dimLeft

def Operator.graph (op : Operator) (left right : Computation F) : Computation F :=
  match op with
  | .scaleMultiply => .join scaleMultiplyJoin left right
  | .multiply => .aggregate multiply2Aggregate (.join multiply1Join left right)
  | .transposeMultiply => .aggregate multiply2Aggregate (.join transposeMultiply1Join left right)
  | .add => .join addJoin left right
  | .substract => .join substractJoin left right

/-- `none`: the program ends with an error; both maps have a name, or none of them has it -/
def evaluate (files : Files F) : Expr → LAPDBInstance F →
    Option (Computation F × LADimension × LAPDBInstance F)
  | .identifier name, inst => do
    let dim ← inst.identifierDimensionMap name
    let setName ← inst.identifierPDBSetNameMap name
    return (.scan setName, dim, inst)
  | .initializer method dim, inst =>
    let setName := .init method.text inst.dispatchCount
    if (inst.sets setName).isSome ∨ inst.cachedSet setName then none
    else some (.scan setName, dim,
      { inst with
        dispatchCount := inst.dispatchCount + 1
        sets := Function.update inst.sets setName (some (method.blocks files dim))
        cachedSet := Function.update inst.cachedSet setName true })
  | .recursive child, inst => evaluate files child inst
  | .fold fn child, inst => do
    let (input, dim, inst) ← evaluate files child inst
    return (.aggregate fn.comp input, fn.dimension dim, inst)
  | .duplicateRow child size num, inst => do
    let (input, dim, inst) ← evaluate files child inst
    let updatedDim := ⟨size, dim.blockColSize, num, dim.blockColNum⟩
    return (.multiSelection (duplicateRow updatedDim) input, updatedDim, inst)
  | .duplicateCol child size num, inst => do
    let (input, dim, inst) ← evaluate files child inst
    let updatedDim := ⟨dim.blockRowSize, size, dim.blockRowNum, num⟩
    return (.multiSelection (duplicateCol updatedDim) input, updatedDim, inst)
  | .transpose child, inst => do
    let (input, dim, inst) ← evaluate files child inst
    return (.selection transposeSelection input, dim.transpose, inst)
  | .inverse child, inst => do
    let (input, dim, inst) ← evaluate files child inst
    return (.inverse dim.transpose input, dim.transpose, inst)
  | .binary op left right, inst => do
    let (left, dimLeft, inst) ← evaluate files left inst
    let (right, dimRight, inst) ← evaluate files right inst
    if op.Matches dimLeft dimRight then
      some (op.graph left right, op.dimension dimLeft dimRight, inst)
    else none

/-! ## what expressions mean -/

/-- the place of a block in a file -/
def fileIndex (file : ℕ → LABlocks.Entry F) (k : ℕ) : ℤ × ℤ := ((file k).i, (file k).j)

/-- the value of the block that covers a place -/
def Mat.ofFile (file : ℕ → LABlocks.Entry F) (dim : LADimension) : Mat F :=
  ⟨dim.blockRowNum * dim.blockRowSize, dim.blockColNum * dim.blockColSize, fun x y =>
    ((List.range (dim.blockRowNum * dim.blockColNum)).find? fun k =>
      fileIndex file k = (((x / dim.blockRowSize : ℕ) : ℤ), ((y / dim.blockColSize : ℕ) : ℤ))).elim 0
        fun k => ((file k).values (x % dim.blockRowSize * dim.blockColSize + y % dim.blockColSize)).double⟩

def Method.mat (files : Files F) (method : Method) (dim : LADimension) : Mat F :=
  match method with
  | .zeros => ⟨dim.blockRowNum * dim.blockRowSize, dim.blockColNum * dim.blockColSize, fun _ _ => 0⟩
  | .ones => ⟨dim.blockRowNum * dim.blockRowSize, dim.blockColNum * dim.blockColSize, fun _ _ => 1⟩
  | .identity => ⟨dim.blockRowNum * dim.blockRowSize, dim.blockColNum * dim.blockColSize,
      fun x y => if x = y then 1 else 0⟩
  | .load path => .ofFile (files path) dim

def Fold.op : Fold → F → F → F
  | .rowMax | .colMax => max
  | .rowMin | .colMin => min
  | .rowSum | .colSum => fun x y => x + y

def Fold.mat (fn : Fold) (A : Mat F) : Mat F := if fn.isRow then A.totalRows fn.op else A.totalCols fn.op

def Operator.mat (op : Operator) (A B : Mat F) : Mat F :=
  match op with
  | .scaleMultiply => A.zipWith (fun x y => x * y) B
  | .multiply => A.mul B
  | .transposeMultiply => A.transpose.mul B
  | .add => A.zipWith (fun x y => x + y) B
  | .substract => A.zipWith (fun x y => x - y) B

/-- the variables -/
abbrev Bindings (F : Type) := String → Option (LADimension × Mat F)

/-- the matrix of an expression, and how it is cut into blocks -/
noncomputable def denote (files : Files F) (env : Bindings F) : Expr → Option (LADimension × Mat F)
  | .identifier name => env name
  | .initializer method dim => some (dim, method.mat files dim)
  | .recursive child => denote files env child
  | .fold fn child => (denote files env child).map fun a => (fn.dimension a.1, fn.mat a.2)
  | .duplicateRow child size num => (denote files env child).map fun a =>
      (⟨size, a.1.blockColSize, num, a.1.blockColNum⟩, a.2.duplicateRow (num * size))
  | .duplicateCol child size num => (denote files env child).map fun a =>
      (⟨a.1.blockRowSize, size, a.1.blockRowNum, num⟩, a.2.duplicateCol (num * size))
  | .transpose child => (denote files env child).map fun a => (a.1.transpose, a.2.transpose)
  | .inverse child => (denote files env child).map fun a => (a.1.transpose, a.2.inverse)
  | .binary op left right => (denote files env left).bind fun a => (denote files env right).bind fun b =>
      if op.Matches a.1 b.1 then some (op.dimension a.1 b.1, op.mat a.2 b.2) else none

/-! ## what the language asks for -/

/-- the identity is a square, and a file has each block once -/
def Method.Fits (files : Files F) (method : Method) (dim : LADimension) : Prop :=
  match method with
  | .zeros | .ones => True
  | .identity => dim.blockColSize = dim.blockRowSize
  | .load path => ((List.range (dim.blockRowNum * dim.blockColNum)).map (fileIndex (files path))).Perm
      ((nested dim.blockRowNum dim.blockColNum).map fun p => ((p.1 : ℤ), (p.2 : ℤ)))

/-- a matrix of one block that has an inverse -/
structure Mat.Invertible (dim : LADimension) (A : Mat F) : Prop where
  rowNum : dim.blockRowNum = 1
  colNum : dim.blockColNum = 1
  square : dim.blockColSize = dim.blockRowSize
  unit : IsUnit A.toMatrix.det

/-- rows are duplicated of a row, columns of a column, and inverses are taken of invertible matrices of
one block -/
def Expr.Fits (files : Files F) (env : Bindings F) : Expr → Prop
  | .identifier _ => True
  | .initializer method dim => dim.Positive ∧ method.Fits files dim
  | .recursive child | .fold _ child | .transpose child => child.Fits files env
  | .duplicateRow child size num => child.Fits files env ∧ 0 < size ∧ 0 < num ∧
      ∀ a ∈ denote files env child, a.1.blockRowSize = 1 ∧ a.1.blockRowNum = 1
  | .duplicateCol child size num => child.Fits files env ∧ 0 < size ∧ 0 < num ∧
      ∀ a ∈ denote files env child, a.1.blockColSize = 1 ∧ a.1.blockColNum = 1
  | .inverse child => child.Fits files env ∧ ∀ a ∈ denote files env child, a.2.Invertible a.1
  | .binary _ left right => left.Fits files env ∧ right.Fits files env

/-! ## initializers represent their matrices -/

variable {files : Files F} {env : Bindings F} {dim dim' : LADimension} {A B : Mat F}
  {inverse : Inverse F} {sets : SetName → Option (List (MatrixBlock F))} {g g' : Computation F}
  {inst : LAPDBInstance F} {e : Expr} {method : Method} {blocks : List (MatrixBlock F)}

theorem nodup_nested (rows cols : ℕ) : (nested rows cols).Nodup :=
  List.nodup_range.product List.nodup_range

theorem created_represents (totalRows totalCols : ℕ) (hcols : A.cols = dim.blockColNum * dim.blockColSize)
    (hrows : A.rows = dim.blockRowNum * dim.blockRowSize) (value : ℕ → ℕ → ℕ → ℕ → F)
    (hvalue : ∀ i j, ∀ ii < dim.blockRowSize, ∀ jj < dim.blockColSize, value i j ii jj =
      A.entry (i * dim.blockRowSize + ii) (j * dim.blockColSize + jj)) :
    Represents dim ((List.range (dim.blockRowNum * dim.blockColNum)).map fun k =>
      .create (k / dim.blockColNum) (k % dim.blockColNum) dim.blockRowSize dim.blockColSize
        totalRows totalCols (value (k / dim.blockColNum) (k % dim.blockColNum))) A := by
  have hindex : ((List.range (dim.blockRowNum * dim.blockColNum)).map fun k => MatrixBlock.create
      (k / dim.blockColNum) (k % dim.blockColNum) dim.blockRowSize dim.blockColSize
      totalRows totalCols (value (k / dim.blockColNum) (k % dim.blockColNum))).map MatrixBlock.index =
      nested dim.blockRowNum dim.blockColNum := by
    rw [List.map_map, nested_eq_map]
    rfl
  refine ⟨hrows, hcols, ?_, fun p => ?_, fun b hb => ?_, fun b hb i hi j hj => ?_⟩
  · rw [hindex]
    exact nodup_nested ..
  · rw [hindex]
    exact mem_nested
  · obtain ⟨k, -, rfl⟩ := List.mem_map.mp hb
    exact ⟨rfl, rfl, rfl⟩
  · obtain ⟨k, -, rfl⟩ := List.mem_map.mp hb
    exact (coeff_create hi hj).trans (hvalue _ _ i hi j hj)

theorem loaded_represents (file : ℕ → LABlocks.Entry F)
    (hfile : ((List.range (dim.blockRowNum * dim.blockColNum)).map (fileIndex file)).Perm
      ((nested dim.blockRowNum dim.blockColNum).map fun p => ((p.1 : ℤ), (p.2 : ℤ)))) :
    Represents dim ((List.range (dim.blockRowNum * dim.blockColNum)).map fun k =>
      ofLoaded ((file k).block dim.plan)) (Mat.ofFile file dim) := by
  have hindex : (((List.range (dim.blockRowNum * dim.blockColNum)).map fun k =>
      ofLoaded ((file k).block dim.plan)).map MatrixBlock.index).Perm
      (nested dim.blockRowNum dim.blockColNum) := by
    have hmap := hfile.map fun p => (p.1.toNat, p.2.toNat)
    rw [List.map_map, List.map_map] at hmap
    rw [List.map_map]
    refine List.Perm.trans (List.Perm.of_eq rfl) (hmap.trans (List.Perm.of_eq ?_))
    exact List.map_id _
  have hnodup : ((List.range (dim.blockRowNum * dim.blockColNum)).map (fileIndex file)).Nodup := by
    refine hfile.nodup_iff.mpr ((nodup_nested ..).map fun p q he => ?_)
    have h1 := congrArg Prod.fst he
    have h2 := congrArg Prod.snd he
    exact Prod.ext (Int.natCast_inj.mp h1) (Int.natCast_inj.mp h2)
  refine ⟨rfl, rfl, hindex.nodup_iff.mpr (nodup_nested ..), fun p => hindex.mem_iff.trans mem_nested,
    fun b hb => ?_, fun b hb i hi j hj => ?_⟩
  · obtain ⟨k, -, rfl⟩ := List.mem_map.mp hb
    exact ⟨rfl, rfl, rfl⟩
  · obtain ⟨k, hk, rfl⟩ := List.mem_map.mp hb
    have hplace : fileIndex file k = (((file k).i.toNat : ℤ), ((file k).j.toNat : ℤ)) := by
      obtain ⟨p, -, hp⟩ := List.mem_map.mp (hfile.mem_iff.mp (List.mem_map_of_mem hk))
      have h1 : (p.1 : ℤ) = (file k).i := congrArg Prod.fst hp
      have h2 : (p.2 : ℤ) = (file k).j := congrArg Prod.snd hp
      rw [fileIndex, ← h1, ← h2]
      rfl
    have hfind : (List.range (dim.blockRowNum * dim.blockColNum)).find? (fun k' => decide
        (fileIndex file k' = (((file k).i.toNat : ℤ), ((file k).j.toNat : ℤ)))) = some k := by
      cases hfound : (List.range (dim.blockRowNum * dim.blockColNum)).find? (fun k' => decide
          (fileIndex file k' = (((file k).i.toNat : ℤ), ((file k).j.toNat : ℤ)))) with
      | none => exact absurd hplace (of_decide_eq_false (by simpa using List.find?_eq_none.mp hfound k hk))
      | some k' =>
        have hk' := List.mem_of_find?_eq_some hfound
        have hindex' : fileIndex file k' = (((file k).i.toNat : ℤ), ((file k).j.toNat : ℤ)) := by
          simpa using List.find?_some hfound
        rw [List.inj_on_of_nodup_map hnodup hk' hk (hindex'.trans hplace.symm)]
    show (if i * dim.blockColSize + j < dim.blockRowSize * dim.blockColSize then _ else _) =
      Option.elim (List.find? _ _) _ _
    rw [if_pos (place_lt hi hj)]
    show _ = Option.elim (List.find? (fun k' => decide (fileIndex file k' =
      ((((((file k).i.toNat * dim.blockRowSize + i) / dim.blockRowSize : ℕ)) : ℤ),
        (((((file k).j.toNat * dim.blockColSize + j) / dim.blockColSize : ℕ)) : ℤ)))) _) _ _
    rw [place_div hi, place_div hj, hfind]
    show _ = ((file k).values (((file k).i.toNat * dim.blockRowSize + i) % dim.blockRowSize *
      dim.blockColSize + ((file k).j.toNat * dim.blockColSize + j) % dim.blockColSize)).double
    rw [place_mod hi, place_mod hj]
    rfl

theorem method_represents (hfits : method.Fits files dim) :
    Represents dim (method.blocks files dim) (method.mat files dim) := by
  cases method with
  | zeros => exact created_represents _ _ rfl rfl _ fun _ _ _ _ _ _ => rfl
  | ones => exact created_represents _ _ rfl rfl _ fun _ _ _ _ _ _ => rfl
  | identity =>
    refine created_represents _ _ rfl rfl _ fun i j ii hii jj hjj => ?_
    have hsquare : dim.blockColSize = dim.blockRowSize := hfits
    rw [hsquare] at hjj ⊢
    refine if_congr ⟨?_, cell_inj hii hjj⟩ rfl rfl
    rintro ⟨rfl, rfl⟩
    rfl
  | load path => exact loaded_represents (files path) hfits

/-! ## graphs that compute a matrix -/

/-- no run ends with an error, there is one, and all of them represent the matrix -/
structure Computes (inverse : Inverse F) (sets : SetName → Option (List (MatrixBlock F)))
    (g : Computation F) (dim : LADimension) (A : Mat F) : Prop where
  no_exit : ¬ Exits inverse sets g
  exists_out : ∃ out, Gives inverse sets g out
  represents : ∀ out, Gives inverse sets g out → Represents dim out A

namespace Computes

theorem scan {setName : SetName} (hset : sets setName = some blocks) (h : Represents dim blocks A) :
    Computes inverse sets (.scan setName) dim A where
  no_exit hexit := Option.some_ne_none _ (hset.symm.trans hexit)
  exists_out := ⟨blocks, blocks, hset, .refl _⟩
  represents out := by
    rintro ⟨l, hl, hperm⟩
    obtain rfl := Option.some.inj (hset.symm.trans hl)
    exact h.perm hperm

/-- a computation of one input -/
theorem aggregate {comp : AggregateComp F} (h : Computes inverse sets g dim A)
    (hcomp : ∀ l out, Represents dim l A → comp.Gives l out → Represents dim' out B) :
    Computes inverse sets (.aggregate comp g) dim' B where
  no_exit := h.no_exit
  exists_out := by
    obtain ⟨l, hl⟩ := h.exists_out
    obtain ⟨out, hout⟩ := exists_gives comp l
    exact ⟨out, l, hl, hout⟩
  represents out := by
    rintro ⟨l, hl, hout⟩
    exact hcomp l out (h.represents l hl) hout

theorem selection {f : MatrixBlock F → MatrixBlock F} (h : Computes inverse sets g dim A)
    (hf : ∀ l, Represents dim l A → Represents dim' (l.map f) B) :
    Computes inverse sets (.selection f g) dim' B where
  no_exit := h.no_exit
  exists_out := by
    obtain ⟨l, hl⟩ := h.exists_out
    exact ⟨_, l, hl, .refl _⟩
  represents out := by
    rintro ⟨l, hl, hperm⟩
    exact (hf l (h.represents l hl)).perm hperm

theorem multiSelection {f : MatrixBlock F → List (MatrixBlock F)} (h : Computes inverse sets g dim A)
    (hf : ∀ l, Represents dim l A → Represents dim' (l.flatMap f) B) :
    Computes inverse sets (.multiSelection f g) dim' B where
  no_exit := h.no_exit
  exists_out := by
    obtain ⟨l, hl⟩ := h.exists_out
    exact ⟨_, l, hl, .refl _⟩
  represents out := by
    rintro ⟨l, hl, hperm⟩
    exact (hf l (h.represents l hl)).perm hperm

theorem join {comp : JoinComp F} {dim₃ : LADimension} {C : Mat F} (hA : Computes inverse sets g dim A)
    (hB : Computes inverse sets g' dim' B) (hcomp : ∀ l r, Represents dim l A → Represents dim' r B →
      ∃ out, comp.pairs l r = some out ∧ Represents dim₃ out C) :
    Computes inverse sets (.join comp g g') dim₃ C where
  no_exit := by
    rintro (h | h | ⟨l, r, hl, hr, hpairs⟩)
    · exact hA.no_exit h
    · exact hB.no_exit h
    · obtain ⟨out, hout, -⟩ := hcomp l r (hA.represents l hl) (hB.represents r hr)
      exact Option.some_ne_none _ (hout.symm.trans hpairs)
  exists_out := by
    obtain ⟨l, hl⟩ := hA.exists_out
    obtain ⟨r, hr⟩ := hB.exists_out
    obtain ⟨out, hout, -⟩ := hcomp l r (hA.represents l hl) (hB.represents r hr)
    exact ⟨out, l, r, out, hl, hr, hout, .refl _⟩
  represents out := by
    rintro ⟨l, r, out', hl, hr, hpairs, hperm⟩
    obtain ⟨out'', hout, h⟩ := hcomp l r (hA.represents l hl) (hB.represents r hr)
    obtain rfl := Option.some.inj (hout.symm.trans hpairs)
    exact h.perm hperm

/-- a join, and the aggregation of what it gives -/
theorem joinAggregate {comp : JoinComp F} {agg : AggregateComp F} {dim₃ : LADimension} {C : Mat F}
    (hA : Computes inverse sets g dim A) (hB : Computes inverse sets g' dim' B)
    (hcomp : ∀ l r, Represents dim l A → Represents dim' r B → ∃ joined, comp.pairs l r = some joined ∧
      ∀ out, agg.Gives joined out → Represents dim₃ out C) :
    Computes inverse sets (.aggregate agg (.join comp g g')) dim₃ C where
  no_exit := by
    rintro (h | h | ⟨l, r, hl, hr, hpairs⟩)
    · exact hA.no_exit h
    · exact hB.no_exit h
    · obtain ⟨out, hout, -⟩ := hcomp l r (hA.represents l hl) (hB.represents r hr)
      exact Option.some_ne_none _ (hout.symm.trans hpairs)
  exists_out := by
    obtain ⟨l, hl⟩ := hA.exists_out
    obtain ⟨r, hr⟩ := hB.exists_out
    obtain ⟨joined, hjoined, -⟩ := hcomp l r (hA.represents l hl) (hB.represents r hr)
    obtain ⟨out, hout⟩ := exists_gives agg joined
    exact ⟨out, joined, ⟨l, r, joined, hl, hr, hjoined, .refl _⟩, hout⟩
  represents out := by
    rintro ⟨joined', ⟨l, r, joined, hl, hr, hpairs, hperm⟩, hout⟩
    obtain ⟨joined'', hjoined, h⟩ := hcomp l r (hA.represents l hl) (hB.represents r hr)
    obtain rfl := Option.some.inj (hjoined.symm.trans hpairs)
    obtain ⟨groups, hgroups, hblocks⟩ := hout
    -- the aggregation takes the pairs in any order
    refine h out ⟨groups, ⟨hgroups.keyed, fun k => ?_, fun e he => ?_⟩, hblocks.imp fun e b hb => ?_⟩
    · rw [hgroups.keys k]
      exact exists_congr fun a => and_congr_left fun _ => hperm.mem_iff
    · exact (hgroups.merged e he).perm (hperm.filter _)
    · obtain ⟨hdata, hindex, a, ha, hkey⟩ := hb
      exact ⟨hdata, hindex, a, hperm.mem_iff.mp ha, hkey⟩

theorem inverse' (hinv : inverse.Inverts) (h : Computes inverse sets g dim A) (hA : A.Invertible dim) :
    Computes inverse sets (.inverse dim.transpose g) dim.transpose A.inverse where
  no_exit := by
    rintro (hexit | ⟨l, large, hl, hlarge, hnone⟩)
    · exact h.no_exit hexit
    · obtain ⟨inv, hsome, -⟩ := inverse_represents hinv (h.represents l hl) hA.rowNum hA.colNum hA.square
        hA.unit hlarge
      exact Option.some_ne_none _ (hsome.symm.trans hnone)
  exists_out := by
    obtain ⟨l, hl⟩ := h.exists_out
    have hne : l ≠ [] := by
      rintro rfl
      have hmem := ((h.represents [] hl).mem_index (0, 0)).mpr
        ⟨hA.rowNum ▸ Nat.one_pos, hA.colNum ▸ Nat.one_pos⟩
      exact List.not_mem_nil hmem
    obtain ⟨large, hlarge⟩ : ∃ large, Merged some mergeBlocks l large := exists_merged hne
    obtain ⟨inv, hsome, -⟩ := inverse_represents hinv (h.represents l hl) hA.rowNum hA.colNum hA.square
      hA.unit hlarge
    obtain ⟨b, rfl, hb⟩ := Option.bind_eq_some_iff.mp hsome
    exact ⟨_, l, b, inv, hl, hlarge, hb, .refl _⟩
  represents out := by
    rintro ⟨l, b, inv, hl, hlarge, hb, hperm⟩
    obtain ⟨inv', hsome, hrep⟩ := inverse_represents hinv (h.represents l hl) hA.rowNum hA.colNum hA.square
      hA.unit hlarge
    obtain rfl := Option.some.inj (hsome.symm.trans hb)
    exact hrep.perm hperm

theorem fold (h : Computes inverse sets g dim A) (hpos : dim.Positive) (fn : Fold) :
    Computes inverse sets (.aggregate fn.comp g) (fn.dimension dim) (fn.mat A) := by
  have hmax : Std.Associative (max : F → F → F) ∧ Std.Commutative (max : F → F → F) :=
    ⟨⟨max_assoc⟩, ⟨max_comm⟩⟩
  have hmin : Std.Associative (min : F → F → F) ∧ Std.Commutative (min : F → F → F) :=
    ⟨⟨min_assoc⟩, ⟨min_comm⟩⟩
  have hadd : Std.Associative (fun x y : F => x + y) ∧ Std.Commutative (fun x y : F => x + y) :=
    ⟨⟨add_assoc⟩, ⟨add_comm⟩⟩
  refine h.aggregate fun l out hl hout => ?_
  cases fn with
  | rowMax =>
    exact totalRows_represents hl hpos (show Flag.Chooses max .matrixRowMax from rfl) hmax.1 hmax.2
      (fun _ => rfl) hout
  | rowMin =>
    exact totalRows_represents hl hpos (show Flag.Chooses min .matrixRowMin from rfl) hmin.1 hmin.2
      (fun _ => rfl) hout
  | rowSum =>
    exact totalRows_represents hl hpos (show Flag.Chooses _ .maxtrixSum from rfl) hadd.1 hadd.2
      (fun _ => rfl) hout
  | colMax => exact totalCols_represents hl hpos (show Flag.Chooses max .matrixColMax from rfl) hmax.1 hmax.2 hout
  | colMin => exact totalCols_represents hl hpos (show Flag.Chooses min .matrixColMin from rfl) hmin.1 hmin.2 hout
  | colSum => exact totalCols_represents hl hpos (show Flag.Chooses _ .maxtrixSum from rfl) hadd.1 hadd.2 hout

theorem binary (hA : Computes inverse sets g dim A) (hB : Computes inverse sets g' dim' B)
    (hpos : dim.Positive) {op : Operator} (hop : op.Matches dim dim') :
    Computes inverse sets (op.graph g g') (op.dimension dim dim') (op.mat A B) := by
  cases op with
  | scaleMultiply =>
    obtain rfl : dim = dim' := hop
    exact hA.join hB fun l r hl hr => element_represents hl hr
  | add =>
    obtain rfl : dim = dim' := hop
    exact hA.join hB fun l r hl hr => element_represents hl hr
  | substract =>
    obtain rfl : dim = dim' := hop
    exact hA.join hB fun l r hl hr => element_represents hl hr
  | multiply =>
    exact hA.joinAggregate hB fun l r hl hr => multiply_represents hl hr hop.1 hop.2 hpos.colNum
  | transposeMultiply =>
    exact hA.joinAggregate hB fun l r hl hr => transposeMultiply_represents hl hr hop.1 hop.2 hpos.rowNum

end Computes

/-! ## expressions -/

/-- the sets of the variables, and no set has a name that comes -/
structure Agrees (inst : LAPDBInstance F) (env : Bindings F) : Prop where
  bound : ∀ name dim A, env name = some (dim, A) → dim.Positive ∧
    inst.identifierDimensionMap name = some dim ∧ ∃ setName blocks,
      inst.identifierPDBSetNameMap name = some setName ∧ inst.sets setName = some blocks ∧
        Represents dim blocks A
  unbound : ∀ name, env name = none → inst.identifierDimensionMap name = none
  fresh : ∀ method k, inst.dispatchCount ≤ k →
    inst.sets (.init method k) = none ∧ inst.cachedSet (.init method k) = false

/-- no set is changed, and no result is added -/
structure Grows (inst inst' : LAPDBInstance F) : Prop where
  sets : ∀ setName blocks, inst.sets setName = some blocks → inst'.sets setName = some blocks
  result : ∀ id, inst'.sets (.result id) = inst.sets (.result id) ∧
    inst'.cachedSet (.result id) = inst.cachedSet (.result id)

theorem Grows.refl (inst : LAPDBInstance F) : Grows inst inst := ⟨fun _ _ h => h, fun _ => ⟨rfl, rfl⟩⟩

theorem Grows.trans {a b c : LAPDBInstance F} (h : Grows a b) (h' : Grows b c) : Grows a c where
  sets setName blocks hs := h'.sets setName blocks (h.sets setName blocks hs)
  result id := ⟨(h'.result id).1.trans (h.result id).1, (h'.result id).2.trans (h.result id).2⟩

/-- an initializer makes a set of its own -/
theorem initializer_spec (h : Agrees inst env) : ∃ inst',
    evaluate files (.initializer method dim) inst =
      some (.scan (.init method.text inst.dispatchCount), dim, inst') ∧
    inst'.sets (.init method.text inst.dispatchCount) = some (method.blocks files dim) ∧
    Agrees inst' env ∧ Grows inst inst' := by
  obtain ⟨hset, hcached⟩ := h.fresh method.text inst.dispatchCount le_rfl
  have hother : ∀ setName blocks, inst.sets setName = some blocks →
      setName ≠ .init method.text inst.dispatchCount := by
    rintro setName blocks hs rfl
    exact Option.some_ne_none _ (hs.symm.trans hset)
  have hresult : ∀ id, SetName.result id ≠ .init method.text inst.dispatchCount := by
    intro id he
    cases he
  refine ⟨_, if_neg ?_, Function.update_self .., ⟨fun name dim' A hname => ?_, h.unbound,
    fun method' k hk => ?_⟩, fun setName blocks hs => ?_, fun id => ⟨?_, ?_⟩⟩
  · rw [hset, hcached]
    exact not_or.mpr ⟨Bool.false_ne_true, Bool.false_ne_true⟩
  · obtain ⟨hpos, hdim, setName, blocks, hmap, hs, hrep⟩ := h.bound name dim' A hname
    exact ⟨hpos, hdim, setName, blocks, hmap,
      (Function.update_of_ne (hother setName blocks hs) ..).trans hs, hrep⟩
  · have hk : inst.dispatchCount + 1 ≤ k := hk
    have hne : SetName.init method' k ≠ .init method.text inst.dispatchCount := by
      intro he
      have := (SetName.init.inj he).2
      omega
    obtain ⟨hs, hc⟩ := h.fresh method' k (by omega)
    exact ⟨(Function.update_of_ne hne ..).trans hs, (Function.update_of_ne hne ..).trans hc⟩
  · exact (Function.update_of_ne (hother setName blocks hs) ..).trans hs
  · exact Function.update_of_ne (hresult id) (some (method.blocks files dim)) inst.sets
  · exact Function.update_of_ne (hresult id) true inst.cachedSet

/-- what `evaluate` says of an expression -/
inductive Evaluated (inverse : Inverse F) (files : Files F) (env : Bindings F) (inst : LAPDBInstance F)
    (e : Expr) : Prop
  | rejected (hdenote : denote files env e = none) (heval : evaluate files e inst = none)
  | accepted (dim : LADimension) (A : Mat F) (g : Computation F) (inst' : LAPDBInstance F)
    (hdenote : denote files env e = some (dim, A)) (heval : evaluate files e inst = some (g, dim, inst'))
    (hpos : dim.Positive) (hagrees : Agrees inst' env) (hgrows : Grows inst inst')
    (hcomputes : ∀ sets, (∀ setName blocks, inst'.sets setName = some blocks →
      sets setName = some blocks) → Computes inverse sets g dim A)

/-- an operator on one operand -/
theorem Evaluated.unary {e' : Expr} (h : Evaluated inverse files env inst e)
    (fdim : LADimension → LADimension) (fmat : Mat F → Mat F)
    (fg : LADimension → Computation F → Computation F)
    (hdenote : denote files env e' = (denote files env e).map fun a => (fdim a.1, fmat a.2))
    (heval : evaluate files e' inst = (evaluate files e inst).map fun a => (fg a.2.1 a.1, fdim a.2.1, a.2.2))
    (hpos : ∀ dim A, denote files env e = some (dim, A) → dim.Positive → (fdim dim).Positive)
    (hcomputes : ∀ dim A sets g, denote files env e = some (dim, A) → dim.Positive →
      Computes inverse sets g dim A → Computes inverse sets (fg dim g) (fdim dim) (fmat A)) :
    Evaluated inverse files env inst e' := by
  cases h with
  | rejected hd he => exact .rejected (by rw [hdenote, hd]; rfl) (by rw [heval, he]; rfl)
  | accepted dim A g inst' hd he hp ha hg hc =>
    exact .accepted (fdim dim) (fmat A) (fg dim g) inst' (by rw [hdenote, hd]; rfl)
      (by rw [heval, he]; rfl) (hpos dim A hd hp) ha hg fun sets hs =>
        hcomputes dim A sets g hd hp (hc sets hs)

theorem evaluate_spec (hinv : inverse.Inverts) (hagrees : Agrees inst env) (hfits : e.Fits files env) :
    Evaluated inverse files env inst e := by
  induction e generalizing inst with
  | identifier name =>
    cases hname : env name with
    | none =>
      refine .rejected hname ?_
      show (inst.identifierDimensionMap name).bind _ = none
      rw [hagrees.unbound name hname]
      rfl
    | some a =>
      obtain ⟨dim, A⟩ := a
      obtain ⟨hpos, hdim, setName, blocks, hmap, hset, hrep⟩ := hagrees.bound name dim A hname
      refine .accepted dim A (.scan setName) inst hname ?_ hpos hagrees (.refl inst) fun sets hs =>
        .scan (hs setName blocks hset) hrep
      show (inst.identifierDimensionMap name).bind _ = _
      rw [hdim, Option.bind_some]
      show (inst.identifierPDBSetNameMap name).bind _ = _
      rw [hmap]
      rfl
  | initializer method dim =>
    obtain ⟨hpos, hmethod⟩ := hfits
    obtain ⟨inst', heval, hset, hagrees', hgrows⟩ := initializer_spec hagrees
    exact .accepted dim _ _ inst' rfl heval hpos hagrees' hgrows fun sets hs =>
      .scan (hs _ _ hset) (method_represents hmethod)
  | recursive child ih =>
    cases ih hagrees hfits with
    | rejected hd he => exact .rejected hd he
    | accepted dim A g inst' hd he hp ha hg hc => exact .accepted dim A g inst' hd he hp ha hg hc
  | fold fn child ih =>
    refine (ih hagrees hfits).unary fn.dimension fn.mat (fun _ g => .aggregate fn.comp g) rfl ?_
      (fun dim A _ hp => ?_) fun dim A sets g _ hp hc => hc.fold hp fn
    · show (evaluate files child inst).bind _ = _
      cases evaluate files child inst <;> rfl
    · rw [Fold.dimension]
      split
      · exact ⟨hp.rowSize, Nat.one_pos, hp.rowNum, Nat.one_pos⟩
      · exact ⟨Nat.one_pos, hp.colSize, Nat.one_pos, hp.colNum⟩
  | duplicateRow child size num ih =>
    obtain ⟨hchild, hsize, hnum, hrow⟩ := hfits
    refine (ih hagrees hchild).unary (fun dim => ⟨size, dim.blockColSize, num, dim.blockColNum⟩)
      (Mat.duplicateRow (num * size))
      (fun dim g => .multiSelection (duplicateRow ⟨size, dim.blockColSize, num, dim.blockColNum⟩) g) rfl ?_
      (fun dim A _ hp => ⟨hsize, hp.colSize, hnum, hp.colNum⟩) fun dim A sets g hd hp hc =>
        hc.multiSelection fun l hl => ?_
    · show (evaluate files child inst).bind _ = _
      cases evaluate files child inst <;> rfl
    · obtain ⟨h1, h2⟩ := hrow _ hd
      exact duplicateRow_represents hl h1 h2 size num
  | duplicateCol child size num ih =>
    obtain ⟨hchild, hsize, hnum, hcol⟩ := hfits
    refine (ih hagrees hchild).unary (fun dim => ⟨dim.blockRowSize, size, dim.blockRowNum, num⟩)
      (Mat.duplicateCol (num * size))
      (fun dim g => .multiSelection (duplicateCol ⟨dim.blockRowSize, size, dim.blockRowNum, num⟩) g) rfl ?_
      (fun dim A _ hp => ⟨hp.rowSize, hsize, hp.rowNum, hnum⟩) fun dim A sets g hd hp hc =>
        hc.multiSelection fun l hl => ?_
    · show (evaluate files child inst).bind _ = _
      cases evaluate files child inst <;> rfl
    · obtain ⟨h1, h2⟩ := hcol _ hd
      exact duplicateCol_represents hl h1 h2 size num
  | transpose child ih =>
    refine (ih hagrees hfits).unary LADimension.transpose Mat.transpose
      (fun _ g => .selection transposeSelection g) rfl ?_
      (fun dim A _ hp => ⟨hp.colSize, hp.rowSize, hp.colNum, hp.rowNum⟩) fun dim A sets g _ hp hc =>
        hc.selection fun l hl => transpose_represents hl
    show (evaluate files child inst).bind _ = _
    cases evaluate files child inst <;> rfl
  | inverse child ih =>
    obtain ⟨hchild, hA⟩ := hfits
    refine (ih hagrees hchild).unary LADimension.transpose Mat.inverse
      (fun dim g => .inverse dim.transpose g) rfl ?_
      (fun dim A _ hp => ⟨hp.colSize, hp.rowSize, hp.colNum, hp.rowNum⟩) fun dim A sets g hd hp hc =>
        hc.inverse' hinv (hA _ hd)
    show (evaluate files child inst).bind _ = _
    cases evaluate files child inst <;> rfl
  | binary op left right ihl ihr =>
    obtain ⟨hleft, hright⟩ := hfits
    cases ihl hagrees hleft with
    | rejected hd he =>
      refine .rejected ?_ ?_
      · rw [denote, hd]
        rfl
      · rw [evaluate, he]
        rfl
    | accepted dim A g inst₁ hd he hp ha hg hc =>
      cases ihr ha hright with
      | rejected hd' he' =>
        refine .rejected ?_ ?_
        · rw [denote, hd, Option.bind_some, hd']
          rfl
        · rw [evaluate, he]
          show (evaluate files right inst₁).bind _ = none
          rw [he']
          rfl
      | accepted dim' A' g' inst₂ hd' he' hp' ha' hg' hc' =>
        have heval : evaluate files (.binary op left right) inst =
            if op.Matches dim dim' then some (op.graph g g', op.dimension dim dim', inst₂) else none := by
          rw [evaluate, he]
          show (evaluate files right inst₁).bind _ = _
          rw [he']
          rfl
        have hdenote : denote files env (.binary op left right) =
            if op.Matches dim dim' then some (op.dimension dim dim', op.mat A A') else none := by
          rw [denote, hd, Option.bind_some, hd']
          rfl
        by_cases hop : op.Matches dim dim'
        · rw [if_pos hop] at heval hdenote
          refine .accepted _ _ _ inst₂ hdenote heval ?_ ha' (hg.trans hg') fun sets hs =>
            .binary (hc sets fun n b hb => hs n b (hg'.sets n b hb)) (hc' sets hs) hp hop
          cases op with
          | multiply => exact ⟨hp.rowSize, hp'.colSize, hp.rowNum, hp'.colNum⟩
          | transposeMultiply => exact ⟨hp.colSize, hp'.colSize, hp.colNum, hp'.colNum⟩
          | scaleMultiply => exact hp
          | add => exact hp
          | substract => exact hp
        · rw [if_neg hop] at heval hdenote
          exact .rejected hdenote heval

end

end LinearAlgebra
end Netsdb
