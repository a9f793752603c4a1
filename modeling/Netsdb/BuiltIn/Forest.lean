import Netsdb.BuiltIn.TreeParse
import Netsdb.Lib.Decision
import Netsdb.Lib.Scatter
import Mathlib.Algebra.BigOperators.Group.List.Basic
import Mathlib.Algebra.Order.BigOperators.Group.List
import Mathlib.Algebra.Order.Field.Basic
import Mathlib.Algebra.Order.Field.Rat

/-!
# Decision forests (`Forest.h`)

A row is sent through every tree of a forest, the values of the leaves are added up, and the sum is
finished: averaged for a random forest, told from 0 for a classifier.

* `traverse`            from the root of an array to a leaf;
* `predict`             the rows of a block, where a missing value is NaN;
* `predictSparse`       one row, where a missing value has no key;
* `predictSparseBlock`  sparse rows, into a vector;
* `Forest.value`        what a forest of decision trees says of a row;
* `predictions_agree`         the three say that, but for the last one where a forest that boosts has no
                        class to tell.

`none` where the source reads outside of an array, or runs on.  A NaN is `none`, and sums are exact.
-/

set_option linter.unusedSectionVars false

namespace Netsdb
namespace DecisionTree
open Decision

/-- an inner node, as a question -/
structure Test (F : Type) where
  nodeID : Fin 512
  indexID : ℤ
  threshold : F
  isMissTrackLeft : Bool

variable {F : Type}

def graph (tree : Nodes F) : Graph (Fin 512) (Test F) F where
  label i := if (tree i).isLeaf then .inl (tree i).value
    else .inr ⟨i, (tree i).indexID, (tree i).value, (tree i).isMissTrackLeft⟩
  next i left := cell (if left then (tree i).leftChild else (tree i).rightChild)

/-- the leaf that a row comes to; `left` says where a node sends it -/
def traverse (left : Test F → Option Bool) (tree : Nodes F) : ℕ → Fin 512 → Option (Fin 512)
  | 0, _ => none
  | fuel + 1, i =>
    if (tree i).isLeaf then some i
    else do
      let b ← left ⟨i, (tree i).indexID, (tree i).value, (tree i).isMissTrackLeft⟩
      let child ← cell (if b then (tree i).leftChild else (tree i).rightChild)
      traverse left tree fuel child

/-! ## blocks -/

/-- rows of features, one after the other; NaN is `none` -/
structure TensorBlock2D (F : Type) where
  blockRowIndex : ℤ
  rowNums : ℕ
  colNums : ℕ
  rawData : List (Option F)
  length_eq : rawData.length = rowNums * colNums
  /-- places in it are `int`s -/
  length_lt : rawData.length < 2 ^ 31

namespace TensorBlock2D
variable (b : TensorBlock2D F)

def read (i : ℤ) : Option (Option F) := if i < 0 then none else b.rawData[i.toNat]?

/-- row `i`: the feature of a key, if it is there -/
def row (i : ℕ) (key : ℤ) : Option F :=
  if 0 ≤ key ∧ key < b.colNums then (b.read (i * b.colNums + key)).join else none

end TensorBlock2D

/-! ## forests -/

variable [Field F] [LinearOrder F]

/-- `before` compares the feature with the threshold -/
def denseLeft (before : F → F → Bool) (hasMissing : Bool) (b : TensorBlock2D F)
    (featureStartIndex : ℤ) (q : Test F) : Option Bool :=
  (b.read (featureStartIndex + q.indexID)).map fun featureValue =>
    match featureValue with
    | none => hasMissing && q.isMissTrackLeft
    | some v => before v q.threshold

def sparseLeft (sparseTuple : ℤ → Option F) (q : Test F) : Option Bool :=
  match sparseTuple q.indexID with
  | none => some q.isMissTrackLeft
  | some v => some (decide (v ≤ q.threshold))

structure Forest (F : Type) where
  forest : List (Nodes F)
  modelType : ModelType
  isClassification : Bool
  /-- `MAX_NUM_TREES` -/
  length_le : forest.length ≤ 1600

namespace Forest
variable (fo : Forest F)

/-- `accumulatedResult`, over the trees -/
def accumulate (left : Test F → Option Bool) (fuel : ℕ) : Option F :=
  fo.forest.foldlM (fun accumulatedResult tree => do
    let leaf ← traverse left tree fuel 0
    return accumulatedResult + (tree leaf).value) 0

def average (accumulatedResult : F) : F :=
  if fo.modelType = .RandomForest then accumulatedResult / fo.forest.length else accumulatedResult

def classify (accumulatedResult : F) : F :=
  if fo.isClassification then if 0 < accumulatedResult then 1 else 0 else accumulatedResult

def predict (hasMissing : Bool) (fuel : ℕ) (b : TensorBlock2D F) : Option (List F) :=
  (List.range b.rowNums).mapM fun (i : ℕ) => do
    let featureStartIndex := (i : ℤ) * b.colNums
    let accumulatedResult ← fo.accumulate
      (denseLeft (fun v t => v ≤ t) hasMissing b featureStartIndex) fuel
    return fo.classify (fo.average accumulatedResult)

def predictWithMissingValues (fuel : ℕ) (b : TensorBlock2D F) : Option (List F) :=
  fo.predict true fuel b

def predictWithoutMissingValues (fuel : ℕ) (b : TensorBlock2D F) : Option (List F) :=
  fo.predict false fuel b

def predictSparse (fuel : ℕ) (sparseTuple : ℤ → Option F) : Option F := do
  let accumulatedResult ← fo.accumulate (sparseLeft sparseTuple) fuel
  return fo.classify (fo.average accumulatedResult)

/-- what one row writes to the vector, which is not cleared before -/
def writeSparse (result accumulatedResult : F) : F :=
  let result := if fo.modelType = .RandomForest then accumulatedResult / fo.forest.length else result
  if fo.isClassification then if 0 < accumulatedResult then 1 else 0 else result

def predictSparseBlock (fuel : ℕ) (sparseTuples : List (ℤ → Option F)) (results : List F) :
    Option (List F) :=
  (sparseTuples.zip results).mapM fun e => do
    let accumulatedResult ← fo.accumulate (sparseLeft e.1) fuel
    return fo.writeSparse e.2 accumulatedResult

end Forest

/-! ## what a row answers -/

/-- the answer of a row; `missing` where it has no such feature -/
def answer (before : F → F → Bool) (missing : Test F → Bool) (x : ℤ → Option F) (q : Test F) : Bool :=
  match x q.indexID with
  | none => missing q
  | some v => before v q.threshold

/-- `feature <= threshold`, and a missing value goes where the node says -/
def answerMissing (x : ℤ → Option F) : Test F → Bool :=
  answer (fun v t => v ≤ t) Test.isMissTrackLeft x

/-- `feature <= threshold`, and NaN is not -/
def answerPlain (x : ℤ → Option F) : Test F → Bool := answer (fun v t => v ≤ t) (fun _ => false) x

/-- the questions are about columns -/
def Below (colNums : ℕ) (d : QTree (Test F) F) : Prop :=
  ∀ q ∈ d.questions, 0 ≤ q.indexID ∧ q.indexID < colNums

namespace Forest
variable (fo : Forest F)

/-- the arrays hold the trees -/
def Holds (ds : List (QTree (Test F) F)) : Prop :=
  List.Forall₂ (fun d tree => (graph tree).Holds d 0) ds fo.forest

def value (ds : List (QTree (Test F) F)) (a : Test F → Bool) : F :=
  fo.classify (fo.average (ds.map fun d => d.eval a).sum)

end Forest

section
variable {left : Test F → Option Bool} {tree : Nodes F} {i : Fin 512} {fuel : ℕ}
  {d : QTree (Test F) F} {ds : List (QTree (Test F) F)} {a : Test F → Bool} {b : TensorBlock2D F}
  {before : F → F → Bool} {hasMissing : Bool} {fo : Forest F} {q : Test F} {j : ℕ}

theorem traverse_eq_walk (left : Test F → Option Bool) (tree : Nodes F) (fuel : ℕ) :
    ∀ i, traverse left tree fuel i = (graph tree).walk left fuel i := by
  induction fuel with
  | zero => exact fun _ => rfl
  | succ fuel ih =>
    intro i
    by_cases h : (tree i).isLeaf = true
    · have hlabel : (graph tree).label i = .inl (tree i).value := if_pos h
      rw [traverse, if_pos h, Graph.walk_leaf hlabel]
    · have hlabel : (graph tree).label i =
          .inr ⟨i, (tree i).indexID, (tree i).value, (tree i).isMissTrackLeft⟩ := if_neg h
      rw [traverse, if_neg h, Graph.walk, hlabel]
      refine Option.bind_congr fun b _ => Option.bind_congr fun child _ => ih child

theorem traverse_holds (h : (graph tree).Holds d i) (hleft : ∀ q ∈ d.asked a, left q = some (a q))
    (hn : d.height < fuel) :
    ∃ leaf, traverse left tree fuel i = some leaf ∧ (tree leaf).value = d.eval a := by
  obtain ⟨l, hl, hlabel, -⟩ := Graph.walk_holds h hleft hn
  refine ⟨l, by rw [traverse_eq_walk, hl], ?_⟩
  have hlabel : (if (tree l).isLeaf then Sum.inl (tree l).value else _) = Sum.inl (d.eval a) := hlabel
  split at hlabel
  · exact Sum.inl.inj hlabel
  · cases hlabel

theorem accumulate_eq (h : fo.Holds ds) (hleft : ∀ d ∈ ds, ∀ q ∈ d.asked a, left q = some (a q))
    (hn : ∀ d ∈ ds, d.height < fuel) :
    fo.accumulate left fuel = some (ds.map fun d => d.eval a).sum := by
  have hfold : fo.accumulate left fuel = some (ds.foldl (fun acc d => acc + d.eval a) 0) := by
    refine foldlM_of_forall₂ h (fun d hd tree hdt acc => ?_) 0
    obtain ⟨leaf, hleaf, hvalue⟩ := traverse_holds hdt (hleft d hd) (hn d hd)
    rw [hleaf, ← hvalue]
    rfl
  rw [hfold, List.sum_eq_foldl, List.foldl_map]

/-! ## blocks -/

theorem read_row (hj : j < b.rowNums) (hq : 0 ≤ q.indexID ∧ q.indexID < b.colNums) :
    b.read (j * b.colNums + q.indexID) = some (b.row j q.indexID) := by
  obtain ⟨k, hk⟩ := Int.eq_ofNat_of_zero_le hq.1
  have hlt : k < b.colNums := by
    have := hq.2
    omega
  have hplace : j * b.colNums + k < b.rawData.length := by
    rw [b.length_eq]
    calc j * b.colNums + k < j * b.colNums + b.colNums := by omega
      _ = (j + 1) * b.colNums := (Nat.succ_mul ..).symm
      _ ≤ b.rowNums * b.colNums := Nat.mul_le_mul_right _ hj
  have hread : b.read (j * b.colNums + q.indexID) = some b.rawData[j * b.colNums + k] := by
    have hcast : (j * b.colNums + q.indexID : ℤ) = ((j * b.colNums + k : ℕ) : ℤ) := by
      rw [hk]
      push_cast
      rfl
    rw [hcast, TensorBlock2D.read, if_neg (by omega), Int.toNat_natCast,
      List.getElem?_eq_getElem hplace]
  rw [TensorBlock2D.row, if_pos hq, hread]
  rfl

theorem denseLeft_eq (hj : j < b.rowNums) (hq : 0 ≤ q.indexID ∧ q.indexID < b.colNums) :
    denseLeft before hasMissing b (j * b.colNums) q =
      some (answer before (fun q => hasMissing && q.isMissTrackLeft) (b.row j) q) := by
  rw [denseLeft, read_row hj hq]
  rfl

theorem sparseLeft_eq (x : ℤ → Option F) (q : Test F) :
    sparseLeft x q = some (answerMissing x q) := by
  rw [sparseLeft, answerMissing, answer]
  cases x q.indexID <;> rfl

theorem predict_eq (h : fo.Holds ds) (hbelow : ∀ d ∈ ds, Below b.colNums d)
    (hn : ∀ d ∈ ds, d.height < fuel) (hasMissing : Bool) :
    fo.predict hasMissing fuel b = some ((List.range b.rowNums).map fun j =>
      fo.value ds (answer (fun v t => v ≤ t) (fun q => hasMissing && q.isMissTrackLeft) (b.row j))) := by
  rw [Forest.predict]
  refine mapM_eq_map fun j hj => ?_
  have hrow := List.mem_range.mp hj
  have hsum : fo.accumulate (denseLeft (fun v t => v ≤ t) hasMissing b (j * b.colNums)) fuel =
      some (ds.map fun d => d.eval (answer (fun v t => v ≤ t)
        (fun q => hasMissing && q.isMissTrackLeft) (b.row j))).sum :=
    accumulate_eq h (fun d hd q hq => denseLeft_eq hrow (hbelow d hd q (d.asked_subset _ hq))) hn
  show (fo.accumulate (denseLeft (fun v t => v ≤ t) hasMissing b (j * b.colNums)) fuel).bind _ = _
  rw [hsum]
  rfl

theorem predictSparse_eq (h : fo.Holds ds) (hn : ∀ d ∈ ds, d.height < fuel) (x : ℤ → Option F) :
    fo.predictSparse fuel x = some (fo.value ds (answerMissing x)) := by
  rw [Forest.predictSparse, accumulate_eq h (fun d _ q _ => sparseLeft_eq x q) hn]
  rfl

/-- a forest that boosts and has no class to tell leaves the vector as it is -/
def Forest.Writes (fo : Forest F) : Prop := fo.modelType = .RandomForest ∨ fo.isClassification = true

instance Forest.writesDecidable (fo : Forest F) : Decidable fo.Writes := inferInstanceAs (Decidable (_ ∨ _))

theorem writeSparse_eq [IsStrictOrderedRing F] (hne : fo.forest ≠ []) (result acc : F) :
    fo.writeSparse result acc = if fo.Writes then fo.classify (fo.average acc) else result := by
  have hpos : (0 : F) < fo.forest.length := Nat.cast_pos.mpr (List.length_pos_iff.mpr hne)
  rw [Forest.writeSparse, Forest.classify, Forest.average]
  by_cases hm : fo.modelType = .RandomForest
  · have hw : fo.Writes := Or.inl hm
    rw [if_pos hm, if_pos hw, if_pos hm]
    -- the sign of the sum and of the average
    simp only [div_pos_iff_of_pos_right hpos]
  · rw [if_neg hm, if_neg hm]
    by_cases hc : fo.isClassification = true
    · have hw : fo.Writes := Or.inr hc
      rw [if_pos hc, if_pos hw, if_pos hc]
    · have hw : ¬ fo.Writes := not_or.mpr ⟨hm, hc⟩
      rw [if_neg hc, if_neg hw]

theorem predictSparseBlock_eq [IsStrictOrderedRing F] (hne : fo.forest ≠ []) (h : fo.Holds ds)
    (hn : ∀ d ∈ ds, d.height < fuel) {xs : List (ℤ → Option F)} {results : List F}
    (hlen : results.length = xs.length) : fo.predictSparseBlock fuel xs results =
      some (if fo.Writes then xs.map fun x => fo.value ds (answerMissing x) else results) := by
  have hall : fo.predictSparseBlock fuel xs results = some ((xs.zip results).map fun e =>
      if fo.Writes then fo.value ds (answerMissing e.1) else e.2) := by
    rw [Forest.predictSparseBlock]
    refine mapM_eq_map fun e _ => ?_
    rw [accumulate_eq h (fun d _ q _ => sparseLeft_eq e.1 q) hn]
    exact congrArg some (writeSparse_eq hne _ _)
  rw [hall]
  congr 1
  split
  · show (xs.zip results).map ((fun x => fo.value ds (answerMissing x)) ∘ Prod.fst) = _
    rw [← List.map_map, List.map_fst_zip hlen.ge]
  · exact List.map_snd_zip hlen.le

/-- fuel for all trees -/
theorem heights_lt (hd : d ∈ ds) (hfuel : (ds.map QTree.height).sum + 1 ≤ fuel) : d.height < fuel :=
  lt_of_lt_of_le (Nat.lt_succ_of_le (List.le_sum_of_mem (List.mem_map_of_mem hd))) hfuel

/-- **Four ways to predict**: rows with NaN, the same rows without the keys of the missing values, one
at a time or in a block, give what the trees say; the block is written unless the forest boosts and
tells no class -/
theorem predictions_agree [IsStrictOrderedRing F] (fo : Forest F) (b : TensorBlock2D F) (hne : fo.forest ≠ [])
    (h : fo.Holds ds) (hbelow : ∀ d ∈ ds, Below b.colNums d) :
    ∃ n, ∀ fuel, n ≤ fuel →
      fo.predictWithMissingValues fuel b = some ((List.range b.rowNums).map fun j =>
        fo.value ds (answerMissing (b.row j))) ∧
      fo.predictWithoutMissingValues fuel b = some ((List.range b.rowNums).map fun j =>
        fo.value ds (answerPlain (b.row j))) ∧
      (∀ j < b.rowNums,
        fo.predictSparse fuel (b.row j) = some (fo.value ds (answerMissing (b.row j)))) ∧
      ∀ results : List F, results.length = b.rowNums →
        fo.predictSparseBlock fuel ((List.range b.rowNums).map b.row) results =
          some (if fo.Writes then (List.range b.rowNums).map fun j =>
            fo.value ds (answerMissing (b.row j)) else results) := by
  refine ⟨(ds.map QTree.height).sum + 1, fun fuel hfuel => ?_⟩
  have hn : ∀ d ∈ ds, d.height < fuel := fun d hd => heights_lt hd hfuel
  refine ⟨predict_eq h hbelow hn true, predict_eq h hbelow hn false,
    fun j _ => predictSparse_eq h hn (b.row j), fun results hlen => ?_⟩
  rw [predictSparseBlock_eq hne h hn (by rw [List.length_map, List.length_range, hlen]), List.map_map]
  rfl

end

/-! ### one node and two leaves -/

def halves : Nodes ℚ := fun i =>
  if i = 0 then ⟨1 / 2, 0, 1, 2, false, true⟩
  else if i = 1 then ⟨3, -1, -1, -1, true, true⟩
  else ⟨5, -1, -1, -1, true, true⟩

def halvesForest : Forest ℚ := ⟨[halves], .XGBoost, false, by decide⟩

def threeRows : TensorBlock2D ℚ := ⟨0, 3, 1, [some 0, some 1, none], rfl, by decide⟩

def halvesTree : QTree (Test ℚ) ℚ := .node ⟨0, 0, 1 / 2, true⟩ (.leaf 3) (.leaf 5)

theorem halves_holds : halvesForest.Holds [halvesTree] :=
  .cons ⟨rfl, 1, 2, rfl, rfl, rfl, rfl⟩ .nil

/-- a forest that boosts does not write the vector -/
theorem predictions_agree_three : ∃ n, ∀ fuel, n ≤ fuel →
    halvesForest.predictWithMissingValues fuel threeRows = some [3, 5, 3] ∧
    halvesForest.predictWithoutMissingValues fuel threeRows = some [3, 5, 5] ∧
    halvesForest.predictSparse fuel (threeRows.row 2) = some 3 ∧
    halvesForest.predictSparseBlock fuel ((List.range 3).map threeRows.row) [7, 7, 7] =
      some [7, 7, 7] := by
  obtain ⟨n, h⟩ := predictions_agree halvesForest threeRows (List.cons_ne_nil _ _) halves_holds
    fun d hd q hq => by
      obtain rfl := List.mem_singleton.mp hd
      obtain rfl := List.mem_singleton.mp hq
      decide
  refine ⟨n, fun fuel hfuel => ?_⟩
  obtain ⟨hmissing, hplain, hsparse, hblock⟩ := h fuel hfuel
  exact ⟨hmissing.trans (by decide +kernel), hplain.trans (by decide +kernel),
    (hsparse 2 (by decide)).trans (by decide +kernel), (hblock [7, 7, 7] rfl).trans (by decide +kernel)⟩

end DecisionTree
end Netsdb
