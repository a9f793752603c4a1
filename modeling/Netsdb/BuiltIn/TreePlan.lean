import Netsdb.BuiltIn.Forest
import Netsdb.Lib.Aggregation
import Netsdb.Lib.Blocked
import Mathlib.Tactic.Ring

/-!
# The relational plan of a decision forest

Each tree of one set is applied to each block of another one (`TreeCrossProduct`), the results of a
block are added up (`TreeResultAggregate`), and the sums are finished (`TreeResultPostProcessing`).  The
trees that the workers get are copies.

* `copyTree`       a copy, which does not take over where missing values go;
* `predictTree`    one tree and one block, in batches; the feature has to be below the threshold, where
                   `Forest.h` takes one that is equal, too;
* `Clear`          a node is no tie, and its feature is there or NaN is not looked at;
* `plan_agrees`    on clear nodes the plan gives what the forest does, in any order of the sums;
* `same_leaf_iff`  and on others a tree and its copy part.
-/

set_option linter.unusedSectionVars false

namespace Netsdb
namespace DecisionTree
open Decision Aggregation

variable {F : Type}

/-- every field but one; `flags` is what the memory of the copy held there -/
def copyTree (flags : Fin 512 → Bool) (tree : Nodes F) : Nodes F :=
  fun i => { tree i with isMissTrackLeft := flags i }

/-- the size is that of the data, and the number of the tree is not read -/
structure TreeResult (F : Type) where
  data : List F
  batchId : ℤ
  modelType : ModelType

variable [Field F] [LinearOrder F]

namespace TreeResult

/-- `operator+`, for two results of one block -/
def plus (r other : TreeResult F) : TreeResult F :=
  { r with data := List.zipWith (fun x y => x + y) r.data other.data }

def postprocessing (isClassification : Bool) (numTrees : ℕ) (r : TreeResult F) : TreeResult F :=
  let resData := r.data.map fun (x : F) => if r.modelType = .RandomForest then x / (numTrees : F) else x
  { r with data := if isClassification then resData.map fun x => if 0 < x then 1 else 0 else resData }

end TreeResult

def predictTree (modelType : ModelType) (hasMissing : Bool) (fuel : ℕ) (tree : Nodes F)
    (b : TensorBlock2D F) : Option (TreeResult F) := do
  let remainderSize := b.rowNums % 4000
  let iterations := b.rowNums / 4000 + if remainderSize ≠ 0 then 1 else 0
  let batches ← (List.range iterations).mapM fun (i : ℕ) =>
    let blockSize := if remainderSize ≠ 0 ∧ i + 1 = iterations then remainderSize else 4000
    (List.range blockSize).mapM fun (j : ℕ) => do
      let featureStartIndex := (i : ℤ) * 4000 * b.colNums + j * b.colNums
      let leaf ← traverse (denseLeft (fun v t => v < t) hasMissing b featureStartIndex) tree fuel 0
      return (tree leaf).value
  return ⟨batches.flatten, b.blockRowIndex, modelType⟩

/-- all pairs of a tree and a block -/
def crossProduct (modelType : ModelType) (hasMissing : Bool) (fuel : ℕ) (trees : List (Nodes F))
    (blocks : List (TensorBlock2D F)) : Option (List (TreeResult F)) :=
  (trees.flatMap fun tree => blocks.map fun b => (tree, b)).mapM fun e =>
    predictTree modelType hasMissing fuel e.1 e.2

/-- the number of trees is that of the set -/
def finishPlan (isClassification : Bool) (numTrees : ℕ) (outputs : List (ℤ × TreeResult F)) :
    List (ℤ × TreeResult F) :=
  outputs.map fun e => (e.1, e.2.postprocessing isClassification numTrees)

section
variable {tree : Nodes F} {flags : Fin 512 → Bool} {i : Fin 512} {d : QTree (Test F) F}
  {ds : List (QTree (Test F) F)} {hasMissing : Bool} {x : ℤ → Option F} {q : Test F} {fuel j : ℕ}
  {b : TensorBlock2D F} {fo : Forest F} {modelType : ModelType} {copies : List (Nodes F)}
  {blocks : List (TensorBlock2D F)}

/-! ## copies -/

def reflag (flags : Fin 512 → Bool) (q : Test F) : Test F :=
  { q with isMissTrackLeft := flags q.nodeID }

theorem label_copy (flags : Fin 512 → Bool) (tree : Nodes F) (i : Fin 512) :
    (graph (copyTree flags tree)).label i = ((graph tree).label i).map id (reflag flags) := by
  show (if (tree i).isLeaf then _ else _) = Sum.map id (reflag flags) (if (tree i).isLeaf then _ else _)
  split <;> rfl

theorem holds_copy (h : (graph tree).Holds d i) :
    (graph (copyTree flags tree)).Holds (d.relabel (reflag flags)) i := by
  induction d generalizing i with
  | leaf v =>
    show (graph (copyTree flags tree)).label i = .inl v
    rw [label_copy, h]
    rfl
  | node q yes no ihy ihn =>
    obtain ⟨hq, j, k, hj, hk, hyes, hno⟩ := h
    refine ⟨?_, j, k, hj, hk, ihy hyes, ihn hno⟩
    rw [label_copy, hq]
    rfl

theorem walk_copy (left : Test F → Option Bool) (flags : Fin 512 → Bool) (tree : Nodes F) (fuel : ℕ) :
    ∀ i, (graph (copyTree flags tree)).walk left fuel i =
      (graph tree).walk (left ∘ reflag flags) fuel i := by
  induction fuel with
  | zero => exact fun _ => rfl
  | succ fuel ih =>
    intro i
    rw [Graph.walk, Graph.walk, label_copy]
    cases (graph tree).label i with
    | inl v => rfl
    | inr q => exact Option.bind_congr fun b _ => Option.bind_congr fun child _ => ih child

/-! ## batches -/

/-- whole batches, and one of what remains -/
theorem batches_eq {α : Type*} (w n : ℕ) (f : ℕ → α) :
    ((List.range (n / w + if n % w ≠ 0 then 1 else 0)).map fun i =>
      (List.range (if n % w ≠ 0 ∧ i + 1 = n / w + (if n % w ≠ 0 then 1 else 0) then n % w else w)).map
        fun j => f (i * w + j)).flatten = (List.range n).map f := by
  have hn : n / w * w + n % w = n := Nat.div_add_mod' n w
  by_cases h0 : n % w = 0
  · simp only [h0, ne_eq, not_true, if_false, false_and, Nat.add_zero]
    rw [Blocked.flatten_range, show n / w * w = n by omega]
  · simp only [h0, ne_eq, not_false_eq_true, if_true, true_and]
    have hfull : ((List.range (n / w)).map fun i =>
        (List.range (if i + 1 = n / w + 1 then n % w else w)).map fun j => f (i * w + j)) =
        (List.range (n / w)).map fun i => (List.range w).map fun j => f (i * w + j) := by
      refine List.map_congr_left fun i hi => ?_
      rw [if_neg (by have := List.mem_range.mp hi; omega)]
    rw [List.range_succ, List.map_append, List.flatten_append, hfull, Blocked.flatten_range]
    simp only [List.map_cons, List.map_nil, List.flatten_cons, List.flatten_nil, List.append_nil, if_true]
    conv_rhs => rw [← hn, List.range_add, List.map_append, List.map_map]
    rfl

theorem batch_lt {w n : ℕ} {i : ℕ} (hi : i < n / w + if n % w ≠ 0 then 1 else 0)
    (hj : j < if n % w ≠ 0 ∧ i + 1 = n / w + (if n % w ≠ 0 then 1 else 0) then n % w else w) :
    i * w + j < n := by
  have hn : n / w * w + n % w = n := Nat.div_add_mod' n w
  have hwhole : i + 1 ≤ n / w → j < w → i * w + j < n := fun hi hj =>
    calc i * w + j < i * w + w := by omega
      _ = (i + 1) * w := (Nat.succ_mul ..).symm
      _ ≤ n / w * w := Nat.mul_le_mul_right w hi
      _ ≤ n := by omega
  by_cases h0 : n % w = 0
  · rw [if_neg (not_not.mpr h0)] at hi
    rw [if_neg (fun h => h.1 h0)] at hj
    exact hwhole hi hj
  · rw [if_pos h0] at hi hj
    by_cases hlast : i + 1 = n / w + 1
    · rw [if_pos ⟨h0, hlast⟩] at hj
      obtain rfl : i = n / w := by omega
      omega
    · rw [if_neg (fun h => hlast h.2)] at hj
      exact hwhole (by omega) hj

theorem predictTree_eq (h : (graph tree).Holds d 0) (hbelow : Below b.colNums d) (hn : d.height < fuel)
    (hasMissing : Bool) : predictTree modelType hasMissing fuel tree b =
      some ⟨(List.range b.rowNums).map fun j => d.eval (answer (fun v t => v < t)
        (fun q => hasMissing && q.isMissTrackLeft) (b.row j)), b.blockRowIndex, modelType⟩ := by
  generalize hvalue : (fun j => d.eval (answer (fun v t => v < t)
    (fun q => hasMissing && q.isMissTrackLeft) (b.row j))) = value
  have hrow : ∀ k < b.rowNums, (do
      let leaf ← traverse (denseLeft (fun v t => v < t) hasMissing b (k * b.colNums)) tree fuel 0
      return (tree leaf).value : Option F) = some (value k) := by
    intro k hk
    obtain ⟨leaf, hleaf, heval⟩ :=
      traverse_holds h (fun q hq => denseLeft_eq hk (hbelow q (d.asked_subset _ hq))) hn
    rw [hleaf, ← hvalue]
    exact congrArg some heval
  unfold predictTree
  dsimp only
  rw [mapM_eq_map (g := fun i => (List.range (if b.rowNums % 4000 ≠ 0 ∧ i + 1 =
    b.rowNums / 4000 + (if b.rowNums % 4000 ≠ 0 then 1 else 0) then b.rowNums % 4000 else 4000)).map
      fun j => value (i * 4000 + j))]
  · rw [Option.bind_eq_bind, Option.bind_some, batches_eq]
    rfl
  · refine fun i hi => mapM_eq_map fun j hj => ?_
    have hplace : (i : ℤ) * 4000 * b.colNums + j * b.colNums = ((i * 4000 + j : ℕ) : ℤ) * b.colNums := by
      push_cast
      ring
    rw [hplace]
    exact hrow _ (batch_lt (List.mem_range.mp hi) (List.mem_range.mp hj))

/-! ## clear nodes -/

/-- no tie, and the flag of the node is not looked at -/
def Clear (hasMissing : Bool) (x : ℤ → Option F) (q : Test F) : Prop :=
  match x q.indexID with
  | none => hasMissing = false
  | some v => v ≠ q.threshold

instance clearDecidable (hasMissing : Bool) (x : ℤ → Option F) (q : Test F) :
    Decidable (Clear hasMissing x q) :=
  match h : x q.indexID with
  | none => decidable_of_iff (hasMissing = false) (by rw [Clear, h])
  | some v => decidable_of_iff (v ≠ q.threshold) (by rw [Clear, h])

theorem answer_reflag (h : Clear hasMissing x q) (flags : Fin 512 → Bool) :
    answer (fun v t => v < t) (fun q => hasMissing && q.isMissTrackLeft) x (reflag flags q) =
      answer (fun v t => v ≤ t) (fun q => hasMissing && q.isMissTrackLeft) x q := by
  rw [Clear] at h
  rw [answer, answer, reflag]
  dsimp only
  cases hx : x q.indexID with
  | none =>
    rw [hx] at h
    rw [h, Bool.false_and, Bool.false_and]
  | some v =>
    rw [hx] at h
    exact decide_eq_decide.mpr ⟨le_of_lt, fun hle => lt_of_le_of_ne hle h⟩

/-- the flags are the other ones -/
theorem clear_of_reflag {flags : Fin 512 → Bool} (hflag : flags q.nodeID = !q.isMissTrackLeft)
    (h : answer (fun v t => v < t) (fun q => hasMissing && q.isMissTrackLeft) x (reflag flags q) =
      answer (fun v t => v ≤ t) (fun q => hasMissing && q.isMissTrackLeft) x q) :
    Clear hasMissing x q := by
  rw [Clear]
  rw [answer, answer, reflag] at h
  dsimp only at h
  cases hx : x q.indexID with
  | none =>
    rw [hx, hflag] at h
    show hasMissing = false
    cases hm : hasMissing with
    | false => rfl
    | true =>
      rw [hm, Bool.true_and, Bool.true_and] at h
      exact absurd h (Bool.not_ne_self _)
  | some v =>
    rw [hx] at h
    rintro rfl
    exact lt_irrefl _ ((decide_eq_decide.mp h).mpr le_rfl)

theorem eval_copy (flags : Fin 512 → Bool)
    (h : ∀ q ∈ d.asked (answer (fun v t => v ≤ t) (fun q => hasMissing && q.isMissTrackLeft) x),
      Clear hasMissing x q) :
    (d.relabel (reflag flags)).eval
        (answer (fun v t => v < t) (fun q => hasMissing && q.isMissTrackLeft) x) =
      d.eval (answer (fun v t => v ≤ t) (fun q => hasMissing && q.isMissTrackLeft) x) := by
  rw [QTree.eval_relabel]
  exact QTree.eval_congr fun q hq => answer_reflag (h q hq) flags

theorem below_relabel (flags : Fin 512 → Bool) (h : Below b.colNums d) :
    Below b.colNums (d.relabel (reflag flags)) := by
  intro q hq
  rw [QTree.questions_relabel] at hq
  obtain ⟨q', hq', rfl⟩ := List.mem_map.mp hq
  exact h q' hq'

/-! ## the plan -/

/-- a tree and a block -/
def copyResult (modelType : ModelType) (hasMissing : Bool) (d : QTree (Test F) F)
    (b : TensorBlock2D F) : TreeResult F :=
  ⟨(List.range b.rowNums).map fun j => d.eval
    (answer (fun v t => v ≤ t) (fun q => hasMissing && q.isMissTrackLeft) (b.row j)),
    b.blockRowIndex, modelType⟩

theorem crossProduct_eq (h : List.Forall₂ (fun d copy => ∀ b ∈ blocks,
      predictTree modelType hasMissing fuel copy b = some (copyResult modelType hasMissing d b)) ds copies) :
    crossProduct modelType hasMissing fuel copies blocks =
      some (ds.flatMap fun d => blocks.map (copyResult modelType hasMissing d)) := by
  induction h with
  | nil => rfl
  | @cons d copy ds copies hd _ ih =>
    have hone : (blocks.map fun b => (copy, b)).mapM (fun e =>
        predictTree modelType hasMissing fuel e.1 e.2) =
        some (blocks.map (copyResult modelType hasMissing d)) := by
      rw [List.mapM_map]
      exact mapM_eq_map hd
    rw [crossProduct] at ih ⊢
    rw [List.flatMap_cons, List.mapM_append, hone, ih]
    rfl

/-- the results of one block -/
theorem filter_results (hkeys : (blocks.map TensorBlock2D.blockRowIndex).Nodup) (hb : b ∈ blocks) :
    ((ds.flatMap fun d => blocks.map (copyResult modelType hasMissing d)).filter fun r =>
      r.batchId = b.blockRowIndex) = ds.map fun d => copyResult modelType hasMissing d b := by
  have hone : ∀ d, ((blocks.map (copyResult modelType hasMissing d)).filter fun r =>
      r.batchId = b.blockRowIndex) = [copyResult modelType hasMissing d b] := by
    intro d
    rw [List.filter_map]
    show (blocks.filter fun x => x.blockRowIndex = b.blockRowIndex).map _ = _
    rw [filter_key hkeys hb]
    rfl
  rw [List.filter_flatMap]
  simp only [hone]
  exact List.map_eq_flatMap.symm

/-- the sum of the results of a block, however they were added up -/
theorem merged_results {r : TreeResult F}
    (h : Merged id TreeResult.plus (ds.map fun d => copyResult modelType hasMissing d b) r) :
    r = ⟨(List.range b.rowNums).map fun j => (ds.map fun d => d.eval (answer (fun v t => v ≤ t)
      (fun q => hasMissing && q.isMissTrackLeft) (b.row j))).sum, b.blockRowIndex, modelType⟩ := by
  let P (r : TreeResult F) : Prop :=
    r.data.length = b.rowNums ∧ r.batchId = b.blockRowIndex ∧ r.modelType = modelType
  have hone : ∀ r ∈ ds.map fun d => copyResult modelType hasMissing d b, P r := by
    intro r hr
    obtain ⟨d, -, rfl⟩ := List.mem_map.mp hr
    exact ⟨by rw [copyResult, List.length_map, List.length_range], rfl, rfl⟩
  have hplus : ∀ r r' : TreeResult F, P r → P r' → P (r.plus r') := by
    rintro r r' ⟨hlen, hid, hm⟩ ⟨hlen', -, -⟩
    exact ⟨by rw [TreeResult.plus, List.length_zipWith, hlen, hlen', min_self], hid, hm⟩
  have hcell : ∀ j < b.rowNums, ∀ r r' : TreeResult F, P r → P r' →
      (r.plus r').data[j]?.getD 0 = r.data[j]?.getD 0 + r'.data[j]?.getD 0 := by
    intro j hj r r' hr hr'
    rw [List.getElem?_eq_getElem ((hplus r r' hr hr').1.symm ▸ hj),
      List.getElem?_eq_getElem (hr.1.symm ▸ hj), List.getElem?_eq_getElem (hr'.1.symm ▸ hj)]
    exact List.getElem_zipWith ..
  have hP : P r := h.keeps hone hplus
  obtain ⟨data, batchId, m⟩ := r
  obtain ⟨hlen, hid, hm⟩ : data.length = b.rowNums ∧ batchId = b.blockRowIndex ∧ m = modelType := hP
  subst hid hm
  congr 1
  refine List.ext_getElem (by rw [hlen, List.length_map, List.length_range]) fun j hj _ => ?_
  have hrow : j < b.rowNums := hlen ▸ hj
  have hsum := h.sum_eq hone hplus (fun r => r.data[j]?.getD 0) (hcell j hrow)
  rw [List.map_map] at hsum
  rw [List.getElem_map, List.getElem_range]
  calc data[j] = data[j]?.getD 0 := by rw [List.getElem?_eq_getElem hj, Option.getD_some]
    _ = _ := hsum
    _ = _ := congrArg List.sum (List.map_congr_left fun d _ => ?_)
  show ((copyResult m hasMissing d b).data[j]?).getD 0 = _
  rw [copyResult, List.getElem?_map, List.getElem?_range hrow]
  rfl

/-- a result is finished as the forest finishes a sum -/
theorem postprocessing_eq (fo : Forest F) (data : List F) (k : ℤ) :
    TreeResult.postprocessing fo.isClassification fo.forest.length ⟨data, k, fo.modelType⟩ =
      ⟨data.map fun x => fo.classify (fo.average x), k, fo.modelType⟩ := by
  rw [TreeResult.postprocessing]
  dsimp only
  congr 1
  rw [show (fun x => fo.classify (fo.average x)) = fo.classify ∘ fo.average from rfl, ← List.map_map]
  cases hc : fo.isClassification with
  | false =>
    have hid : fo.classify = id := by
      funext x
      rw [Forest.classify, hc]
      rfl
    rw [hid, List.map_id]
    rfl
  | true =>
    have hsign : fo.classify = fun x => if 0 < x then 1 else 0 := by
      funext x
      rw [Forest.classify, hc]
      rfl
    rw [hsign]
    rfl

/-- the copies that the workers have -/
def Copies (fo : Forest F) (copies : List (Nodes F)) : Prop :=
  List.Forall₂ (fun tree copy => ∃ flags, copy = copyTree flags tree) fo.forest copies

/-- a row asks every tree clear questions only -/
def ClearRow (hasMissing : Bool) (ds : List (QTree (Test F) F)) (x : ℤ → Option F) : Prop :=
  ∀ d ∈ ds, ∀ q ∈ d.asked (answer (fun v t => v ≤ t) (fun q => hasMissing && q.isMissTrackLeft) x),
    Clear hasMissing x q

theorem copies_hold {forest : List (Nodes F)}
    (h : List.Forall₂ (fun d tree => (graph tree).Holds d 0) ds forest)
    (hcopy : List.Forall₂ (fun tree copy => ∃ flags, copy = copyTree flags tree) forest copies) :
    List.Forall₂ (fun d copy => ∃ flags, (graph copy).Holds (d.relabel (reflag flags)) 0) ds copies := by
  induction h generalizing copies with
  | nil =>
    cases hcopy
    exact .nil
  | cons hd _ ih =>
    cases hcopy with
    | cons hc hcopy =>
      obtain ⟨flags, rfl⟩ := hc
      exact .cons ⟨flags, holds_copy hd⟩ (ih hcopy)

theorem crossProduct_copies (h : fo.Holds ds) (hcopy : Copies fo copies)
    (hbelow : ∀ b ∈ blocks, ∀ d ∈ ds, Below b.colNums d) (hn : ∀ d ∈ ds, d.height < fuel)
    (hclear : ∀ b ∈ blocks, ∀ j < b.rowNums, ClearRow hasMissing ds (b.row j)) :
    crossProduct modelType hasMissing fuel copies blocks =
      some (ds.flatMap fun d => blocks.map (copyResult modelType hasMissing d)) := by
  refine crossProduct_eq ?_
  refine ((List.forall₂_and_left ..).mpr ⟨fun d hd => hd, copies_hold h hcopy⟩).imp ?_
  rintro d copy ⟨hd, flags, hcopy⟩ b hb
  rw [predictTree_eq hcopy (below_relabel flags (hbelow b hb d hd))
    (by rw [QTree.height_relabel]; exact hn d hd)]
  refine congrArg (fun data => some (TreeResult.mk data _ _)) (List.map_congr_left fun j hj => ?_)
  exact eval_copy flags (hclear b hb j (List.mem_range.mp hj) d hd)

/-- a question is the node that asks it -/
theorem label_nodeID (h : (graph tree).Holds d i) (hq : q ∈ d.questions) :
    q.isMissTrackLeft = (tree q.nodeID).isMissTrackLeft := by
  induction d generalizing i with
  | leaf v => exact (List.not_mem_nil hq).elim
  | node q' yes no ihy ihn =>
    obtain ⟨hlabel, _, _, -, -, hyes, hno⟩ := h
    rcases List.mem_cons.mp hq with rfl | hq
    · have hlabel : (if (tree i).isLeaf then Sum.inl (tree i).value else
          .inr ⟨i, (tree i).indexID, (tree i).value, (tree i).isMissTrackLeft⟩) = Sum.inr q := hlabel
      split at hlabel
      · cases hlabel
      · rw [← Sum.inr.inj hlabel]
    · rcases List.mem_append.mp hq with hq | hq
      · exact ihy hyes hq
      · exact ihn hno hq

/-- **Where a copy goes**: a row comes to one leaf of a tree and of its copies, whatever their memory
held, if and only if the questions that the tree asks it are clear -/
theorem same_leaf_iff (tree : Nodes F) (d : QTree (Test F) F) (b : TensorBlock2D F) (hasMissing : Bool)
    (h : (graph tree).Holds d 0) (hnodup : ((graph tree).reached d 0).Nodup)
    (hbelow : Below b.colNums d) (hj : j < b.rowNums) (hn : d.height < fuel) :
    (∀ flags, traverse (denseLeft (fun v t => v < t) hasMissing b (j * b.colNums))
        (copyTree flags tree) fuel 0 =
      traverse (denseLeft (fun v t => v ≤ t) hasMissing b (j * b.colNums)) tree fuel 0) ↔
    ClearRow hasMissing [d] (b.row j) := by
  have hleft : ∀ before : F → F → Bool, ∀ flags : Fin 512 → Bool, ∀ q ∈ d.questions,
      denseLeft before hasMissing b (j * b.colNums) (reflag flags q) =
        some (answer before (fun q => hasMissing && q.isMissTrackLeft) (b.row j) (reflag flags q)) :=
    fun before flags q hq => denseLeft_eq hj (hbelow q hq)
  have hwalk : ∀ flags : Fin 512 → Bool,
      traverse (denseLeft (fun v t => v < t) hasMissing b (j * b.colNums)) (copyTree flags tree) fuel 0 =
        traverse (denseLeft (fun v t => v ≤ t) hasMissing b (j * b.colNums)) tree fuel 0 ↔
      ∀ q ∈ d.asked (answer (fun v t => v ≤ t) (fun q => hasMissing && q.isMissTrackLeft) (b.row j)),
        answer (fun v t => v < t) (fun q => hasMissing && q.isMissTrackLeft) (b.row j)
            (reflag flags q) =
          answer (fun v t => v ≤ t) (fun q => hasMissing && q.isMissTrackLeft) (b.row j) q := by
    intro flags
    rw [traverse_eq_walk, traverse_eq_walk, walk_copy, eq_comm]
    exact Graph.walk_eq_iff h hnodup
      (fun q hq => denseLeft_eq hj (hbelow q (d.asked_subset _ hq)))
      (fun q hq => hleft _ flags q (d.asked_subset _ hq)) hn
  constructor
  · intro hall d' hd' q hq
    obtain rfl := List.mem_singleton.mp hd'
    have hflag : (fun i => !(tree i).isMissTrackLeft) q.nodeID = !q.isMissTrackLeft :=
      congrArg (!·) (label_nodeID h (d'.asked_subset _ hq)).symm
    exact clear_of_reflag hflag ((hwalk _).mp (hall fun i => !(tree i).isMissTrackLeft) q hq)
  · exact fun hclear flags => (hwalk flags).mpr fun q hq =>
      answer_reflag (hclear d (List.mem_singleton.mpr rfl) q hq) flags

end

/-! ### two blocks -/

def fourthRow : TensorBlock2D ℚ := ⟨1, 1, 1, [some (1 / 4)], rfl, by decide⟩

def halvesCopy : Nodes ℚ := copyTree (fun _ => false) halves

/-- NaN is not looked for -/
theorem halves_clear : ∀ b ∈ [threeRows, fourthRow], ∀ j < b.rowNums,
    ClearRow false [halvesTree] (b.row j) := by
  intro b hb j hj d hd q hq
  obtain rfl := List.mem_singleton.mp hd
  obtain rfl := List.mem_singleton.mp (QTree.asked_subset _ _ hq)
  have hthree : ∀ j < 3, Clear false (threeRows.row j) ⟨0, 0, 1 / 2, true⟩ := by decide +kernel
  have hfourth : ∀ j < 1, Clear false (fourthRow.row j) ⟨0, 0, 1 / 2, true⟩ := by decide +kernel
  rcases List.mem_pair.mp hb with rfl | rfl
  · exact hthree j hj
  · exact hfourth j hj

/-- NaN is looked for, and the copy does not know where it goes -/
theorem same_leaf_nan : ¬ ∀ flags,
    traverse (denseLeft (fun v t => v < t) true threeRows 2) (copyTree flags halves) 2 0 =
      traverse (denseLeft (fun v t => v ≤ t) true threeRows 2) halves 2 0 := by
  intro hall
  have hbelow : Below 1 halvesTree := by
    intro q hq
    obtain rfl := List.mem_singleton.mp hq
    decide
  have hclear := (same_leaf_iff halves halvesTree threeRows true (j := 2)
    ⟨rfl, 1, 2, rfl, rfl, rfl, rfl⟩ (by decide) hbelow (by decide) (by decide)).mp hall
  exact absurd (hclear halvesTree (List.mem_singleton.mpr rfl) _ List.mem_cons_self) (by decide +kernel)

end DecisionTree
end Netsdb
