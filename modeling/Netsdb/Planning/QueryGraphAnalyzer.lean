import Netsdb.Lib.Label
import Mathlib.Logic.Relation

/-!
# From a query graph to TCAP and to the list of computations (`QueryGraphAnalyzer.cc`, `LogicalPlan.h`)

* `QueryGraph`        the computations by their addresses, inputs first, so that there are no loops;
* `Marks`             what a traversal writes into the computations;
* `traverse`          the TCAP of a computation and of what is below it, `parseTCAPString` that of all
                      sinks;
* `parseComputations` the list of the computations;
* `logicalPlan`       the computation of each name.

The text of a computation is made by its own `toTCAPString`; here it is a field.
-/

set_option linter.unusedSectionVars false

namespace Netsdb
namespace QueryGraphAnalyzer

structure InputTupleSetSpecifier where
  tupleSetName : String
  columnNamesToKeep : List String
  columnNamesToApply : List String

/-- what `toTCAPString` returns and what it writes into its reference arguments -/
structure TCAPString where
  text : String
  outputTupleSetName : String
  outputColumnNames : List String
  addedOutputColumnName : String

structure Computation where
  computationType : String
  /-- the addresses of the inputs -/
  inputs : List ℕ
  /-- does `toTCAPString` call `setTraversed(true)`?  All do but that of `JoinComp` -/
  setsTraversed : Bool
  /-- the arguments are the inputs, the label, and the name and the columns from before -/
  toTCAPString : List InputTupleSetSpecifier → ℕ → String → List String → String → TCAPString

structure QueryGraph where
  computation : ℕ → Computation
  acyclic : ∀ n, ∀ input ∈ (computation n).inputs, input < n
  /-- a computation without inputs is a scan -/
  scans : ∀ n, (computation n).inputs = [] → (computation n).setsTraversed = true

/-- the fields of each computation that a traversal writes -/
structure Marks where
  traversed : ℕ → Bool
  outputTupleSetName : ℕ → String
  outputColumnToApply : ℕ → String

namespace Marks

def setTraversed (m : Marks) (n : ℕ) (b : Bool) : Marks :=
  { m with traversed := Function.update m.traversed n b }

def getOutputTupleSetName (m : Marks) (n : ℕ) : String :=
  if m.traversed n then m.outputTupleSetName n else ""

def getOutputColumnToApply (m : Marks) (n : ℕ) : String :=
  if m.traversed n then m.outputColumnToApply n else ""

end Marks

/-- one entry of `tcapStrings`, with the computation that emitted it and its label -/
structure Emitted where
  computation : ℕ
  label : ℕ
  text : String

structure Traversal where
  marks : Marks
  tcapStrings : List Emitted
  computationLabel : ℕ
  outputTupleSetName : String
  outputColumnNames : List String
  addedOutputColumnName : String

variable (g : QueryGraph)

/-- `toTCAPString`, with the columns from before forgotten -/
def emit (t : Traversal) (sink : ℕ) (inputTupleSets : List InputTupleSetSpecifier) : Traversal :=
  let c := g.computation sink
  let r := c.toTCAPString inputTupleSets t.computationLabel t.outputTupleSetName [] ""
  { marks :=
      { traversed :=
          if c.setsTraversed then Function.update t.marks.traversed sink true else t.marks.traversed
        outputTupleSetName :=
          Function.update t.marks.outputTupleSetName sink r.outputTupleSetName
        outputColumnToApply :=
          Function.update t.marks.outputColumnToApply sink r.addedOutputColumnName }
    tcapStrings := t.tcapStrings ++
      [{ computation := sink, label := t.computationLabel, text := r.text }]
    computationLabel := t.computationLabel + 1
    outputTupleSetName := r.outputTupleSetName
    outputColumnNames := r.outputColumnNames
    addedOutputColumnName := r.addedOutputColumnName }

/-- a computation that was traversed before -/
def materialized (t : Traversal) (n : ℕ) : Traversal :=
  { t with
    outputTupleSetName := t.marks.getOutputTupleSetName n
    outputColumnNames := [t.marks.getOutputColumnToApply n]
    addedOutputColumnName := t.marks.getOutputColumnToApply n }

/-- one round of the loop over the inputs; `visit` is `traverse` -/
def traverseInput (visit : Traversal → ℕ → Traversal)
    (r : Traversal × List InputTupleSetSpecifier) (input : ℕ) :
    Traversal × List InputTupleSetSpecifier :=
  let t :=
    if r.1.marks.traversed input then materialized r.1 input
    else
      let t := visit r.1 input
      { t with marks := t.marks.setTraversed input true }
  (t, r.2 ++
    [{ tupleSetName := t.outputTupleSetName, columnNamesToKeep := t.outputColumnNames
       columnNamesToApply := [t.addedOutputColumnName] }])

/-- the depth is bounded by the address -/
def traverse (inputTupleSets : List InputTupleSetSpecifier) : ℕ → Traversal → ℕ → Traversal
  | 0, t, _ => t
  | fuel + 1, t, sink =>
    if (g.computation sink).inputs ≠ [] then
      let r := (g.computation sink).inputs.foldl (traverseInput (traverse inputTupleSets fuel)) (t, [])
      emit g r.1 sink r.2
    else if t.marks.traversed sink = false then emit g t sink inputTupleSets
    else materialized t sink

def traverseSink (t : Traversal) (sink : ℕ) : Traversal :=
  traverse g [{ tupleSetName := "", columnNamesToKeep := [], columnNamesToApply := [] }] (sink + 1)
    { t with outputTupleSetName := "", outputColumnNames := [], addedOutputColumnName := "" } sink

def traverseSinks (m : Marks) (sinks : List ℕ) : Traversal :=
  sinks.foldl (traverseSink g)
    { marks := m, tcapStrings := [], computationLabel := 0, outputTupleSetName := ""
      outputColumnNames := [], addedOutputColumnName := "" }

def parseTCAPString (m : Marks) (sinks : List ℕ) : String :=
  String.join ((traverseSinks g m sinks).tcapStrings.map (·.text))

/-! ## The list of the computations -/

def clearMarksBelow : ℕ → Marks → ℕ → Marks
  | 0, m, _ => m
  | fuel + 1, m, sink =>
    (g.computation sink).inputs.foldl (clearMarksBelow fuel) (m.setTraversed sink false)

def clearGraphMarks (m : Marks) (sinks : List ℕ) : Marks :=
  sinks.foldl (fun m sink => clearMarksBelow g (sink + 1) m sink) m

def parseBelow : ℕ → Marks × List ℕ → ℕ → Marks × List ℕ
  | 0, r, _ => r
  | fuel + 1, r, sink =>
    let r := (g.computation sink).inputs.foldl (parseBelow fuel) r
    if r.1.traversed sink = false then (r.1.setTraversed sink true, r.2 ++ [sink]) else r

def parseComputations (m : Marks) (sinks : List ℕ) : List ℕ :=
  (sinks.foldl (fun r sink => parseBelow g (sink + 1) r sink) (clearGraphMarks g m sinks, [])).2

/-- `allConstituentComputations`, filled in the order of the list -/
def logicalPlan (computations : List ℕ) : String → Option ℕ :=
  computations.zipIdx.foldl
    (fun all c => Function.update all (Label.label (g.computation c.1).computationType c.2) (some c.1))
    fun _ => none

/-! ## What the names are for -/

/-- there is a path from a sink -/
def Reachable (sinks : List ℕ) (n : ℕ) : Prop :=
  ∃ sink ∈ sinks, Relation.ReflTransGen (fun a b => b ∈ (g.computation a).inputs) sink n

/-- each reachable computation is emitted once, behind its inputs, and under the name by which the plan
of the computations finds it -/
structure Named (m : Marks) (sinks : List ℕ) : Prop where
  once : ∀ n, Reachable g sinks n →
    ((traverseSinks g m sinks).tcapStrings.map (·.computation)).count n = 1
  behind : ∀ a e b, (traverseSinks g m sinks).tcapStrings = a ++ e :: b →
    ∀ input ∈ (g.computation e.computation).inputs, input ∈ a.map (·.computation)
  found : ∀ e ∈ (traverseSinks g m sinks).tcapStrings,
    logicalPlan g (parseComputations g (traverseSinks g m sinks).marks sinks)
      (Label.label (g.computation e.computation).computationType e.label) = some e.computation

end QueryGraphAnalyzer
end Netsdb
