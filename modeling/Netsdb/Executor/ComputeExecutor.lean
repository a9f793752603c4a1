import Netsdb.Executor.TupleSet

/-!
# The executors (`FilterExecutor.h`, `FlattenExecutor.h`, `HashOneExecutor.h`, `CPlusPlusLambda.h`)

* `TupleSetSetupMachine`   finds the attributes in the input schema, and copies or replicates their
                           columns;
* `Executor.process`       what an executor does to its output tuple set when it gets an input;
* `Executor.sem`           what it should compute, on the rows of a table.
-/

set_option linter.unusedSectionVars false

namespace Netsdb

variable {α : Type}

namespace TupleSetSetupMachine

/-- an attribute that is not found is reported, and left out -/
def match_ (inputSchema attsToMatch : List String) : List ℕ :=
  attsToMatch.filterMap fun s => if s ∈ inputSchema then some (inputSchema.idxOf s) else none

def setup (matches_ : List ℕ) (m : Memory α) (output input : TupleSet) :
    Option (Memory α × TupleSet) :=
  TupleSet.forEach (fun (i : ℕ × ℕ) m t => t.copyColumn m input i.1 i.2) matches_.zipIdx m output

def replicate (matches_ : List ℕ) (m : Memory α) (output input : TupleSet) (counts : List ℕ)
    (offset : ℕ) : Option (Memory α × TupleSet) :=
  TupleSet.forEach (fun (i : ℕ × ℕ) m t => t.replicate m input i.1 (i.2 + offset) counts)
    matches_.zipIdx m output

end TupleSetSetupMachine

/-- the parameters of an executor's constructor -/
structure Atts where
  inputSchema : List String
  attsToOperateOn : List String
  attsToIncludeInOutput : List String

namespace Atts

def matches_ (a : Atts) : List ℕ :=
  TupleSetSetupMachine.match_ a.inputSchema a.attsToIncludeInOutput

def inputAtts (a : Atts) : List ℕ := TupleSetSetupMachine.match_ a.inputSchema a.attsToOperateOn

def whichAtt (a : Atts) : Option ℕ := a.inputAtts.head?

/-- the column an executor works on -/
def operand (a : Atts) : ℕ := a.whichAtt.getD 0

def outAtt (a : Atts) : ℕ := a.attsToIncludeInOutput.length

end Atts

/-- what a lambda computes from one row of its input columns -/
structure RowFunction (α : Type) where
  type : ColType
  zero : Value α
  apply : List (Value α) → Value α
  zero_type : zero.type = type
  apply_type : ∀ args, (apply args).type = type

/-- the output column, if it is not there -/
def createColumn (m : Memory α) (output : TupleSet) (outAtt : ℕ) (zero : Value α) :
    Option (Memory α × TupleSet) :=
  if output.hasColumn outAtt = true then some (m, output)
  else output.addColumn (m.alloc ⟨zero, []⟩) outAtt m.next true

/-- the column is resized, and every row written -/
def writeColumn (m : Memory α) (output : TupleSet) (outAtt : ℕ) (rows : List (Value α)) :
    Option (Memory α) := do
  let s ← output.find outAtt
  let outColumn ← m.cell s.ptr
  m.store s.ptr { outColumn with rows := rows }

def FilterExecutor.process (a : Atts) (m : Memory α) (output input : TupleSet) :
    Option (Memory α × TupleSet) := do
  let (m, output) ← TupleSetSetupMachine.setup a.matches_ m output input
  let whichAtt ← a.whichAtt
  let c ← input.getColumn m whichAtt
  let inputColumn ← c.rows.mapM Value.asBool
  TupleSet.forEach (fun i m t => t.filterColumn m i inputColumn) (List.range output.getNumColumns)
    m output

/-- the number of flattened rows is an `int` -/
def FlattenExecutor.process [Inhabited α] (a : Atts) (m : Memory α) (output input : TupleSet) :
    Option (Memory α × TupleSet) := do
  let whichAtt ← a.whichAtt
  let c ← input.getColumn m whichAtt
  let inputVecData ← c.rows.mapM Value.asVec
  let counts := inputVecData.map List.length
  if inputVecData.length < 2 ^ 31 ∧ counts.sum < 2 ^ 31 then
    let (m, output) ← TupleSetSetupMachine.replicate a.matches_ m output input counts 0
    let (m, output) ← createColumn m output a.outAtt (.obj default)
    let m ← writeColumn m output a.outAtt (inputVecData.flatten.map .obj)
    return (m, output)
  else none

/-- the rows are those of the output's column that has the number of the input's;
a negative number of rows cannot be resized to -/
def HashOneExecutor.process (a : Atts) (m : Memory α) (output input : TupleSet) :
    Option (Memory α × TupleSet) := do
  let (m, output) ← TupleSetSetupMachine.setup a.matches_ m output input
  let (m, output) ← createColumn m output a.outAtt (.num 0)
  let whichAtt ← a.whichAtt
  let numRows ← output.getNumRows m whichAtt
  if 0 ≤ numRows then
    let m ← writeColumn m output a.outAtt (List.replicate numRows.toNat (.num 1))
    return (m, output)
  else none

/-- `CPlusPlusLambda::getExecutor`, and those of the other lambdas -/
def LambdaExecutor.process (f : RowFunction α) (a : Atts) (m : Memory α)
    (output input : TupleSet) : Option (Memory α × TupleSet) := do
  let (m, output) ← TupleSetSetupMachine.setup a.matches_ m output input
  let inAtts ← a.inputAtts.mapM fun i => input.getColumn m i
  let (m, output) ← createColumn m output a.outAtt f.zero
  let first ← inAtts.head?
  let numTuples := JoinPairArray.toInt first.rows.length
  if 0 ≤ numTuples then
    let rows ← (List.range numTuples.toNat).mapM fun i =>
      (inAtts.mapM fun c => c.rows[i]?).map f.apply
    let m ← writeColumn m output a.outAtt rows
    return (m, output)
  else none

inductive Executor (α : Type)
  | filter (a : Atts)
  | flatten (a : Atts)
  | lambda (a : Atts) (f : RowFunction α)
  | hashOne (a : Atts)

namespace Executor

def atts : Executor α → Atts
  | filter a => a
  | flatten a => a
  | lambda a _ => a
  | hashOne a => a

def process [Inhabited α] (e : Executor α) (m : Memory α) (output input : TupleSet) :
    Option (Memory α × TupleSet) :=
  match e with
  | filter a => FilterExecutor.process a m output input
  | flatten a => FlattenExecutor.process a m output input
  | lambda a f => LambdaExecutor.process f a m output input
  | hashOne a => HashOneExecutor.process a m output input

end Executor

/-! ## rows of a table -/

abbrev Row (α : Type) := List (Value α)

def cell (k : ℕ) (r : Row α) : Value α := r.getD k (.num 0)

/-- the row in the columns `ks` -/
def project (ks : List ℕ) (r : Row α) : Row α := ks.map fun k => cell k r

def selected (k : ℕ) (r : Row α) : Bool := ((cell k r).asBool).getD false

def elements (k : ℕ) (r : Row α) : List α := ((cell k r).asVec).getD []

namespace Executor

/-- what should come out, for the rows `T` of the input -/
def sem (e : Executor α) (T : List (Row α)) : List (Row α) :=
  match e with
  | filter a => (T.filter (selected a.operand)).map (project a.matches_)
  | flatten a => T.flatMap fun r =>
    (elements a.operand r).map fun x => project a.matches_ r ++ [.obj x]
  | lambda a f => T.map fun r => project a.matches_ r ++ [f.apply (project a.inputAtts r)]
  | hashOne a => T.map fun r => project a.matches_ r ++ [.num 1]

/-- the types of the output's columns -/
def types (e : Executor α) (ts : List ColType) : List ColType :=
  let carried := e.atts.matches_.map fun k => ts.getD k .obj
  match e with
  | filter _ => carried
  | flatten _ => carried ++ [.obj]
  | lambda _ f => carried ++ [f.type]
  | hashOne _ => carried ++ [.num]

end Executor

end Netsdb
