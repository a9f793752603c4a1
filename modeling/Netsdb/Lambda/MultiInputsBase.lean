import Netsdb.Lambda.GenericLambdaObject

/-!
# The inputs of a join and the statements of the text

* `MultiInputsBase`   for every input its name, the newest tuple set with it, the columns of that and
                      the columns to apply;
* `Statement`         one operation of the text;
* `getTCAPString`     the statement of one lambda;
* `uses`              the lambda names of a text, each with the node its statement is for.
-/

set_option linter.unusedSectionVars false

namespace Netsdb

structure MultiInput where
  name : String
  tupleSetName : String
  inputColumns : List String
  inputColumnsToApply : List String
  deriving DecidableEq, Repr

/-- one entry for every input -/
structure MultiInputsBase where
  inputs : List MultiInput
  deriving DecidableEq, Repr

namespace MultiInputsBase

def getNumInputs (b : MultiInputsBase) : Nat := b.inputs.length

/-- an index that is too large has the empty text -/
def getNameForIthInput (b : MultiInputsBase) (i : Nat) : String :=
  (b.inputs[i]?).elim "" (·.name)

def getTupleSetNameForIthInput (b : MultiInputsBase) (i : Nat) : String :=
  (b.inputs[i]?).elim "" (·.tupleSetName)

def getInputColumnsForIthInput (b : MultiInputsBase) (i : Nat) : List String :=
  (b.inputs[i]?).elim [] (·.inputColumns)

def getInputColumnsToApplyForIthInput (b : MultiInputsBase) (i : Nat) : List String :=
  (b.inputs[i]?).elim [] (·.inputColumnsToApply)

/-- the three setters for the `i`-th input -/
def setIthInput (b : MultiInputsBase) (i : Nat) (name : String) (columns applied : List String) :
    MultiInputsBase :=
  ⟨b.inputs.modify i fun x =>
    { x with tupleSetName := name, inputColumns := columns, inputColumnsToApply := applied }⟩

/-- the three setters for every input whose name is one of `names` -/
def setInputsNamed (b : MultiInputsBase) (names : List String) (name : String)
    (columns : List String) (applied : String → List String) : MultiInputsBase :=
  ⟨b.inputs.map fun x =>
    if x.name ∈ names then
      { x with tupleSetName := name, inputColumns := columns, inputColumnsToApply := applied x.name }
    else x⟩

end MultiInputsBase

/-- an input of a statement: the tuple set, the columns to apply and the columns to keep -/
structure StatementInput where
  tupleSetName : String
  columnsToApply : List String
  columnNames : List String
  deriving DecidableEq, Repr

/-- one operation of the text, for the node `subject` of a tree; the lambda name is empty where the
operation has none -/
structure Statement where
  outputTupleSetName : String
  outputColumns : List String
  tcapOperation : String
  inputs : List StatementInput
  computationNameAndLabel : String
  lambdaNameAndLabel : String
  subject : NodePath
  deriving DecidableEq, Repr

/-- the lambda name of a statement, with the node that the statement is for -/
def Statement.use (s : Statement) : LambdaMap :=
  if s.lambdaNameAndLabel = "" then [] else [(s.lambdaNameAndLabel, s.subject)]

/-- the lambda names of a text -/
def uses (text : List Statement) : LambdaMap := text.flatMap Statement.use

@[simp] theorem uses_nil : uses [] = [] := rfl

@[simp] theorem uses_append (x y : List Statement) : uses (x ++ y) = uses x ++ uses y :=
  List.flatMap_append

@[simp] theorem uses_cons (s : Statement) (x : List Statement) : uses (s :: x) = s.use ++ uses x :=
  List.flatMap_cons

theorem Statement.use_named {s : Statement} {name : String} (h : s.lambdaNameAndLabel = name)
    (hn : name ≠ "") : s.use = [(name, s.subject)] := by
  unfold use
  rw [h, if_neg hn]

theorem Statement.use_unnamed {s : Statement} (h : s.lambdaNameAndLabel = "") : s.use = [] :=
  if_pos h

/-- `GenericLambdaObject::getTCAPString`, which reads the first of the output columns and of the
columns to apply -/
def getTCAPString (inputTupleSetName : String) (inputColumnNames inputColumnsToApply : List String)
    (outputTupleSetName : String) (outputColumns : List String) (tcapOperation : String)
    (computationNameAndLabel lambdaNameAndLabel : String) (subject : NodePath) : Option Statement :=
  if outputColumns = [] ∨ inputColumnsToApply = [] then none
  else some
    { outputTupleSetName, outputColumns, tcapOperation
      inputs := [⟨inputTupleSetName, inputColumnsToApply, inputColumnNames⟩]
      computationNameAndLabel, lambdaNameAndLabel, subject }

theorem getTCAPString_some {a f g c l : String} {b d e : List String} {p : NodePath} {s : Statement}
    (h : getTCAPString a b d f e g c l p = some s) :
    s.lambdaNameAndLabel = l ∧ s.subject = p := by
  unfold getTCAPString at h
  split at h
  · cases h
  · obtain rfl := Option.some.inj h
    exact ⟨rfl, rfl⟩

end Netsdb
