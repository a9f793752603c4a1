import Netsdb.Lambda.MultiInputsBase

/-!
# The statements of a leaf

`toTCAPString` of the classes without children.  `none` where the source exits, or reads the first
element of a list that has none.

* `applyToInputs`         an APPLY, and under `==` in a join a HASHLEFT or HASHRIGHT that names the
                          parent;
* `toTCAPStringForCartesianJoin`   a native lambda as a join predicate joins its inputs first;
* `Leaf.toTCAPString`     the class decides;
* `Leaf.toTCAPString_names`   the lambda names of the text.
-/

set_option linter.unusedSectionVars false

namespace Netsdb
open Label

structure Naming where
  computationName : String
  computationLabel : Nat

namespace Naming

def computationNameWithLabel (c : Naming) : String := label c.computationName c.computationLabel

/-- the same without the underscore -/
def computationNameThenLabel (c : Naming) : String :=
  c.computationName ++ toString c.computationLabel

end Naming

/-- what a node is told about its place in the tree -/
structure NodePlace where
  path : NodePath
  amIPartOfJoinPredicate : Bool
  amILeftChildOfEqualLambda : Bool
  amIRightChildOfEqualLambda : Bool
  parentLambdaName : String
  isSelfJoin : Bool

def NodePlace.amIChildOfEqualLambda (place : NodePlace) : Bool :=
  place.amILeftChildOfEqualLambda || place.amIRightChildOfEqualLambda

/-- the vectors of the caller, passed by reference -/
structure Vectors where
  inputTupleSetNames : List String
  inputColumnNames : List String
  inputColumnsToApply : List String
  childrenLambdaNames : List String

/-- the references that all nodes of a lambda share -/
structure Refs where
  outputTupleSetName : String
  addedOutputColumnName : String
  myLambdaName : String
  multiInputsComp : Option MultiInputsBase

/-- what `toTCAPString` returns and writes -/
structure Emitted where
  tcapString : List Statement
  outputColumns : List String
  inputColumnsToApply : List String
  refs : Refs

section
variable (c : Naming) (place : NodePlace) (lambdaLabel : Nat) (v : Vectors) (r : Refs)

/-! ## Leaves -/

/-- where the result of a leaf is after its statements: the tuple set, the new column, the columns -/
structure Extracted where
  tupleSetName : String
  columnName : String
  columns : List String

/-- below `==` the extracted value is hashed for the parent, under the name that the parent told -/
def toHash (computation : String) (x : Extracted) : Option (List Statement × Extracted) :=
  if place.amIChildOfEqualLambda then do
    let kept := x.columns.filter (· ≠ x.columnName)
    let hashed : Extracted :=
      ⟨x.tupleSetName ++ "_hashed", x.columnName ++ "_hash", kept ++ [x.columnName ++ "_hash"]⟩
    let operation := if place.amILeftChildOfEqualLambda then "HASHLEFT" else "HASHRIGHT"
    let s ← getTCAPString x.tupleSetName kept [x.columnName] hashed.tupleSetName hashed.columns
      operation computation place.parentLambdaName place.path.tail
    some ([s], hashed)
  else some ([], x)

/-- the inputs whose column is still there, or was read, are now in the new tuple set; in a self join
only the one with index `myIndex` -/
def updateInputs (b : MultiInputsBase) (myIndex : Nat) (original : List String) (x : Extracted) :
    MultiInputsBase :=
  if place.isSelfJoin then b.setIthInput myIndex x.tupleSetName x.columns [x.columnName]
  else b.setInputsNamed (x.columns ++ original) x.tupleSetName x.columns fun _ => [x.columnName]

/-- what the classes of leaves share: they differ in the names of the tuple set and of the column -/
def applyToInputs (o : Leaf) (tupleSetName columnName : String) : Option Emitted := do
  let inputTupleSetName ← v.inputTupleSetNames.head?
  let myLambdaName := label o.getTypeOfLambda lambdaLabel
  match r.multiInputsComp with
  | none =>
    let outputColumns := v.inputColumnNames ++ [columnName]
    let s ← getTCAPString inputTupleSetName v.inputColumnNames v.inputColumnsToApply tupleSetName
      outputColumns "APPLY" c.computationNameWithLabel myLambdaName place.path
    some ⟨[s], outputColumns, v.inputColumnsToApply, ⟨tupleSetName, columnName, myLambdaName, none⟩⟩
  | some b =>
    let myIndex := o.getInputIndex
    let inputColumnNames := b.getInputColumnsForIthInput myIndex
    let inputColumnsToApply := o.getInputIndexes.map b.getNameForIthInput
    let originalInputColumnsToApply := o.getInputIndexes.map fun _ => b.getNameForIthInput myIndex
    let x : Extracted := ⟨tupleSetName, columnName, inputColumnNames ++ [columnName]⟩
    let s ← getTCAPString (b.getTupleSetNameForIthInput myIndex) inputColumnNames
      inputColumnsToApply tupleSetName x.columns "APPLY" c.computationNameWithLabel myLambdaName
      place.path
    let (hash, y) ← toHash place c.computationNameWithLabel x
    let applied := if place.amIChildOfEqualLambda then [columnName] else inputColumnsToApply
    some ⟨s :: hash, y.columns, applied, ⟨y.tupleSetName, y.columnName, myLambdaName,
      some (updateInputs place b myIndex originalInputColumnsToApply y)⟩⟩

def AttAccessLambda.toTCAPString (attName : String) (inputIndex : Nat) : Option Emitted :=
  let tupleSetMidTag := if r.multiInputsComp.isNone then "OutFor" else "ExtractedFor"
  applyToInputs c place lambdaLabel v r (.AttAccessLambda attName inputIndex)
    ("attAccess_" ++ toString lambdaLabel ++ tupleSetMidTag ++ c.computationNameThenLabel)
    ("att_" ++ toString lambdaLabel ++ tupleSetMidTag ++ "_" ++ attName)

def MethodCallLambda.toTCAPString (methodName : String) (inputIndex : Nat) : Option Emitted :=
  let tupleSetMidTag := if r.multiInputsComp.isNone then "OutFor_" else "ExtractedFor_"
  applyToInputs c place lambdaLabel v r (.MethodCallLambda methodName inputIndex)
    ("methodCall_" ++ toString lambdaLabel ++ tupleSetMidTag ++ c.computationNameThenLabel)
    ("methodCall_" ++ toString lambdaLabel ++ tupleSetMidTag ++ methodName)

/-! ## Native lambdas as join predicates -/

/-- the inputs of a native lambda that are in one tuple set -/
structure InputPartition where
  tupleSetName : String
  columnNames : List String
  columnsToApply : List String
  indexes : List Nat

def partitionInputs (b : MultiInputsBase) (indexes : List Nat) : List InputPartition :=
  indexes.foldl
    (fun parts index =>
      let name := b.getTupleSetNameForIthInput index
      if parts.any fun g => g.tupleSetName == name then
        parts.map fun g =>
          if g.tupleSetName = name then { g with indexes := g.indexes ++ [index] } else g
      else
        parts ++ [⟨name, b.getInputColumnsForIthInput index,
          b.getInputColumnsToApplyForIthInput index, [index]⟩])
    []

/-- HASHONE for the `i`-th tuple set; the source exits where no columns are to apply -/
def hashOne (b : MultiInputsBase) (i : Nat) (g : InputPartition) :
    Option (Statement × Extracted) := do
  let curPrefix := "hashOneFor_" ++ toString c.computationLabel ++ "_" ++ toString lambdaLabel ++
    (if 1 < g.indexes.length then "Joined" else "")
  let x : Extracted :=
    ⟨curPrefix ++ "_" ++ "_".intercalate (g.indexes.map b.getNameForIthInput),
      "OneFor_" ++ toString i ++ "_" ++ toString c.computationLabel ++ "_" ++ toString lambdaLabel,
      g.columnNames⟩
  let s ← getTCAPString g.tupleSetName g.columnNames g.columnsToApply x.tupleSetName
    (g.columnNames ++ [x.columnName]) "HASHONE" c.computationNameWithLabel "" place.path
  some (s, x)

/-- the joins with the tuple sets from the `i`-th on, one after the other -/
def joinPartitions (b : MultiInputsBase) (left : Extracted) (leftIndexes : List Nat) (i : Nat) :
    List InputPartition → Option (List Statement × Extracted)
  | [] => some ([], left)
  | g :: rest => do
    let (hash, right) ← hashOne c place lambdaLabel b i g
    if left.columns = [] ∨ g.columnNames = [] then none
    let names := fun is => "_".intercalate (is.map b.getNameForIthInput)
    let outputTupleSetName :=
      "CartesianJoined__" ++ names leftIndexes ++ "___" ++ names g.indexes ++ "_"
    -- the hash of the right side is kept for the next join
    let kept := if rest.isEmpty then [] else [right.columnName]
    let join : Statement :=
      { outputTupleSetName
        outputColumns := left.columns ++ g.columnNames ++ kept
        tcapOperation := "JOIN"
        inputs := [⟨left.tupleSetName, [left.columnName], left.columns⟩,
          ⟨right.tupleSetName, [right.columnName], g.columnNames ++ kept⟩]
        computationNameAndLabel := c.computationNameWithLabel
        lambdaNameAndLabel := ""
        subject := place.path }
    let (text, joined) ← joinPartitions b
      ⟨outputTupleSetName, right.columnName, left.columns ++ g.columnNames⟩
      (leftIndexes ++ g.indexes) (i + 1) rest
    some (hash :: join :: text, joined)

/-- the tuple set with all inputs of the lambda -/
def joinInputs (b : MultiInputsBase) (parts : List InputPartition) :
    Option (List Statement × Extracted) :=
  match parts with
  | [] => none
  | [first] => some ([], ⟨first.tupleSetName, "", first.columnNames⟩)
  | first :: rest => do
    let (hash, x) ← hashOne c place lambdaLabel b 0 first
    let (text, left) ← joinPartitions c place lambdaLabel b x first.indexes 1 rest
    some (hash :: text, left)

def CPlusPlusLambda.toTCAPStringForCartesianJoin (b : MultiInputsBase) (inputIndexes : List Nat) :
    Option Emitted := do
  let myLambdaName := label "native_lambda" lambdaLabel
  let (text, left) ← joinInputs c place lambdaLabel b (partitionInputs b inputIndexes)
  let curInputColumnsToApply := inputIndexes.map b.getNameForIthInput
  let curOutputTupleSetName :=
    "nativeLambda_" ++ toString lambdaLabel ++ "OutFor_" ++ c.computationNameWithLabel
  let curOutputColumnName := label "nativeLambda" lambdaLabel ++ "_" ++ toString c.computationLabel
  let apply ← getTCAPString left.tupleSetName left.columns curInputColumnsToApply
    curOutputTupleSetName (left.columns ++ [curOutputColumnName]) "APPLY" c.computationNameWithLabel
    myLambdaName place.path
  let column ← left.columns.head?
  let outputTupleSetName := "filtedOutFor_" ++ myLambdaName ++ "_" ++ c.computationNameWithLabel
  let filter : Statement :=
    { outputTupleSetName
      outputColumns := left.columns
      tcapOperation := "FILTER"
      inputs := [⟨curOutputTupleSetName, [curOutputColumnName], left.columns⟩]
      computationNameAndLabel := c.computationNameWithLabel
      lambdaNameAndLabel := ""
      subject := place.path }
  -- the loop pushes the first column every time
  some ⟨text ++ [apply, filter], left.columns.map fun _ => column, v.inputColumnsToApply,
    ⟨outputTupleSetName, r.addedOutputColumnName, myLambdaName,
      some (b.setInputsNamed left.columns outputTupleSetName left.columns
        fun _ => curInputColumnsToApply)⟩⟩

/-- the implementation of the base class, for `self` and `native_lambda` -/
def toTCAPStringDefault (o : Leaf) : Option Emitted :=
  let lambdaType := o.getTypeOfLambda
  if Within "==" lambdaType ∨ Within "&&" lambdaType then
    some ⟨[], [], v.inputColumnsToApply, r⟩
  else
    let asApply :=
      let tupleSetMidTag :=
        if r.multiInputsComp.isSome && place.amIChildOfEqualLambda then "Extracted" else "OutFor"
      applyToInputs c place lambdaLabel v r o
        (label lambdaType lambdaLabel ++ tupleSetMidTag ++ c.computationNameThenLabel)
        (label lambdaType lambdaLabel ++ "_" ++ toString c.computationLabel ++ tupleSetMidTag)
    match r.multiInputsComp with
    | none => asApply
    | some b =>
      -- the test for a right child stands twice, the one for a left child nowhere
      if Within "native_lambda" lambdaType ∧ place.amIPartOfJoinPredicate = true ∧
          place.amIRightChildOfEqualLambda = false ∧ place.amIRightChildOfEqualLambda = false ∧
          (place.parentLambdaName = "" ∨ Within "&&" place.parentLambdaName) then
        CPlusPlusLambda.toTCAPStringForCartesianJoin c place lambdaLabel v r b o.getInputIndexes
      else asApply

def Leaf.toTCAPString (o : Leaf) : Option Emitted :=
  match o with
  | AttAccessLambda attName i => AttAccessLambda.toTCAPString c place lambdaLabel v r attName i
  | MethodCallLambda name i => MethodCallLambda.toTCAPString c place lambdaLabel v r name i
  | SelfLambda i => toTCAPStringDefault c place lambdaLabel v r (SelfLambda i)
  | CPlusPlusLambda i is => toTCAPStringDefault c place lambdaLabel v r (CPlusPlusLambda i is)

end

/-! ## The names -/

/-- the lambda names of the text, the name of the node and whether there still are several inputs -/
structure Emitted.Names (e : Emitted) (names : LambdaMap) (name : String) (inJoin : Bool) : Prop where
  uses : uses e.tcapString = names
  myLambdaName : e.refs.myLambdaName = name
  inJoin : e.refs.multiInputsComp.isSome = inJoin

section
variable {c : Naming} {place : NodePlace} {n : Nat} {v : Vectors} {r : Refs} {e : Emitted}
  {b : MultiInputsBase} {o : Leaf}

/-- the name that a child of `==` in a join gives its parent -/
def NodePlace.hashUse (place : NodePlace) (inJoin : Bool) : LambdaMap :=
  if inJoin && place.amIChildOfEqualLambda then [(place.parentLambdaName, place.path.tail)] else []

/-- only `==` tells its children that they are children of `==` -/
def NodePlace.OfEquals (place : NodePlace) : Prop :=
  place.amIChildOfEqualLambda = true → ∃ k, place.parentLambdaName = label "==" k

theorem toHash_uses {computation : String} {x y : Extracted} {hash : List Statement}
    (hp : place.OfEquals) (h : toHash place computation x = some (hash, y)) :
    uses hash = place.hashUse true := by
  unfold toHash at h
  unfold NodePlace.hashUse
  split at h
  · next hc =>
    simp only [Option.bind_eq_bind, Option.bind_eq_some_iff] at h
    obtain ⟨s, hs, h⟩ := h
    obtain ⟨rfl, -⟩ := Prod.mk.inj (Option.some.inj h)
    obtain ⟨h1, h2⟩ := getTCAPString_some hs
    obtain ⟨k, hk⟩ := hp hc
    have hne : place.parentLambdaName ≠ "" := by
      rw [hk]
      exact label_ne_empty "==" k
    rw [hc, uses_cons, Statement.use_named h1 hne, h2]
    rfl
  · next hc =>
    obtain ⟨rfl, -⟩ := Prod.mk.inj (Option.some.inj h)
    rw [Bool.not_eq_true] at hc
    rw [hc]
    rfl

theorem applyToInputs_names {tupleSetName columnName : String} (hp : place.OfEquals)
    (h : applyToInputs c place n v r o tupleSetName columnName = some e) :
    e.Names ((label o.getTypeOfLambda n, place.path) :: place.hashUse r.multiInputsComp.isSome)
      (label o.getTypeOfLambda n) r.multiInputsComp.isSome := by
  unfold applyToInputs at h
  obtain ⟨first, -, h⟩ := Option.bind_eq_some_iff.mp h
  cases hb : r.multiInputsComp with
  | none =>
    rw [hb] at h
    obtain ⟨s, hs, h⟩ := Option.bind_eq_some_iff.mp h
    obtain rfl := Option.some.inj h
    obtain ⟨h1, h2⟩ := getTCAPString_some hs
    refine ⟨?_, rfl, rfl⟩
    rw [uses_cons, Statement.use_named h1 (label_ne_empty _ n), h2]
    rfl
  | some b =>
    rw [hb] at h
    obtain ⟨s, hs, h⟩ := Option.bind_eq_some_iff.mp h
    obtain ⟨⟨hash, y⟩, hh, h⟩ := Option.bind_eq_some_iff.mp h
    obtain rfl := Option.some.inj h
    obtain ⟨h1, h2⟩ := getTCAPString_some hs
    refine ⟨?_, rfl, rfl⟩
    rw [uses_cons, Statement.use_named h1 (label_ne_empty _ n), h2, toHash_uses hp hh]
    rfl

theorem hashOne_use {i : Nat} {g : InputPartition} {s : Statement} {x : Extracted}
    (h : hashOne c place n b i g = some (s, x)) : s.use = [] := by
  unfold hashOne at h
  obtain ⟨s', hs, h⟩ := Option.bind_eq_some_iff.mp h
  obtain ⟨rfl, -⟩ := Prod.mk.inj (Option.some.inj h)
  exact Statement.use_unnamed (getTCAPString_some hs).1

/-- the joins name no lambda -/
theorem joinPartitions_uses {left joined : Extracted} {indexes : List Nat} {i : Nat}
    {parts : List InputPartition} {text : List Statement}
    (h : joinPartitions c place n b left indexes i parts = some (text, joined)) :
    uses text = [] := by
  induction parts generalizing left indexes i text joined with
  | nil =>
    obtain ⟨rfl, -⟩ := Prod.mk.inj (Option.some.inj h)
    rfl
  | cons g rest ih =>
    unfold joinPartitions at h
    obtain ⟨⟨hash, right⟩, hh, h⟩ := Option.bind_eq_some_iff.mp h
    simp only at h
    split at h
    · cases h
    obtain ⟨⟨text', joined'⟩, hj, h⟩ := Option.bind_eq_some_iff.mp h
    obtain ⟨rfl, -⟩ := Prod.mk.inj (Option.some.inj h)
    rw [uses_cons, uses_cons, hashOne_use hh, Statement.use_unnamed rfl, ih hj]
    rfl

theorem joinInputs_uses {parts : List InputPartition} {left : Extracted} {text : List Statement}
    (h : joinInputs c place n b parts = some (text, left)) : uses text = [] := by
  unfold joinInputs at h
  split at h
  · cases h
  · obtain ⟨rfl, -⟩ := Prod.mk.inj (Option.some.inj h)
    rfl
  · obtain ⟨⟨hash, x⟩, hh, h⟩ := Option.bind_eq_some_iff.mp h
    obtain ⟨⟨text', left'⟩, hj, h⟩ := Option.bind_eq_some_iff.mp h
    obtain ⟨rfl, -⟩ := Prod.mk.inj (Option.some.inj h)
    rw [uses_cons, hashOne_use hh, joinPartitions_uses hj]
    rfl

theorem cartesianJoin_names {indexes : List Nat}
    (h : CPlusPlusLambda.toTCAPStringForCartesianJoin c place n v r b indexes = some e) :
    e.Names [(label "native_lambda" n, place.path)] (label "native_lambda" n) true := by
  unfold CPlusPlusLambda.toTCAPStringForCartesianJoin at h
  obtain ⟨⟨text, left⟩, ht, h⟩ := Option.bind_eq_some_iff.mp h
  obtain ⟨s, hs, h⟩ := Option.bind_eq_some_iff.mp h
  obtain ⟨column, -, h⟩ := Option.bind_eq_some_iff.mp h
  obtain rfl := Option.some.inj h
  obtain ⟨h1, h2⟩ := getTCAPString_some hs
  refine ⟨?_, rfl, rfl⟩
  rw [uses_append, joinInputs_uses ht, uses_cons, uses_cons, Statement.use_named h1 (label_ne_empty _ n), h2,
    Statement.use_unnamed rfl]
  rfl

/-- a native lambda that joins its inputs is no child of `==`: the name of the parent has no `&&` -/
theorem NodePlace.OfEquals.not_child (hp : place.OfEquals)
    (h : place.parentLambdaName = "" ∨ Within "&&" place.parentLambdaName) :
    place.amIChildOfEqualLambda = false := by
  rw [← Bool.not_eq_true]
  intro hc
  obtain ⟨k, hk⟩ := hp hc
  rw [hk] at h
  rcases h with h | h
  · exact label_ne_empty "==" k h
  · have hu : '&' ∈ "&&".toList := by decide
    exact not_within_label hu (by decide) (by decide) (by decide) h

theorem toTCAPStringDefault_names (hp : place.OfEquals)
    (ho : o.getTypeOfLambda = "self" ∨ o.getTypeOfLambda = "native_lambda")
    (h : toTCAPStringDefault c place n v r o = some e) :
    e.Names ((label o.getTypeOfLambda n, place.path) :: place.hashUse r.multiInputsComp.isSome)
      (label o.getTypeOfLambda n) r.multiInputsComp.isSome := by
  have hplain : ¬ (Within "==" o.getTypeOfLambda ∨ Within "&&" o.getTypeOfLambda) := by
    rcases ho with ho | ho <;> rw [ho] <;> decide
  unfold toTCAPStringDefault at h
  simp only [if_neg hplain] at h
  split at h
  · exact applyToInputs_names hp h
  · next b hb =>
    split at h
    · next hcart =>
      have hnative : o.getTypeOfLambda = "native_lambda" := by
        apply ho.resolve_left
        intro hself
        rw [hself] at hcart
        exact absurd hcart.1 (by decide)
      have hc := hp.not_child hcart.2.2.2.2
      have hn := cartesianJoin_names h
      rw [hnative, hb]
      unfold NodePlace.hashUse
      rw [hc]
      exact hn
    · exact applyToInputs_names hp h

theorem Leaf.toTCAPString_names (hp : place.OfEquals)
    (h : o.toTCAPString c place n v r = some e) :
    e.Names ((label o.getTypeOfLambda n, place.path) :: place.hashUse r.multiInputsComp.isSome)
      (label o.getTypeOfLambda n) r.multiInputsComp.isSome := by
  cases o with
  | AttAccessLambda attName i => exact applyToInputs_names hp h
  | MethodCallLambda methodName i => exact applyToInputs_names hp h
  | SelfLambda i => exact toTCAPStringDefault_names hp (Or.inl rfl) h
  | CPlusPlusLambda i is => exact toTCAPStringDefault_names hp (Or.inr rfl) h

end
end Netsdb
