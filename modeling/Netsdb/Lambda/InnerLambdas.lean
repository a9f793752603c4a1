import Netsdb.Lambda.LeafLambdas

/-!
# The statements of a node with children

* `DereferenceLambda.toTCAPString`   an APPLY on the column of the child, hashed below `==`;
* `AndLambda.toTCAPString`           nothing, or in a join predicate over disjoint inputs a join over a
                                     constant; no lambda is named, and `myLambdaName` stays what the
                                     right child left;
* `EqualsLambda.toTCAPString`        an APPLY; in a join the JOIN, the two sides extracted again under
                                     the names of the children, the comparison and the FILTER.
-/

set_option linter.unusedSectionVars false

namespace Netsdb
open Label

section
variable (c : Naming) (place : NodePlace) (lambdaLabel : Nat) (v : Vectors) (r : Refs)

def DereferenceLambda.toTCAPString (inputIndex : Nat) : Option Emitted := do
  let firstTupleSetName ← v.inputTupleSetNames.head?
  let myLambdaName := label "deref" lambdaLabel
  let tupleSetMidTag := if r.multiInputsComp.isNone then "OutFor" else "ExtractedFor"
  let (inputTupleSetName, inputColumnNames, inputColumnsToApply) :=
    match r.multiInputsComp with
    | none => (firstTupleSetName, v.inputColumnNames, v.inputColumnsToApply)
    | some b => (b.getTupleSetNameForIthInput inputIndex, b.getInputColumnsForIthInput inputIndex,
        b.getInputColumnsToApplyForIthInput inputIndex)
  let outputColumnName ← inputColumnsToApply.head?
  let x : Extracted :=
    ⟨"deref_" ++ toString lambdaLabel ++ tupleSetMidTag ++ c.computationNameThenLabel,
      outputColumnName, inputColumnNames.filter (· ≠ outputColumnName) ++ [outputColumnName]⟩
  let s : Statement :=
    { outputTupleSetName := x.tupleSetName
      outputColumns := x.columns
      tcapOperation := "APPLY"
      inputs := [⟨inputTupleSetName, inputColumnsToApply,
        inputColumnNames.filter (· ∉ inputColumnsToApply)⟩]
      computationNameAndLabel := c.computationNameWithLabel
      lambdaNameAndLabel := myLambdaName
      subject := place.path }
  match r.multiInputsComp with
  | none =>
    some ⟨[s], x.columns, inputColumnsToApply, ⟨x.tupleSetName, x.columnName, myLambdaName, none⟩⟩
  | some b =>
    -- the hash statement has the name of the computation without the underscore
    let (hash, y) ← toHash place c.computationNameThenLabel x
    let applied := if place.amIChildOfEqualLambda then [outputColumnName] else inputColumnsToApply
    some ⟨s :: hash, y.columns, applied, ⟨y.tupleSetName, y.columnName, myLambdaName,
      some (updateInputs place b inputIndex [] y)⟩⟩

/-- the columns of the tuple set with the `i`-th input that are inputs themselves -/
def inputNamesAt (b : MultiInputsBase) (i : Nat) : List String :=
  (b.getInputColumnsForIthInput i).filter fun column => b.inputs.any fun x => x.name == column

def AndLambda.toTCAPString (leftIndex rightIndex : Nat) : Option Emitted :=
  match r.multiInputsComp with
  | none => some ⟨[], [], v.inputColumnsToApply, r⟩
  | some b =>
    if place.amIPartOfJoinPredicate = false then some ⟨[], [], v.inputColumnsToApply, r⟩
    else
      let lhsInputNames := inputNamesAt b leftIndex
      let rhsInputNames := inputNamesAt b rightIndex
      if lhsInputNames.any (· ∈ rhsInputNames) then some ⟨[], [], v.inputColumnsToApply, r⟩
      else do
        let lhsColumnNames := b.getInputColumnsForIthInput leftIndex
        let rhsColumnNames := b.getInputColumnsForIthInput rightIndex
        let numbers := toString c.computationLabel ++ "_" ++ toString lambdaLabel
        let hashOne := fun side index columnNames columnToApply =>
          getTCAPString (b.getTupleSetNameForIthInput index) columnNames [columnToApply]
            ("hashOneFor_" ++ columnToApply ++ "_" ++ numbers)
            (columnNames ++ ["OneFor_" ++ side ++ "_" ++ numbers]) "HASHONE"
            c.computationNameWithLabel "" place.path
        let leftColumnToApply ← lhsInputNames.head?
        let left ← hashOne "left" leftIndex lhsColumnNames leftColumnToApply
        let rightColumnToApply ← rhsInputNames.head?
        let right ← hashOne "right" rightIndex rhsColumnNames rightColumnToApply
        let outputTupleSetName := "CartesianJoined__" ++ "_".intercalate lhsInputNames ++ "___" ++
          "_".intercalate rhsInputNames ++ "_"
        let outputColumns := lhsColumnNames ++ rhsColumnNames
        let join : Statement :=
          { outputTupleSetName
            outputColumns
            tcapOperation := "JOIN"
            inputs := [⟨left.outputTupleSetName, ["OneFor_left_" ++ numbers], lhsColumnNames⟩,
              ⟨right.outputTupleSetName, ["OneFor_right_" ++ numbers], rhsColumnNames⟩]
            computationNameAndLabel := c.computationNameWithLabel
            lambdaNameAndLabel := ""
            subject := place.path }
        some ⟨[left, right, join], outputColumns, v.inputColumnsToApply,
          { r with
            outputTupleSetName
            multiInputsComp := some (b.setInputsNamed outputColumns outputTupleSetName outputColumns
              fun _ => outputColumns) }⟩

/-- the columns of both sides in the order that the JOIN wants; the source exits at other lengths -/
def arrangeColumns (inputColumnNames : List String) (leftColumnToApply : String) :
    Option (List String) :=
  match inputColumnNames with
  | [] | [_] => none
  | [a, b] => if a = leftColumnToApply then none else some [a, b]
  | [a, b, d] => if b = leftColumnToApply then some [a, b, a, d] else some [a, b, d]
  | [a, b, d, e] => if d = leftColumnToApply then some [a, leftColumnToApply, b, e] else some [a, b, d, e]
  | l => if l[l.length - 2]? = some leftColumnToApply then none else some l

/-- the kept columns of the two sides of the JOIN: up to the first column to apply, and after it -/
def joinSides (inputColumnNames inputColumnsToApply : List String) :
    Option (List String × List String) :=
  match inputColumnNames with
  | [] => none
  | first :: others =>
    let left := others.takeWhile (· ∉ inputColumnsToApply)
    let rest := others.drop left.length
    -- without such a column `end1` is -1, and the right side begins at the front again
    let right := if rest = [] then inputColumnNames else rest.tail
    match right with
    | [] => none
    | first' :: others' =>
      some (first :: left, first' :: others'.takeWhile (· ∉ inputColumnsToApply))

def EqualsLambda.toTCAPString (leftIndex rightIndex : Nat) : Option Emitted := do
  let myLambdaName := label "==" lambdaLabel
  let left ← v.inputColumnsToApply[0]?
  let right ← v.inputColumnsToApply[1]?
  let boolName := label "bool" lambdaLabel ++ "_" ++ toString c.computationLabel
  match r.multiInputsComp with
  | none =>
    let inputTupleSetName ← v.inputTupleSetNames.head?
    let outputTupleSetName := "equals_" ++ toString lambdaLabel ++ "OutFor" ++ c.computationNameThenLabel
    let outputColumns := v.inputColumnNames ++ [boolName]
    let s ← getTCAPString inputTupleSetName v.inputColumnNames v.inputColumnsToApply
      outputTupleSetName outputColumns "APPLY" c.computationNameWithLabel myLambdaName place.path
    some ⟨[s], outputColumns, v.inputColumnsToApply,
      ⟨outputTupleSetName, boolName, myLambdaName, none⟩⟩
  | some b =>
    let inputColumnNames ← arrangeColumns v.inputColumnNames left
    let outputColumns := inputColumnNames.filter (· ∉ v.inputColumnsToApply)
    if outputColumns = [] then none
    let (leftColumns, rightColumns) ← joinSides inputColumnNames v.inputColumnsToApply
    let leftTupleSetName ← v.inputTupleSetNames[0]?
    let rightTupleSetName ← v.inputTupleSetNames[1]?
    let tupleSetNamePrefix := "JoinedFor_equals" ++ toString lambdaLabel ++ c.computationNameThenLabel
    let leftName ← v.childrenLambdaNames[0]?
    let rightName ← v.childrenLambdaNames[1]?
    let lhsExtracted := label "LHSExtractedFor" lambdaLabel ++ "_" ++ toString c.computationLabel
    let rhsExtracted := label "RHSExtractedFor" lambdaLabel ++ "_" ++ toString c.computationLabel
    let join : Statement :=
      { outputTupleSetName := tupleSetNamePrefix
        outputColumns
        tcapOperation := "JOIN"
        inputs := [⟨leftTupleSetName, [left], leftColumns⟩, ⟨rightTupleSetName, [right], rightColumns⟩]
        computationNameAndLabel := c.computationNameWithLabel
        lambdaNameAndLabel := ""
        subject := place.path }
    let lhs ← getTCAPString tupleSetNamePrefix outputColumns [b.getNameForIthInput leftIndex]
      (tupleSetNamePrefix ++ "_WithLHSExtracted") (outputColumns ++ [lhsExtracted]) "APPLY"
      c.computationNameWithLabel leftName (0 :: place.path)
    let rhs ← getTCAPString lhs.outputTupleSetName lhs.outputColumns [b.getNameForIthInput rightIndex]
      (tupleSetNamePrefix ++ "_WithBOTHExtracted") (lhs.outputColumns ++ [rhsExtracted]) "APPLY"
      c.computationNameWithLabel rightName (1 :: place.path)
    let bool ← getTCAPString rhs.outputTupleSetName outputColumns [lhsExtracted, rhsExtracted]
      (tupleSetNamePrefix ++ "_BOOL") (outputColumns ++ [boolName]) "APPLY"
      c.computationNameWithLabel myLambdaName place.path
    let outputTupleSetName := tupleSetNamePrefix ++ "_FILTERED"
    let filter : Statement :=
      { outputTupleSetName
        outputColumns
        tcapOperation := "FILTER"
        inputs := [⟨bool.outputTupleSetName, [boolName], outputColumns⟩]
        computationNameAndLabel := c.computationNameWithLabel
        lambdaNameAndLabel := ""
        subject := place.path }
    let b := if place.isSelfJoin then b
      else b.setInputsNamed outputColumns outputTupleSetName outputColumns fun name => [name]
    some ⟨[join, lhs, rhs, bool, filter], outputColumns, [lhsExtracted, rhsExtracted],
      ⟨outputTupleSetName, "", myLambdaName, some b⟩⟩

def Binary.toTCAPString (o : Binary) (leftIndex rightIndex : Nat) : Option Emitted :=
  match o with
  | EqualsLambda => EqualsLambda.toTCAPString c place lambdaLabel v r leftIndex rightIndex
  | AndLambda => AndLambda.toTCAPString c place lambdaLabel v r leftIndex rightIndex

end

/-! ## The names -/

section
variable {c : Naming} {place : NodePlace} {n i j : Nat} {v : Vectors} {r : Refs} {e : Emitted}

theorem DereferenceLambda.toTCAPString_names (hp : place.OfEquals)
    (h : DereferenceLambda.toTCAPString c place n v r i = some e) :
    e.Names ((label "deref" n, place.path) :: place.hashUse r.multiInputsComp.isSome)
      (label "deref" n) r.multiInputsComp.isSome := by
  unfold DereferenceLambda.toTCAPString at h
  obtain ⟨first, -, h⟩ := Option.bind_eq_some_iff.mp h
  cases hb : r.multiInputsComp with
  | none =>
    simp only [hb] at h
    obtain ⟨column, -, h⟩ := Option.bind_eq_some_iff.mp h
    obtain rfl := Option.some.inj h
    refine ⟨?_, rfl, rfl⟩
    rw [uses_cons, Statement.use_named rfl (label_ne_empty _ n)]
    rfl
  | some b =>
    simp only [hb] at h
    obtain ⟨column, -, h⟩ := Option.bind_eq_some_iff.mp h
    obtain ⟨⟨hash, y⟩, hh, h⟩ := Option.bind_eq_some_iff.mp h
    obtain rfl := Option.some.inj h
    refine ⟨?_, rfl, rfl⟩
    rw [uses_cons, Statement.use_named rfl (label_ne_empty _ n), toHash_uses hp hh]
    rfl

theorem AndLambda.toTCAPString_names (h : AndLambda.toTCAPString c place n v r i j = some e) :
    e.Names [] r.myLambdaName r.multiInputsComp.isSome := by
  unfold AndLambda.toTCAPString at h
  split at h
  · next hb =>
    obtain rfl := Option.some.inj h
    exact ⟨rfl, rfl, rfl⟩
  · next b hb =>
    rw [hb]
    split at h
    · obtain rfl := Option.some.inj h
      exact ⟨rfl, rfl, by rw [hb]⟩
    simp only at h
    split at h
    · obtain rfl := Option.some.inj h
      exact ⟨rfl, rfl, by rw [hb]⟩
    obtain ⟨x, -, h⟩ := Option.bind_eq_some_iff.mp h
    obtain ⟨left, hl, h⟩ := Option.bind_eq_some_iff.mp h
    obtain ⟨y, -, h⟩ := Option.bind_eq_some_iff.mp h
    obtain ⟨right, hr, h⟩ := Option.bind_eq_some_iff.mp h
    obtain rfl := Option.some.inj h
    refine ⟨?_, rfl, rfl⟩
    rw [uses_cons, uses_cons, uses_cons, Statement.use_unnamed (getTCAPString_some hl).1,
      Statement.use_unnamed (getTCAPString_some hr).1, Statement.use_unnamed rfl]
    rfl

theorem EqualsLambda.toTCAPString_names_single (hb : r.multiInputsComp = none)
    (h : EqualsLambda.toTCAPString c place n v r i j = some e) :
    e.Names [(label "==" n, place.path)] (label "==" n) false := by
  unfold EqualsLambda.toTCAPString at h
  obtain ⟨left, -, h⟩ := Option.bind_eq_some_iff.mp h
  obtain ⟨right, -, h⟩ := Option.bind_eq_some_iff.mp h
  rw [hb] at h
  obtain ⟨first, -, h⟩ := Option.bind_eq_some_iff.mp h
  obtain ⟨s, hs, h⟩ := Option.bind_eq_some_iff.mp h
  obtain rfl := Option.some.inj h
  obtain ⟨h1, h2⟩ := getTCAPString_some hs
  refine ⟨?_, rfl, rfl⟩
  rw [uses_cons, Statement.use_named h1 (label_ne_empty _ n), h2]
  rfl

/-- in a join the two sides are extracted under the names that the children left -/
theorem EqualsLambda.toTCAPString_names_join {b : MultiInputsBase} {left right : String}
    (hb : r.multiInputsComp = some b) (hv : v.childrenLambdaNames = [left, right])
    (hl : left ≠ "") (hr : right ≠ "") (h : EqualsLambda.toTCAPString c place n v r i j = some e) :
    e.Names [(left, 0 :: place.path), (right, 1 :: place.path), (label "==" n, place.path)]
      (label "==" n) true := by
  unfold EqualsLambda.toTCAPString at h
  obtain ⟨x, -, h⟩ := Option.bind_eq_some_iff.mp h
  obtain ⟨y, -, h⟩ := Option.bind_eq_some_iff.mp h
  rw [hb, hv] at h
  obtain ⟨columns, -, h⟩ := Option.bind_eq_some_iff.mp h
  simp only at h
  split at h
  · cases h
  obtain ⟨⟨leftColumns, rightColumns⟩, -, h⟩ := Option.bind_eq_some_iff.mp h
  obtain ⟨leftSet, -, h⟩ := Option.bind_eq_some_iff.mp h
  obtain ⟨rightSet, -, h⟩ := Option.bind_eq_some_iff.mp h
  obtain ⟨leftName, hleft, h⟩ := Option.bind_eq_some_iff.mp h
  obtain ⟨rightName, hright, h⟩ := Option.bind_eq_some_iff.mp h
  obtain rfl := Option.some.inj hleft
  obtain rfl := Option.some.inj hright
  obtain ⟨lhs, hlhs, h⟩ := Option.bind_eq_some_iff.mp h
  obtain ⟨rhs, hrhs, h⟩ := Option.bind_eq_some_iff.mp h
  obtain ⟨bool, hbool, h⟩ := Option.bind_eq_some_iff.mp h
  obtain rfl := Option.some.inj h
  obtain ⟨h1, h2⟩ := getTCAPString_some hlhs
  obtain ⟨h3, h4⟩ := getTCAPString_some hrhs
  obtain ⟨h5, h6⟩ := getTCAPString_some hbool
  refine ⟨?_, rfl, rfl⟩
  simp only [uses_cons, uses_nil, Statement.use_unnamed, Statement.use_named h1 hl,
    Statement.use_named h3 hr, Statement.use_named h5 (label_ne_empty _ n), h2, h4, h6,
    List.nil_append, List.singleton_append, List.append_nil]

theorem EqualsLambda.toTCAPString_names {left right : String}
    (hv : v.childrenLambdaNames = [left, right]) (hl : left ≠ "") (hr : right ≠ "")
    (h : EqualsLambda.toTCAPString c place n v r i j = some e) :
    e.Names ((if r.multiInputsComp.isSome then [(left, 0 :: place.path), (right, 1 :: place.path)]
      else []) ++ [(label "==" n, place.path)]) (label "==" n) r.multiInputsComp.isSome := by
  cases hb : r.multiInputsComp with
  | none => exact EqualsLambda.toTCAPString_names_single hb h
  | some b => exact EqualsLambda.toTCAPString_names_join hb hv hl hr h

end
end Netsdb
