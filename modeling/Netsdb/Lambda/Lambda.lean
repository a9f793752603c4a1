import Netsdb.Lambda.InnerLambdas

/-!
# The text of a lambda

* `Lambda.getTCAPString`   the children first, each told the name that its parent is expected to get,
                           then the node;
* `Lambda.toTCAPString`    the text of the whole tree, where asked with the last statement cut down to
                           the new column;
* `names`                  the lambda names of the text, from the shape of the tree;
* `getTCAPString_names`, `toTCAPString_names`   that these are the names.
-/

set_option linter.unusedSectionVars false

namespace Netsdb
open Label

/-- what is there when a node is reached: the strings so far and the next number -/
structure Progress where
  tcapStrings : List (List Statement)
  lambdaLabel : Nat
  refs : Refs

namespace Lambda

def pushNew (l : List String) (x : String) : List String := if x ∈ l then l else l ++ [x]

/-- what a node passes to its children: its own vectors are empty from then on -/
def forChildren (v : Vectors) : Vectors :=
  { v with inputTupleSetNames := v.inputTupleSetNames.foldl pushNew [] }

/-- after a child, its results are pushed to the vectors of the node -/
def collect (mine kids : Vectors) (r : Refs) : Vectors :=
  let single := r.multiInputsComp.isNone
  { inputTupleSetNames :=
      if single then [r.outputTupleSetName] else pushNew mine.inputTupleSetNames r.outputTupleSetName
    inputColumnNames :=
      kids.inputColumnNames.foldl pushNew (if single then [] else mine.inputColumnNames)
    inputColumnsToApply := mine.inputColumnsToApply ++ [r.addedOutputColumnName]
    childrenLambdaNames := mine.childrenLambdaNames ++ [r.myLambdaName] }

def addString (s : Progress) (e : Emitted) : Progress :=
  ⟨s.tcapStrings ++ [e.tcapString], s.lambdaLabel + 1, e.refs⟩

/-- after the node itself -/
def emit (v : Vectors) (s : Progress) (e : Emitted) : Vectors × Progress :=
  ({ v with
      inputTupleSetNames :=
        if e.refs.multiInputsComp.isNone then [e.refs.outputTupleSetName] else v.inputTupleSetNames
      inputColumnNames := e.outputColumns
      inputColumnsToApply := e.inputColumnsToApply },
    addString s e)

/-- the `i`-th child of a node of type `myTypeName`; below `==` in a join it is a self join where the
next child has the same input -/
def child (place : NodePlace) (myTypeName myName : String) (i : Nat) (r : Refs)
    (me : GenericLambdaObject) (next : Option GenericLambdaObject) : NodePlace :=
  let isLeftChildOfEqualLambda := myTypeName == "==" && i == 0
  let isRightChildOfEqualLambda := myTypeName == "==" && i == 1
  { path := i :: place.path
    amIPartOfJoinPredicate := place.amIPartOfJoinPredicate
    amILeftChildOfEqualLambda := isLeftChildOfEqualLambda
    amIRightChildOfEqualLambda := isRightChildOfEqualLambda
    parentLambdaName := myName
    isSelfJoin :=
      match r.multiInputsComp with
      | none => false
      | some b =>
        (isLeftChildOfEqualLambda || isRightChildOfEqualLambda) &&
          next.elim "" (fun t => b.getNameForIthInput t.getInputIndex) ==
            b.getNameForIthInput me.getInputIndex }

def getTCAPString (c : Naming) :
    GenericLambdaObject → NodePlace → Vectors → Progress → Option (Vectors × Progress)
  | .leaf o, place, v, s => do
    let e ← o.toTCAPString c place s.lambdaLabel v s.refs
    some (emit v s e)
  | .DereferenceLambda input, place, v, s => do
    -- the number that the node would get if its child had no children
    let myName := label "deref" (s.lambdaLabel + 1)
    let place' := child place "deref" myName 0 s.refs input none
    let (kids, s) ← getTCAPString c input place' (forChildren v) s
    let mine := collect ⟨[], [], [], []⟩ kids s.refs
    let e ← DereferenceLambda.toTCAPString c place s.lambdaLabel mine s.refs input.getInputIndex
    some (emit mine s e)
  | .binary o lhs rhs, place, v, s => do
    let myName := label o.getTypeOfLambda (s.lambdaLabel + 2)
    let leftPlace := child place o.getTypeOfLambda myName 0 s.refs lhs (some rhs)
    let (kids, s) ← getTCAPString c lhs leftPlace (forChildren v) s
    let mine := collect ⟨[], [], [], []⟩ kids s.refs
    let rightPlace := child place o.getTypeOfLambda myName 1 s.refs rhs none
    let (kids, s) ← getTCAPString c rhs rightPlace kids s
    let mine := collect mine kids s.refs
    let e ← o.toTCAPString c place s.lambdaLabel mine s.refs lhs.getInputIndex rhs.getInputIndex
    some (emit mine s e)

/-- in the last statement the columns to keep are erased -/
def eraseKept : List Statement → List Statement
  | [] => []
  | [s] => [{ s with inputs := s.inputs.modify (s.inputs.length - 1) ({ · with columnNames := [] }) }]
  | s :: rest => s :: eraseKept rest

/-- the last string begins with the new header; the empty text has no `<=` to begin at -/
def removeUnusedOutputColumns (tcapStrings : List (List Statement)) (r : Refs) :
    Option (List (List Statement)) :=
  match tcapStrings.getLast? with
  | some (s :: rest) =>
    let s' := { s with
      outputTupleSetName := r.outputTupleSetName, outputColumns := [r.addedOutputColumnName] }
    some (tcapStrings.dropLast ++ [eraseKept (s' :: rest)])
  | _ => none

/-- what the computation gets back -/
structure LambdaText where
  text : List Statement
  outputColumnNames : List String
  lambdaLabel : Nat
  refs : Refs

/-- `Lambda::toTCAPString` of the lambda with number `number` of its computation -/
def toTCAPString (c : Naming) (tree : GenericLambdaObject) (number : Nat)
    (inputTupleSetName : String) (inputColumnNames inputColumnsToApply : List String)
    (lambdaLabel : Nat) (r : Refs) (whetherToRemoveUnusedOutputColumns amIPartOfJoinPredicate : Bool) :
    Option LambdaText := do
  let place : NodePlace := ⟨[number], amIPartOfJoinPredicate, false, false, "", false⟩
  let (v, s) ← getTCAPString c tree place
    ⟨[inputTupleSetName], inputColumnNames, inputColumnsToApply, []⟩ ⟨[], lambdaLabel, r⟩
  if whetherToRemoveUnusedOutputColumns then
    let tcapStrings ← removeUnusedOutputColumns s.tcapStrings s.refs
    some ⟨tcapStrings.flatten, [s.refs.addedOutputColumnName], s.lambdaLabel, s.refs⟩
  else
    some ⟨s.tcapStrings.flatten, pushNew v.inputColumnNames s.refs.addedOutputColumnName,
      s.lambdaLabel, s.refs⟩


/-! ## The names -/

/-- the name that a tree leaves in `myLambdaName`: `&&` writes none -/
def lastName : GenericLambdaObject → Nat → String
  | .leaf o, n => label o.getTypeOfLambda n
  | .DereferenceLambda input, n => label "deref" (n + input.size)
  | .binary .EqualsLambda lhs rhs, n => label "==" (n + lhs.size + rhs.size)
  | .binary .AndLambda lhs rhs, n => lastName rhs (n + lhs.size)

/-- the lambda names of the text of a tree, `hash` being the name of the parent where that is given -/
def names (inJoin : Bool) : GenericLambdaObject → Nat → NodePath → LambdaMap → LambdaMap
  | .leaf o, n, p, hash => (label o.getTypeOfLambda n, p) :: hash
  | .DereferenceLambda input, n, p, hash =>
    names inJoin input n (0 :: p) [] ++ (label "deref" (n + input.size), p) :: hash
  | .binary .EqualsLambda lhs rhs, n, p, _ =>
    let predicted := if inJoin then [(label "==" (n + 2), p)] else []
    let sides := if inJoin then [(lastName lhs n, 0 :: p), (lastName rhs (n + lhs.size), 1 :: p)] else []
    names inJoin lhs n (0 :: p) predicted ++ (names inJoin rhs (n + lhs.size) (1 :: p) predicted ++
      (sides ++ [(label "==" (n + lhs.size + rhs.size), p)]))
  | .binary .AndLambda lhs rhs, n, p, _ =>
    names inJoin lhs n (0 :: p) [] ++ names inJoin rhs (n + lhs.size) (1 :: p) []

theorem lastName_ne_empty (t : GenericLambdaObject) (n : Nat) : lastName t n ≠ "" := by
  induction t generalizing n with
  | leaf o => exact label_ne_empty _ n
  | DereferenceLambda input ih => exact label_ne_empty _ _
  | binary o lhs rhs ihl ihr =>
    cases o with
    | EqualsLambda => exact label_ne_empty _ _
    | AndLambda => exact ihr _

section
variable {c : Naming} {place : NodePlace} {v v' : Vectors} {s s' : Progress} {r : Refs}
  {t : GenericLambdaObject}

/-- what the text of a tree adds -/
structure Named (inJoin : Bool) (t : GenericLambdaObject) (p : NodePath) (hash : LambdaMap)
    (s s' : Progress) : Prop where
  uses : uses s'.tcapStrings.flatten = uses s.tcapStrings.flatten ++ names inJoin t s.lambdaLabel p hash
  lambdaLabel : s'.lambdaLabel = s.lambdaLabel + t.size
  myLambdaName : s'.refs.myLambdaName = lastName t s.lambdaLabel
  inJoin : s'.refs.multiInputsComp.isSome = inJoin

theorem addString_uses (s : Progress) (e : Emitted) :
    uses (addString s e).tcapStrings.flatten = uses s.tcapStrings.flatten ++ uses e.tcapString := by
  show uses (s.tcapStrings ++ [e.tcapString]).flatten = _
  rw [List.flatten_append, List.flatten_singleton, uses_append]

/-- only `==` tells its children that they are its children, and under its own name -/
theorem child_ofEquals (place : NodePlace) (type : String) (k i : Nat) (r : Refs)
    (me : GenericLambdaObject) (next : Option GenericLambdaObject) :
    (child place type (label type k) i r me next).OfEquals := by
  intro h
  simp only [child, NodePlace.amIChildOfEqualLambda, Bool.or_eq_true, Bool.and_eq_true,
    beq_iff_eq] at h
  have htype : type = "==" := h.elim (fun h => h.1) (fun h => h.1)
  rw [htype]
  exact ⟨k, rfl⟩

theorem child_hashUse_equals {i : Nat} (hi : i < 2) (place : NodePlace) (name : String) (r : Refs)
    (me : GenericLambdaObject) (next : Option GenericLambdaObject) (inJoin : Bool) :
    (child place "==" name i r me next).hashUse inJoin =
      if inJoin then [(name, place.path)] else [] := by
  have hi' : i = 0 ∨ i = 1 := by omega
  rcases hi' with rfl | rfl <;> cases inJoin <;> rfl

theorem child_hashUse_other {type : String} (ht : (type == "==") = false) (place : NodePlace)
    (name : String) (i : Nat) (r : Refs) (me : GenericLambdaObject)
    (next : Option GenericLambdaObject) (inJoin : Bool) :
    (child place type name i r me next).hashUse inJoin = [] := by
  unfold NodePlace.hashUse NodePlace.amIChildOfEqualLambda child
  simp only [ht, Bool.false_and, Bool.or_self, Bool.and_false, Bool.false_eq_true, if_false]

theorem getTCAPString_names (hp : place.OfEquals)
    (h : getTCAPString c t place v s = some (v', s')) :
    Named s.refs.multiInputsComp.isSome t place.path
      (place.hashUse s.refs.multiInputsComp.isSome) s s' := by
  induction t generalizing place v s v' s' with
  | leaf o =>
    obtain ⟨e, he, h⟩ := Option.bind_eq_some_iff.mp h
    obtain ⟨rfl, rfl⟩ := Prod.mk.inj (Option.some.inj h)
    have hn := o.toTCAPString_names hp he
    exact ⟨by rw [addString_uses, hn.uses]; rfl, rfl, hn.myLambdaName, hn.inJoin⟩
  | DereferenceLambda input ih =>
    obtain ⟨⟨kids, s1⟩, h1, h⟩ := Option.bind_eq_some_iff.mp h
    obtain ⟨e, he, h⟩ := Option.bind_eq_some_iff.mp h
    obtain ⟨rfl, rfl⟩ := Prod.mk.inj (Option.some.inj h)
    have n1 := ih (child_ofEquals place "deref" _ 0 s.refs input none) h1
    rw [child_hashUse_other (by decide)] at n1
    have hn := DereferenceLambda.toTCAPString_names hp he
    rw [n1.inJoin, n1.lambdaLabel] at hn
    refine ⟨?_, ?_, hn.myLambdaName, hn.inJoin⟩
    · rw [addString_uses, hn.uses, n1.uses, List.append_assoc]
      rfl
    · show s1.lambdaLabel + 1 = _
      rw [n1.lambdaLabel, Nat.add_assoc]
      rfl
  | binary o lhs rhs ihl ihr =>
    obtain ⟨⟨kids, s1⟩, h1, h⟩ := Option.bind_eq_some_iff.mp h
    obtain ⟨⟨kids2, s2⟩, h2, h⟩ := Option.bind_eq_some_iff.mp h
    obtain ⟨e, he, h⟩ := Option.bind_eq_some_iff.mp h
    obtain ⟨rfl, rfl⟩ := Prod.mk.inj (Option.some.inj h)
    have n1 := ihl (child_ofEquals place o.getTypeOfLambda _ 0 s.refs lhs (some rhs)) h1
    have n2 := ihr (child_ofEquals place o.getTypeOfLambda _ 1 s1.refs rhs none) h2
    have hlabel : s2.lambdaLabel = s.lambdaLabel + lhs.size + rhs.size := by
      rw [n2.lambdaLabel, n1.lambdaLabel]
    have hsize : (addString s2 e).lambdaLabel =
        s.lambdaLabel + (GenericLambdaObject.binary o lhs rhs).size := by
      show s2.lambdaLabel + 1 = _
      rw [hlabel]
      simp only [GenericLambdaObject.size, Nat.add_assoc]
    have hlast2 := n2.myLambdaName
    rw [n1.inJoin] at n2
    rw [n1.lambdaLabel] at hlast2
    cases o with
    | EqualsLambda =>
      rw [show Binary.EqualsLambda.getTypeOfLambda = "==" from rfl,
        child_hashUse_equals (by omega)] at n1 n2
      have hv : (collect (collect ⟨[], [], [], []⟩ kids s1.refs) kids2 s2.refs).childrenLambdaNames =
          [lastName lhs s.lambdaLabel, lastName rhs (s.lambdaLabel + lhs.size)] := by
        rw [← n1.myLambdaName, ← hlast2]
        rfl
      have hn := EqualsLambda.toTCAPString_names hv (lastName_ne_empty _ _) (lastName_ne_empty _ _) he
      rw [n2.inJoin, hlabel] at hn
      refine ⟨?_, hsize, hn.myLambdaName, hn.inJoin⟩
      rw [addString_uses, hn.uses, n2.uses, n1.uses, n1.lambdaLabel]
      simp only [List.append_assoc]
      rfl
    | AndLambda =>
      rw [show Binary.AndLambda.getTypeOfLambda = "&&" from rfl,
        child_hashUse_other (by decide)] at n1 n2
      have hn := AndLambda.toTCAPString_names he
      rw [n2.inJoin, hlast2] at hn
      refine ⟨?_, hsize, hn.myLambdaName, hn.inJoin⟩
      rw [addString_uses, hn.uses, n2.uses, n1.uses, n1.lambdaLabel, List.append_nil, List.append_assoc]
      rfl

theorem eraseKept_uses (l : List Statement) : uses (eraseKept l) = uses l := by
  induction l with
  | nil => rfl
  | cons x l ih =>
    cases l with
    | nil => rfl
    | cons y l =>
      show uses (x :: eraseKept (y :: l)) = _
      rw [uses_cons, ih]
      rfl

/-- the rest of a statement keeps its name -/
theorem removeUnusedOutputColumns_uses {l l' : List (List Statement)}
    (h : removeUnusedOutputColumns l r = some l') : uses l'.flatten = uses l.flatten := by
  unfold removeUnusedOutputColumns at h
  split at h
  · next x rest hlast =>
    obtain rfl := Option.some.inj h
    have hl : l = l.dropLast ++ [x :: rest] := (List.dropLast_append_getLast? _ hlast).symm
    conv_rhs => rw [hl]
    simp only [List.flatten_append, List.flatten_singleton, uses_append, eraseKept_uses, uses_cons]
    rfl
  · cases h

theorem toTCAPString_names {number n : Nat} {a : String} {b d : List String}
    {remove inPredicate : Bool} {x : LambdaText}
    (h : toTCAPString c t number a b d n r remove inPredicate = some x) :
    uses x.text = names r.multiInputsComp.isSome t n [number] [] ∧ x.lambdaLabel = n + t.size ∧
      x.refs.multiInputsComp.isSome = r.multiInputsComp.isSome := by
  obtain ⟨⟨v, s⟩, h1, h⟩ := Option.bind_eq_some_iff.mp h
  have hp : (⟨[number], inPredicate, false, false, "", false⟩ : NodePlace).OfEquals := by
    intro hc
    cases hc
  have hn := getTCAPString_names hp h1
  have hhash : (⟨[number], inPredicate, false, false, "", false⟩ : NodePlace).hashUse
      r.multiInputsComp.isSome = [] := by
    cases r.multiInputsComp <;> rfl
  rw [hhash] at hn
  simp only at h
  split at h
  · obtain ⟨l, hl, h⟩ := Option.bind_eq_some_iff.mp h
    obtain rfl := Option.some.inj h
    exact ⟨(removeUnusedOutputColumns_uses hl).trans hn.uses, hn.lambdaLabel, hn.inJoin⟩
  · obtain rfl := Option.some.inj h
    exact ⟨hn.uses, hn.lambdaLabel, hn.inJoin⟩

end
end Lambda
end Netsdb
