import Netsdb.Lib.Text
import Mathlib.Logic.Function.Basic

/-!
# Trees read from a file (`Tree.h`)

`constructTreeFromPath` sorts the lines of a dumped tree into nodes, leaves and relationships, and fills
the array of nodes with them, one kind after the other.  A line is cut where marks first occur in it.

* `processInnerNode`, `processLeafNode`, `processRelationship`   what one line does to the array;
* `constructTreeFromPath`                                        the file, as the lines of `getline`.

`none` where the source exits, throws, or writes outside of the array.  How numbers are rounded to
`float` is a parameter.
-/

namespace Netsdb
namespace DecisionTree
open Text

inductive ModelType
  | RandomForest
  | XGBoost
  | LightGBM
  deriving DecidableEq

/-- `value` is the union of `threshold` and `leafValue` -/
structure Node (F : Type) where
  value : F
  indexID : ℤ
  leftChild : ℤ
  rightChild : ℤ
  isLeaf : Bool
  isMissTrackLeft : Bool

/-- `MAX_NUM_NODES_PER_TREE` -/
instance nodesNeZero : NeZero 512 := ⟨by decide⟩

abbrev Nodes (F : Type) := Fin 512 → Node F

def cell (nodeID : ℤ) : Option (Fin 512) :=
  if h : 0 ≤ nodeID ∧ nodeID < 512 then some ⟨nodeID.toNat, by omega⟩ else none

/-- a decimal number as a `float`, by way of a `double` or not, where it is in range; and the quotient
    of two integers -/
structure Rounding (F : Type) where
  double : ℚ → Option F
  float : ℚ → Option F
  quotient : ℤ → ℤ → F

variable {F : Type}

def stod (fl : Rounding F) (s : List Char) : Option F := (number s).bind fl.double

def stof (fl : Rounding F) (s : List Char) : Option F := (number s).bind fl.float

/-- `line.find (mark)` in an `int` -/
def findIn (line : List Char) (mark : String) : ℤ := position (find mark.toList line)

/-- `line.find (mark)` in a `size_t`, where one more than `npos` is 0 -/
def findFar (line : List Char) (mark : String) : ℤ :=
  match find mark.toList line with
  | none => -1
  | some k => k

def has (line : List Char) (mark : String) : Bool := (find mark.toList line).isSome

/-! ## rows of comma separated values -/

/-- the loop over the fields before the last one, `findStartPosition` at `start` -/
def csvFields (line : List Char) : ℕ → ℤ → Option (List (List Char))
  | 0, start => do
    let last ← substr line start (-1)
    return [last]
  | n + 1, start => do
    let stop := if line.length < start then -1 else
      match find [','] (line.drop start.toNat) with
      | none => -1
      | some k => position (some (start.toNat + k))
    let field ← substr line start (stop - start)
    let fields ← csvFields line n (stop + 1)
    return field :: fields

def parseLGBMOneCsvLine (line : List Char) : Option (List (List Char)) := csvFields line 14 0

def field (fields : List (List Char)) (i : ℕ) : List Char := fields.getD i []

/-! ## inner nodes: their number, their feature and their threshold -/

def innerRandomForest (fl : Rounding F) (currentLine : List Char) : Option (ℤ × ℤ × F) := do
  let findEndPosition := findIn currentLine "[label"
  guard (findEndPosition ≠ -1)
  let nodeID ← stoi (← substr currentLine 0 (findEndPosition - 1))
  let findStartPosition := findIn currentLine "X["
  let findEndPosition := findIn currentLine "] <="
  guard (findStartPosition ≠ -1 ∧ findEndPosition ≠ -1)
  let indexID ← stoi (← substr currentLine (findStartPosition + 2)
    (findEndPosition - findStartPosition - 2))
  let findStartPosition := findIn currentLine "<="
  -- classifiers, then regressors
  let findEndPosition := if findStartPosition ≠ -1 ∧ findIn currentLine "\\ngini" ≠ -1 then
    findIn currentLine "\\ngini" else findIn currentLine "\\nsqu"
  guard (findStartPosition ≠ -1 ∧ findEndPosition ≠ -1)
  let threshold ← stod fl (← substr currentLine (findStartPosition + 3)
    (findEndPosition - findStartPosition - 3))
  return (nodeID, indexID, threshold)

def innerXGBoost (fl : Rounding F) (currentLine : List Char) : Option (ℤ × ℤ × F) := do
  let findEndPosition := findIn currentLine "[ label"
  guard (findEndPosition ≠ -1)
  let nodeID ← stoi (← substr currentLine 4 (findEndPosition - 1 - 4))
  let findStartPosition := findIn currentLine "f"
  let findEndPosition := findIn currentLine "<"
  guard (findStartPosition ≠ -1 ∧ findEndPosition ≠ -1)
  let indexID ← stoi (← substr currentLine (findStartPosition + 1)
    (findEndPosition - findStartPosition - 1))
  let findStartPosition := findIn currentLine "<"
  let findEndPosition := findIn currentLine "\" ]"
  guard (findStartPosition ≠ -1 ∧ findEndPosition ≠ -1)
  let threshold ← stod fl (← substr currentLine (findStartPosition + 1)
    (findEndPosition - findStartPosition - 1))
  return (nodeID, indexID, threshold)

/-- the number behind the first `mark` -/
def numberBehind (text : List Char) (mark : String) (skip : ℤ) : Option ℤ := do
  stoi (← substr text (findFar text mark + skip) (-1))

def innerLightGBM (fl : Rounding F) (currentLine : List Char) : Option (ℤ × ℤ × F) := do
  let fields ← parseLGBMOneCsvLine currentLine
  let nodeID ← numberBehind (field fields 2) "S" 1
  let indexID ← stoi (← substr (field fields 6) 7 (-1))
  let threshold ← stod fl (field fields 8)
  return (nodeID, indexID, threshold)

def readInnerNode (fl : Rounding F) : ModelType → List Char → Option (ℤ × ℤ × F)
  | .RandomForest => innerRandomForest fl
  | .XGBoost => innerXGBoost fl
  | .LightGBM => innerLightGBM fl

def innerNode (modelType : ModelType) (indexID : ℤ) (threshold : F) : Node F :=
  ⟨threshold, indexID, -1, -1, false, modelType = .LightGBM⟩

def processInnerNode (fl : Rounding F) (modelType : ModelType) (tree : Nodes F)
    (currentLine : List Char) : Option (Nodes F) := do
  let (nodeID, indexID, threshold) ← readInnerNode fl modelType currentLine
  let i ← cell nodeID
  return Function.update tree i (innerNode modelType indexID threshold)

/-! ## leaves: their number and their value -/

def leafRandomForest (fl : Rounding F) (currentLine : List Char) : Option (ℤ × F) := do
  let findEndPosition := if findIn currentLine "[label=\"gini" ≠ -1 then
    findIn currentLine "[label=\"gini" else findIn currentLine "[label=\"squ"
  guard (findEndPosition ≠ -1)
  let nodeID ← stoi (← substr currentLine 0 (findEndPosition - 1))
  let findStartPosition := findIn currentLine "value = ["
  -- a regressor has no bracket there, so `findEndPosition` is still the place of the label
  let findEndPosition := if findStartPosition ≠ -1 then findIn currentLine "]\\nclass"
    else findEndPosition
  if findStartPosition ≠ -1 ∧ findEndPosition ≠ -1 then
    let pairs ← substr currentLine (findStartPosition + 9) (findEndPosition - findStartPosition - 9)
    let findMidPosition := findIn pairs ", "
    let classZeroCounts ← stoi (← substr pairs 0 findMidPosition)
    let classOneCounts ← stoi (← substr pairs (findMidPosition + 2) (-1))
    return (nodeID, fl.quotient classOneCounts (classZeroCounts + classOneCounts))
  else
    let findStartPosition := findIn currentLine "value = "
    let findEndPosition := if findStartPosition ≠ -1 then findEndPosition
      else findIn currentLine "\"]"
    guard (findStartPosition ≠ -1 ∨ findEndPosition ≠ -1)
    let leafValue ← stof fl (← substr currentLine (findStartPosition + 8)
      (findEndPosition - findStartPosition - 8))
    return (nodeID, leafValue)

def leafXGBoost (fl : Rounding F) (currentLine : List Char) : Option (ℤ × F) := do
  let findEndPosition := findIn currentLine "["
  guard (findEndPosition ≠ -1)
  let nodeID ← stoi (← substr currentLine 4 (findEndPosition - 1 - 4))
  let findStartPosition := findIn currentLine "leaf="
  let findEndPosition := findIn currentLine "\" ]"
  guard (findStartPosition ≠ -1 ∧ findEndPosition ≠ -1)
  -- three characters too few
  let leafValue ← stod fl (← substr currentLine (findStartPosition + 5)
    (findEndPosition - 3 - findStartPosition - 5))
  return (nodeID, leafValue)

def leafLightGBM (fl : Rounding F) (currentLine : List Char) : Option (ℤ × F) := do
  let fields ← parseLGBMOneCsvLine currentLine
  let nodeID ← numberBehind (field fields 2) "L" 1
  let leafValue ← stod fl (field fields 12)
  return (nodeID + 256, leafValue)

def readLeafNode (fl : Rounding F) : ModelType → List Char → Option (ℤ × F)
  | .RandomForest => leafRandomForest fl
  | .XGBoost => leafXGBoost fl
  | .LightGBM => leafLightGBM fl

def leafNode (leafValue : F) : Node F := ⟨leafValue, -1, -1, -1, true, true⟩

def processLeafNode (fl : Rounding F) (modelType : ModelType) (tree : Nodes F)
    (currentLine : List Char) : Option (Nodes F) := do
  let (nodeID, leafValue) ← readLeafNode fl modelType currentLine
  let i ← cell nodeID
  return Function.update tree i (leafNode leafValue)

/-! ## relationships -/

def edgeRandomForest (currentLine : List Char) : Option (ℤ × ℤ) := do
  let findMidPosition := findIn currentLine "->"
  guard (findMidPosition ≠ -1)
  let parentNodeID ← stoi (← substr currentLine 0 (findMidPosition - 1))
  let findEndPosition := findIn currentLine (if parentNodeID = 0 then "[label" else ";")
  guard (findEndPosition ≠ -1)
  let childNodeID ← stoi (← substr currentLine (findMidPosition + 3)
    (findEndPosition - 1 - findMidPosition - 3))
  return (parentNodeID, childNodeID)

def edgeXGBoost (currentLine : List Char) : Option (ℤ × ℤ) := do
  let findMidPosition := findIn currentLine "->"
  guard (findMidPosition ≠ -1)
  let parentNodeID ← stoi (← substr currentLine 4 (findMidPosition - 1 - 4))
  let findEndPosition := findIn currentLine "["
  guard (findEndPosition ≠ -1)
  let childNodeID ← stoi (← substr currentLine (findMidPosition + 3)
    (findEndPosition - 1 - findMidPosition - 3))
  return (parentNodeID, childNodeID)

/-- the first child of a node is the left one; a third one is only reported -/
def Node.addChild (n : Node F) (childNodeID : ℤ) : Node F :=
  if n.leftChild = -1 then { n with leftChild := childNodeID }
  else if n.rightChild = -1 then { n with rightChild := childNodeID }
  else n

/-- a child is named `S` or `L` and a number; an empty name is none -/
def childLightGBM (name : List Char) : Option (Option ℤ) :=
  if name = [] then some none
  else (numberBehind name "-" 2).map fun c => some (if has name "L" then c + 256 else c)

def processRelationship (modelType : ModelType) (tree : Nodes F)
    (currentLine : List Char) : Option (Nodes F) :=
  match modelType with
  | .RandomForest => do
    let (parentNodeID, childNodeID) ← edgeRandomForest currentLine
    let i ← cell parentNodeID
    return Function.update tree i ((tree i).addChild childNodeID)
  | .XGBoost => do
    let (parentNodeID, childNodeID) ← edgeXGBoost currentLine
    let i ← cell parentNodeID
    let n := if has currentLine "yes, missing" then { tree i with isMissTrackLeft := true } else tree i
    return Function.update tree i (n.addChild childNodeID)
  | .LightGBM => do
    let fields ← parseLGBMOneCsvLine currentLine
    let parentNodeID ← numberBehind (field fields 2) "S" 1
    let left ← childLightGBM (field fields 3)
    let right ← childLightGBM (field fields 4)
    let i ← cell parentNodeID
    return Function.update tree i { tree i with
      leftChild := left.getD (tree i).leftChild
      rightChild := right.getD (tree i).rightChild
      isMissTrackLeft := field fields 10 = "left".toList }

/-! ## the file -/

inductive LineKind
  | skipped
  | relationship
  | leaf
  | inner
  deriving DecidableEq

def lineKind : ModelType → List Char → LineKind
  | .RandomForest, line =>
    if line = [] || has line "digraph Tree \x7b" || has line "node [shape=box" ||
      has line "edge [fontname=" || has line "\x7d" then .skipped
    else if has line "->" then .relationship
    else if has line "[label=\"gini" || has line "[label=\"squ" then .leaf
    else .inner
  | .XGBoost, line =>
    if line = [] || has line "graph" || has line "\x7d" then .skipped
    else if has line "->" then .relationship
    else if has line "leaf" then .leaf
    else .inner
  | .LightGBM, line => if has line ",,," then .leaf else .inner

/-- the lines of a kind, in the order of the file; the first line of a table is its header -/
def linesOf (modelType : ModelType) (kind : LineKind) (lines : List (List Char)) : List (List Char) :=
  match modelType with
  | .LightGBM => lines.tail.filter fun line => lineKind .LightGBM line = kind
  | m => lines.filter fun line => lineKind m line = kind

/-- the row of an inner node holds its children, too -/
def relationshipKind : ModelType → LineKind
  | .LightGBM => .inner
  | _ => .relationship

def constructTreeFromPath (fl : Rounding F) (modelType : ModelType) (lines : List (List Char))
    (tree : Nodes F) : Option (Nodes F) := do
  let tree ← (linesOf modelType .inner lines).foldlM (processInnerNode fl modelType) tree
  let tree ← (linesOf modelType .leaf lines).foldlM (processLeafNode fl modelType) tree
  (linesOf modelType (relationshipKind modelType) lines).foldlM (processRelationship modelType) tree

end DecisionTree
end Netsdb
