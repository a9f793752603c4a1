import Netsdb.BuiltIn.TreeLines
import Netsdb.Lib.Scatter
import Mathlib.Data.List.Forall2

/-!
# Dumps of decision trees

* `DTree`       a binary decision tree, each node with its place in the array;
* `Printed`     its dump, the lines in any order but for the two edges of a node;
* `Prints.kind_eq`, `readsInner`, `readsLeaf`, `relates`   what one line of it does.
-/

set_option linter.unusedSectionVars false

namespace Netsdb
namespace DecisionTree
open Text Text.Piece

variable {F : Type} {fl : Rounding F}

/-! ## trees -/

inductive Format
  | classifier
  | regressor
  | xgboost
  | lightgbm
  deriving DecidableEq

def Format.modelType : Format → ModelType
  | classifier => .RandomForest
  | regressor => .RandomForest
  | xgboost => .XGBoost
  | lightgbm => .LightGBM

/-- the counts of the two classes, or a number -/
inductive LeafValue
  | counts (n₀ n₁ : ℕ)
  | number (v : Numeral)

/-- `missingLeft` says where a missing value goes; scikit-learn does not tell -/
inductive DTree
  | leaf (place : Fin 512) (value : LeafValue)
  | node (place : Fin 512) (feature : ℕ) (threshold : Numeral) (missingLeft : Bool) (yes no : DTree)

structure InnerNode where
  place : Fin 512
  feature : ℕ
  threshold : Numeral
  missingLeft : Bool
  yes : Fin 512
  no : Fin 512

namespace DTree

def place : DTree → Fin 512
  | leaf p _ => p
  | node p _ _ _ _ _ => p

def isLeaf : DTree → Bool
  | leaf _ _ => true
  | node _ _ _ _ _ _ => false

def inners : DTree → List InnerNode
  | leaf _ _ => []
  | node p f v m yes no => ⟨p, f, v, m, yes.place, no.place⟩ :: (yes.inners ++ no.inners)

def leaves : DTree → List (Fin 512 × LeafValue)
  | leaf p v => [(p, v)]
  | node _ _ _ _ yes no => yes.leaves ++ no.leaves

def places : DTree → List (Fin 512)
  | leaf p _ => [p]
  | node p _ _ _ yes no => p :: (yes.places ++ no.places)

/-- the numbers of a dump: the root is 0; a table numbers inner nodes and leaves apart, and the leaves
    come behind 256 inner nodes -/
structure Numbered (fmt : Format) (t : DTree) : Prop where
  nodup : t.places.Nodup
  root : fmt ≠ .lightgbm ∨ t.isLeaf = false → t.place = 0
  inner_lt : fmt = .lightgbm → ∀ r ∈ t.inners, r.place.val < 256
  leaf_ge : fmt = .lightgbm → ∀ x ∈ t.leaves, 256 ≤ x.1.val

end DTree

/-- the number that a leaf stands for -/
def leafValue (fl : Rounding F) : Format → LeafValue → Option F
  | .classifier, .counts n₀ n₁ => some (fl.quotient n₁ (n₀ + n₁))
  | .regressor, .number v => stof fl v.text
  | .xgboost, .number v => stod fl v.text
  | .lightgbm, .number v => stod fl v.text
  | _, _ => none

/-- features and counts are `int`s, and the numbers are in range -/
structure Fits (fl : Rounding F) (fmt : Format) (t : DTree) : Prop where
  feature_lt : ∀ r ∈ t.inners, r.feature < 2 ^ 31
  threshold : ∀ r ∈ t.inners, (stod fl r.threshold.text).isSome = true
  value : ∀ x ∈ t.leaves, (leafValue fl fmt x.2).isSome = true
  counts_lt : ∀ p n₀ n₁, (p, LeafValue.counts n₀ n₁) ∈ t.leaves → n₀ + n₁ < 2 ^ 31

/-! ## dumps -/

/-- what a line is about -/
inductive Item
  | inner (r : InnerNode)
  | leaf (place : Fin 512) (value : LeafValue)
  | edge (parent child : Fin 512) (yes missing : Bool)
  | frame

inductive Prints : Format → Item → List Char → Prop
  | classifierInner (r : InnerNode) (rest : List Char)
      (hrest : Plain (frameMarks ++ ["->", "[label=\"gini", "[label=\"squ", "\\ngini"]) rest) :
      Prints .classifier (.inner r) (render (innerPieces r.place r.feature r.threshold .gini rest))
  | regressorInner (r : InnerNode) (rest : List Char)
      (hrest : Plain (frameMarks ++ ["->", "[label=\"gini", "[label=\"squ", "\\ngini"]) rest) :
      Prints .regressor (.inner r) (render (innerPieces r.place r.feature r.threshold .squ rest))
  | classifierLeaf (p : Fin 512) (n₀ n₁ : ℕ) (mid rest : List Char)
      (hmid : Plain (frameMarks ++ ["->", "value = [", "]\\nclass"]) mid)
      (hrest : Plain (frameMarks ++ ["->"]) rest) :
      Prints .classifier (.leaf p (.counts n₀ n₁)) (render (classifierLeaf p n₀ n₁ mid rest))
  | regressorLeaf (p : Fin 512) (v : Numeral) (mid rest : List Char)
      (hmid : Plain (frameMarks ++ ["->", "[label=\"gini", "value = [", "value = "]) mid)
      (hrest : Plain (frameMarks ++ ["->", "[label=\"gini", "value = ["]) rest) :
      Prints .regressor (.leaf p (.number v)) (render (regressorLeaf p v mid rest))
  | sklearnEdge (fmt : Format) (hfmt : fmt.modelType = .RandomForest) (p c : Fin 512)
      (yes missing : Bool) (rest : List Char) (hrest : Plain frameMarks rest) :
      Prints fmt (.edge p c yes missing) (render (edgePieces p c rest))
  | sklearnFrame (fmt : Format) (hfmt : fmt.modelType = .RandomForest) (line : List Char)
      (hline : line = [] ∨ ∃ m ∈ frameMarks, m.toList <:+: line) : Prints fmt .frame line
  | xgbInner (r : InnerNode) :
      Prints .xgboost (.inner r) (render (xgbInner r.place r.feature r.threshold))
  | xgbLeaf (p : Fin 512) (v : Numeral) : Prints .xgboost (.leaf p (.number v)) (render (xgbLeaf p v))
  | xgbEdge (p c : Fin 512) (yes missing : Bool) (rest : List Char)
      (hrest : Plain ["graph", "\x7d", "yes, missing"] rest) :
      Prints .xgboost (.edge p c yes missing) (render (xgbEdge p c yes missing rest))
  | xgbFrame (line : List Char) (hline : line = [] ∨ ∃ m ∈ ["graph", "\x7d"], m.toList <:+: line) :
      Prints .xgboost .frame line
  | csvInner (r : InnerNode) (tree : ℕ) (fields : List (List Char)) (hr : Row fields)
      (hgap : fields.IsChain fun f g => f = [] → g ≠ [])
      (h₂ : field fields 2 = render (nodeName tree "S" r.place))
      (h₃ : field fields 3 = render (childPieces tree r.yes))
      (h₄ : field fields 4 = render (childPieces tree r.no))
      (h₆ : field fields 6 = render [lit "Column_", dec r.feature])
      (h₈ : field fields 8 = r.threshold.text)
      (h₁₀ : field fields 10 = if r.missingLeft then "left".toList else "right".toList) :
      Prints .lightgbm (.inner r) (csvLine fields)
  | csvLeaf (p : Fin 512) (v : Numeral) (tree : ℕ) (fields : List (List Char)) (hr : Row fields)
      (h₂ : field fields 2 = render (nodeName tree "L" (p.val - 256)))
      (h₃ : field fields 3 = []) (h₄ : field fields 4 = []) (h₁₂ : field fields 12 = v.text) :
      Prints .lightgbm (.leaf p (.number v)) (csvLine fields)

def Item.parent? : Item → Option (Fin 512)
  | edge p _ _ _ => some p
  | _ => none

/-- every node has its line; the edges of a node come in order, the one for `yes` first -/
structure Arranged (fmt : Format) (t : DTree) (items : List Item) : Prop where
  inners : ∀ r, Item.inner r ∈ items ↔ r ∈ t.inners
  leaves : ∀ p v, Item.leaf p v ∈ items ↔ (p, v) ∈ t.leaves
  edges : fmt ≠ .lightgbm → ∀ r ∈ t.inners, (items.filter fun i => i.parent? = some r.place) =
    [.edge r.place r.yes true r.missingLeft, .edge r.place r.no false (!r.missingLeft)]
  parents : ∀ p c yes missing, Item.edge p c yes missing ∈ items → ∃ r ∈ t.inners, r.place = p

/-- a table has a header -/
def withHeader : Format → List Char → List (List Char) → List (List Char)
  | .lightgbm, header, lines => header :: lines
  | _, _, lines => lines

/-- a place in a line is an `int` -/
def PrintsShort (fmt : Format) (i : Item) (line : List Char) : Prop :=
  Prints fmt i line ∧ line.length < 2 ^ 31

structure Printed (fl : Rounding F) (fmt : Format) (t : DTree) (file : List (List Char)) : Prop where
  numbered : t.Numbered fmt
  fits : Fits fl fmt t
  lines : ∃ items header lines, Arranged fmt t items ∧
    List.Forall₂ (PrintsShort fmt) items lines ∧ file = withHeader fmt header lines

/-! ## what a line does -/

section
variable {fmt : Format} {t : DTree} {r r' : InnerNode} {p : Fin 512} {v : LeafValue} {i : Item}
  {items : List Item} {line header : List Char} {lines file : List (List Char)} {k : LineKind}

def Item.kind : Item → LineKind
  | inner _ => .inner
  | leaf _ _ => .leaf
  | edge _ _ _ _ => .relationship
  | frame => .skipped

def Item.pos : Item → Fin 512
  | inner r => r.place
  | leaf p _ => p
  | edge p _ _ _ => p
  | frame => 0

theorem has_of_infix {mark : String} (h : mark.toList <:+: line) : has line mark = true := by
  obtain ⟨a, s, rfl⟩ := h
  rw [has, List.append_assoc]
  exact find_isSome mark.toList a s

theorem cell_place (p : Fin 512) : cell ((p.val : ℕ) : ℤ) = some p := by
  have hp : (0 : ℤ) ≤ (p.val : ℤ) ∧ (p.val : ℤ) < 512 := ⟨by omega, by exact_mod_cast p.isLt⟩
  rw [cell, dif_pos hp]
  rfl

theorem plain_mono {marks marks' : List String} {s : List Char} (h : Plain marks s)
    (hsub : marks' ⊆ marks) : Plain marks' s := fun m hm => h m (hsub hm)

theorem Prints.kind_eq (h : Prints fmt i line) : lineKind fmt.modelType line = i.kind := by
  cases h with
  | classifierInner r rest hrest => exact kind_inner (plain_mono hrest (by decide))
  | regressorInner r rest hrest => exact kind_inner (plain_mono hrest (by decide))
  | classifierLeaf p n₀ n₁ mid rest hmid hrest =>
    refine kind_leaf (Or.inl rfl) rfl (by rfl) fun s hs => ?_
    have hs' : s = mid ∨ s = rest := by simpa [DecisionTree.classifierLeaf] using hs
    rcases hs' with rfl | rfl
    · exact plain_mono hmid (by decide)
    · exact hrest
  | regressorLeaf p v mid rest hmid hrest =>
    refine kind_leaf (Or.inr rfl) rfl (by rfl) fun s hs => ?_
    have hs' : s = mid ∨ s = rest := by simpa [DecisionTree.regressorLeaf] using hs
    rcases hs' with rfl | rfl
    · exact plain_mono hmid (by decide)
    · exact plain_mono hrest (by decide)
  | sklearnEdge fmt hfmt p c yes missing rest hrest =>
    rw [hfmt]
    exact kind_edge hrest
  | sklearnFrame fmt hfmt line hline =>
    rw [hfmt, lineKind]
    refine if_pos ?_
    rcases hline with rfl | ⟨m, hm, hin⟩
    · rfl
    · have hhas := has_of_infix hin
      simp only [frameMarks, List.mem_cons, List.not_mem_nil, or_false] at hm
      rcases hm with rfl | rfl | rfl | rfl <;> simp [hhas]
  | xgbInner r => exact kind_xgbInner
  | xgbLeaf p v => exact kind_xgbLeaf
  | xgbEdge p c yes missing rest hrest => exact kind_xgbEdge hrest
  | xgbFrame line hline =>
    show lineKind .XGBoost line = _
    rw [lineKind]
    refine if_pos ?_
    rcases hline with rfl | ⟨m, hm, hin⟩
    · rfl
    · have hhas := has_of_infix hin
      simp only [List.mem_cons, List.not_mem_nil, or_false] at hm
      rcases hm with rfl | rfl <;> simp [hhas]
  | csvInner r tree fields hr hgap => exact kind_csvInner hr hgap
  | csvLeaf p v tree fields hr h₂ h₃ h₄ => exact kind_csvLeaf hr h₃ h₄

theorem Prints.readsInner (h : Prints fmt (.inner r) line) (hlen : line.length < 2 ^ 31)
    (hf : r.feature < 2 ^ 31) : readInnerNode fl fmt.modelType line =
      (stod fl r.threshold.text).map fun t => ((r.place.val : ℤ), (r.feature : ℤ), t) := by
  have hp : r.place.val < 2 ^ 31 := by omega
  cases h with
  | classifierInner _ rest hrest => exact reads_inner hp hf (hrest _ (by decide)) hlen
  | regressorInner _ rest hrest => exact reads_inner hp hf (hrest _ (by decide)) hlen
  | xgbInner => exact reads_xgbInner hp hf hlen
  | csvInner _ tree fields hr hgap h₂ h₃ h₄ h₆ h₈ => exact reads_csvInner hr hlen hp hf h₂ h₆ h₈

/-- what the cut leaves of a leaf's value -/
def keptValue (fl : Rounding F) : Format → LeafValue → Option F
  | .xgboost, .number v => stod fl (cutValue v)
  | fmt, v => leafValue fl fmt v

theorem Prints.readsLeaf (h : Prints fmt (.leaf p v) line) (hlen : line.length < 2 ^ 31)
    (hcounts : ∀ n₀ n₁, v = .counts n₀ n₁ → n₀ + n₁ < 2 ^ 31)
    (hge : fmt = .lightgbm → 256 ≤ p.val) : readLeafNode fl fmt.modelType line =
      (keptValue fl fmt v).map fun t => ((p.val : ℤ), t) := by
  have hp : p.val < 2 ^ 31 := by omega
  cases h with
  | classifierLeaf _ n₀ n₁ mid rest hmid hrest =>
    have hsum := hcounts n₀ n₁ rfl
    exact reads_classifierLeaf hp (by omega) (by omega) (plain_mono hmid (by decide)) hlen
  | regressorLeaf _ v mid rest hmid hrest =>
    exact reads_regressorLeaf hp (plain_mono hmid (by decide)) (plain_mono hrest (by decide)) hlen
  | xgbLeaf _ v => exact reads_xgbLeaf hp hlen
  | csvLeaf _ v tree fields hr h₂ h₃ h₄ h₁₂ =>
    have hplace : ((p.val - 256 : ℕ) : ℤ) + 256 = (p.val : ℤ) := by
      have := hge rfl
      omega
    have hread : leafLightGBM fl (csvLine fields) = _ :=
      reads_csvLeaf hr hlen (show p.val - 256 < 2 ^ 31 by omega) h₂ h₁₂
    rw [hplace] at hread
    exact hread

/-- what a relationship does to the node of its parent -/
def change : Format → Item → Node F → Node F
  | .xgboost, .edge _ c yes missing, n =>
    (if yes && missing then { n with isMissTrackLeft := true } else n).addChild c.val
  | .lightgbm, .inner r, n =>
    { n with leftChild := r.yes.val, rightChild := r.no.val, isMissTrackLeft := r.missingLeft }
  | _, .edge _ c _ _, n => n.addChild c.val
  | _, _, n => n

theorem Prints.relates (h : Prints fmt i line) (hk : i.kind = relationshipKind fmt.modelType)
    (hlen : line.length < 2 ^ 31) (tree : Nodes F) : processRelationship fmt.modelType tree line =
      some (Function.update tree i.pos (change fmt i (tree i.pos))) := by
  cases h with
  | classifierInner _ _ _ => cases hk
  | regressorInner _ _ _ => cases hk
  | classifierLeaf _ _ _ _ _ _ _ => cases hk
  | regressorLeaf _ _ _ _ _ _ => cases hk
  | sklearnFrame _ hfmt _ _ =>
    rw [hfmt] at hk
    cases hk
  | xgbInner _ => cases hk
  | xgbLeaf _ _ => cases hk
  | xgbFrame _ _ => cases hk
  | csvLeaf _ _ _ _ _ _ _ _ _ => cases hk
  | sklearnEdge _ hfmt p c yes missing rest hrest =>
    have hread : edgeRandomForest (render (edgePieces p.val c.val rest)) = _ :=
      reads_edge (by omega) (by omega) hlen
    have hchange : change fmt (.edge p c yes missing) (tree p) = (tree p).addChild c.val := by
      cases fmt with
      | classifier => rfl
      | regressor => rfl
      | xgboost => cases hfmt
      | lightgbm => cases hfmt
    rw [hfmt, processRelationship, hread]
    simp only [cell_place, Option.bind_eq_bind, Option.bind_some, Item.pos, hchange]
    rfl
  | xgbEdge p c yes missing rest hrest =>
    have hread : edgeXGBoost (render (DecisionTree.xgbEdge p.val c.val yes missing rest)) = _ :=
      reads_xgbEdge (by omega) (by omega) hlen
    show processRelationship .XGBoost tree _ = _
    rw [processRelationship, hread, has_missing hrest]
    simp only [cell_place, Option.bind_eq_bind, Option.bind_some]
    rfl
  | csvInner r tree' fields hr hgap h₂ h₃ h₄ h₆ h₈ h₁₀ =>
    have hdirection : decide (field fields 10 = "left".toList) = r.missingLeft := by
      rw [h₁₀]
      cases r.missingLeft <;> decide
    show processRelationship .LightGBM tree _ = _
    simp only [processRelationship, parse_csvLine hr.no_comma hr.length_eq hlen, h₂,
      number_S (show r.place.val < 2 ^ 31 by omega), h₃, h₄, child_of_name r.yes.isLt,
      child_of_name r.no.isLt, cell_place, hdirection, Option.bind_eq_bind, Option.bind_some]
    rfl

end

end DecisionTree
end Netsdb
