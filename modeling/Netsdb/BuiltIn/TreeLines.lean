import Netsdb.BuiltIn.TreeParse

/-!
# The lines of a dumped tree

Lines as scikit-learn, XGBoost and LightGBM print them, and what `Tree.h` reads in them.

* `Prints`       the lines of an inner node, a leaf and an edge, and the lines around them;
* `readsInner`, `readsLeaf`, `readsEdge`   the numbers that the cuts give.

What else stands in a line is free, but for the marks that the parser looks for.
-/

set_option linter.unusedSectionVars false

namespace Netsdb
namespace DecisionTree
open Text Text.Piece

variable {F : Type} {fl : Rounding F} {l : List Piece} {m : String} {n : ℕ}

/-! ## cutting at a mark -/

theorem findIn_render (k : ℕ) (hk : m.toList <+: render (l.drop k))
    (h : clear m.toList (l.take k) = true) (hq : Quiet m.toList (l.take k))
    (hlen : (render l).length < 2 ^ 31) : findIn (render l) m = (off l k : ℤ) := by
  rw [findIn, find_render k hk h hq]
  exact position_some (lt_of_le_of_lt (off_le l k) hlen)

theorem findIn_none (h : clear m.toList l = true) (hq : Quiet m.toList l)
    (hne : m.toList ≠ []) : findIn (render l) m = -1 := by
  rw [findIn, find_none (passes_render h hq) hne]
  rfl

theorem has_render (k : ℕ) (hk : m.toList <+: render (l.drop k))
    (h : clear m.toList (l.take k) = true) (hq : Quiet m.toList (l.take k)) :
    has (render l) m = true := by
  rw [has, find_render k hk h hq]
  rfl

theorem has_none (h : clear m.toList l = true) (hq : Quiet m.toList l)
    (hne : m.toList ≠ []) : has (render l) m = false := by
  rw [has, find_none (passes_render h hq) hne]
  rfl

theorem guard_place (k : ℕ) : (guard ((k : ℤ) ≠ -1) : Option Unit) = some () :=
  if_pos (by omega)

theorem if_place {α : Type*} (k : ℕ) (x y : α) : (if (k : ℤ) ≠ -1 then x else y) = x :=
  if_pos (by omega)

theorem guard_placeOr (k : ℕ) (P : Prop) [Decidable P] :
    (guard ((k : ℤ) ≠ -1 ∨ P) : Option Unit) = some () :=
  if_pos (Or.inl (by omega))

theorem guard_places (j k : ℕ) : (guard ((j : ℤ) ≠ -1 ∧ (k : ℤ) ≠ -1) : Option Unit) = some () :=
  if_pos ⟨by omega, by omega⟩

/-- where each piece begins, as a sum of lengths -/
theorem off_eq (l : List Piece) (k : ℕ) : off l k = ((l.take k).map fun x => x.text.length).sum := by
  rw [off, render, List.length_flatten, List.map_map]
  rfl

/-! ## scikit-learn -/

/-- the marks of the lines that are skipped -/
def frameMarks : List String := ["digraph Tree \x7b", "node [shape=box", "edge [fontname=", "\x7d"]

inductive Criterion
  | gini
  | squ

def Criterion.name : Criterion → String
  | gini => "gini"
  | squ => "squ"

/-- a free text without some marks -/
def Plain (marks : List String) (s : List Char) : Prop := ∀ m ∈ marks, Passes m.toList s

instance (marks : List String) (s : List Char) : Decidable (Plain marks s) :=
  inferInstanceAs (Decidable (∀ m ∈ marks, _))

theorem Plain.quiet {marks : List String} {s : List Char} (h : Plain marks s) (hm : m ∈ marks)
    (hl : ∀ t, free t ∈ l → t = s) : Quiet m.toList l := fun t ht => hl t ht ▸ h m hm

def avoids (marks : List String) (l : List Piece) : Bool :=
  marks.all fun m => !m.toList.isEmpty && clear m.toList l

/-- none of the marks is in a line whose pieces are clear of them -/
theorem has_quiet (marks : List String) (h : avoids marks l = true)
    (hfree : ∀ s, free s ∈ l → Plain marks s) (hm : m ∈ marks) : has (render l) m = false := by
  obtain ⟨hne, hclear⟩ := Bool.and_eq_true_iff.mp (List.all_eq_true.mp h m hm)
  refine has_none hclear (fun s hs => hfree s hs m hm) fun he => ?_
  rw [he] at hne
  cases hne

/-- no character begins the text, but one does -/
theorem render_ne_nil (h : startsWithout '\n' l = true) : render l ≠ [] := by
  obtain ⟨c, t, ht, -⟩ := head_of_startsWithout h
  rw [ht]
  exact List.cons_ne_nil c t

section
variable {place feature : ℕ} {v : Numeral} {c : Criterion} {rest : List Char}

def innerPieces (place feature : ℕ) (threshold : Numeral) (c : Criterion) (rest : List Char) :
    List Piece :=
  [dec place, lit " ", lit "[label=\"", lit "X[", dec feature, lit "] ", lit "<= ", num threshold,
    lit "\\n", lit c.name, free rest]

/-- the impurity is the first text behind the threshold -/
theorem findCriterion (hquiet : Passes "\\ngini".toList rest)
    (hlen : (render (innerPieces place feature v c rest)).length < 2 ^ 31) :
    (if (off (innerPieces place feature v c rest) 6 : ℤ) ≠ -1 ∧
        findIn (render (innerPieces place feature v c rest)) "\\ngini" ≠ -1 then
      findIn (render (innerPieces place feature v c rest)) "\\ngini"
    else findIn (render (innerPieces place feature v c rest)) "\\nsqu") =
      (off (innerPieces place feature v c rest) 8 : ℤ) := by
  cases c with
  | gini =>
    rw [findIn_render (m := "\\ngini") 8 ⟨_, rfl⟩ rfl (quiet_of_none rfl) hlen, if_pos]
    exact ⟨by omega, by omega⟩
  | squ =>
    have hq : Quiet "\\ngini".toList (innerPieces place feature v .squ rest) := by
      intro t ht
      simp only [innerPieces, List.mem_cons, reduceCtorEq, false_or, Piece.free.injEq, List.not_mem_nil,
        or_false] at ht
      exact ht ▸ hquiet
    rw [findIn_none (m := "\\ngini") rfl hq (by decide), if_neg (fun h => h.2 rfl)]
    exact findIn_render (m := "\\nsqu") 8 ⟨_, rfl⟩ rfl (quiet_of_none rfl) hlen

theorem reads_inner (hp : place < 2 ^ 31) (hf : feature < 2 ^ 31)
    (hquiet : Passes "\\ngini".toList rest)
    (hlen : (render (innerPieces place feature v c rest)).length < 2 ^ 31) :
    innerRandomForest fl (render (innerPieces place feature v c rest)) =
      (stod fl v.text).map fun t => ((place : ℤ), (feature : ℤ), t) := by
  have hstop := findCriterion hquiet hlen
  set l := innerPieces place feature v c rest with hl
  have hlabel := findIn_render (m := "[label") 2 ⟨_, rfl⟩ rfl (quiet_of_none rfl) hlen
  have hX := findIn_render (m := "X[") 3 ⟨_, rfl⟩ rfl (quiet_of_none rfl) hlen
  have hle := findIn_render (m := "] <=") 5 ⟨_, rfl⟩ rfl (quiet_of_none rfl) hlen
  have hlt := findIn_render (m := "<=") 6 ⟨_, rfl⟩ rfl (quiet_of_none rfl) hlen
  have hid : substr (render l) 0 ((off l 2 : ℤ) - 1) = some (dec place).text :=
    substr_render 0 rfl rfl (by simp [off_eq, hl, innerPieces, text])
  have hfeature : substr (render l) ((off l 3 : ℤ) + 2) ((off l 5 : ℤ) - (off l 3 : ℤ) - 2) =
      some (dec feature).text :=
    substr_render 4 rfl (by simp [off_eq, hl, innerPieces, text]; omega)
      (by simp [off_eq, hl, innerPieces, text]; omega)
  have hthreshold : substr (render l) ((off l 6 : ℤ) + 3) ((off l 8 : ℤ) - (off l 6 : ℤ) - 3) =
      some (num v).text :=
    substr_render 7 rfl (by simp [off_eq, hl, innerPieces, text]; omega)
      (by simp [off_eq, hl, innerPieces, text])
  simp only [innerRandomForest, hlabel, hX, hle, hlt, hstop, guard_place, guard_places, hid, hfeature,
    hthreshold, Option.bind_eq_bind, Option.bind_some]
  rw [show stoi (dec place).text = some (place : ℤ) from stoi_toDigits hp,
    show stoi (dec feature).text = some (feature : ℤ) from stoi_toDigits hf]
  show (stod fl v.text).bind _ = _
  cases stod fl v.text <;> rfl

/-! ### leaves -/

def classifierLeaf (place n₀ n₁ : ℕ) (mid rest : List Char) : List Piece :=
  [dec place, lit " ", lit "[label=\"gini", free mid, lit "value = [", dec n₀, lit ", ", dec n₁,
    lit "]\\nclass", free rest]

def regressorLeaf (place : ℕ) (v : Numeral) (mid rest : List Char) : List Piece :=
  [dec place, lit " ", lit "[label=\"squ", free mid, lit "value = ", num v, lit "\"", free rest]

variable {mid : List Char} {n₀ n₁ : ℕ}

theorem reads_classifierLeaf (hp : place < 2 ^ 31) (hz : n₀ < 2 ^ 31) (ho : n₁ < 2 ^ 31)
    (hmid : Plain ["value = [", "]\\nclass"] mid)
    (hlen : (render (classifierLeaf place n₀ n₁ mid rest)).length < 2 ^ 31) :
    leafRandomForest fl (render (classifierLeaf place n₀ n₁ mid rest)) =
      some ((place : ℤ), fl.quotient n₁ (n₀ + n₁)) := by
  set l := classifierLeaf place n₀ n₁ mid rest with hl
  have hquiet {m : String} (hm : m ∈ ["value = [", "]\\nclass"]) (k : ℕ) (hk : k ≤ 8) :
      Quiet m.toList (l.take k) := by
    refine hmid.quiet hm fun t ht => ?_
    have ht' : free t ∈ l.take 8 := (List.take_subset_take_left l hk) ht
    simpa [hl, classifierLeaf] using ht'
  have hgini := findIn_render (m := "[label=\"gini") 2 ⟨_, rfl⟩ rfl (quiet_of_none rfl) hlen
  have hvalue := findIn_render (m := "value = [") 4 ⟨_, rfl⟩ rfl (hquiet (by simp) 4 (by omega)) hlen
  have hclass := findIn_render (m := "]\\nclass") 8 ⟨_, rfl⟩ rfl (hquiet (by simp) 8 le_rfl) hlen
  have hid : substr (render l) 0 ((off l 2 : ℤ) - 1) = some (dec place).text :=
    substr_render 0 rfl rfl (by simp [off_eq, hl, classifierLeaf, text])
  have hpairs : substr (render l) ((off l 4 : ℤ) + 9) ((off l 8 : ℤ) - (off l 4 : ℤ) - 9) =
      some (render [dec n₀, lit ", ", dec n₁]) :=
    substr_range 5 3 (by simp [off_eq, hl, classifierLeaf, text]; omega)
      (by simp [off_eq, hl, classifierLeaf, text, render]; omega)
  have hshort : (render [dec n₀, lit ", ", dec n₁]).length < 2 ^ 31 := by
    refine lt_of_le_of_lt ?_ hlen
    simp [hl, classifierLeaf, render, text]
    omega
  have hmiddle := findIn_render (m := ", ") (l := [dec n₀, lit ", ", dec n₁]) 1 ⟨_, rfl⟩ rfl
    (quiet_of_none rfl) hshort
  have hzero : substr (render [dec n₀, lit ", ", dec n₁])
      0 (off [dec n₀, lit ", ", dec n₁] 1 : ℤ) = some (dec n₀).text :=
    substr_render 0 rfl rfl (by simp [off_eq])
  have hone : substr (render [dec n₀, lit ", ", dec n₁])
      ((off [dec n₀, lit ", ", dec n₁] 1 : ℤ) + 2) (-1) = some (render [dec n₁]) :=
    substr_rest 2 (by simp [off_eq, text]) (by omega)
  simp only [leafRandomForest, hgini, hvalue, hclass, if_place, guard_place, hid, Option.bind_eq_bind,
    Option.bind_some]
  rw [show stoi (dec place).text = some (place : ℤ) from stoi_toDigits hp, Option.bind_some,
    if_pos ⟨by omega, by omega⟩, hpairs, Option.bind_some, hmiddle, hzero, Option.bind_some,
    show stoi (dec n₀).text = some (n₀ : ℤ) from stoi_toDigits hz, Option.bind_some, hone,
    Option.bind_some, show render [dec n₁] = Nat.toDigits 10 n₁ from List.append_nil _,
    stoi_toDigits ho]
  rfl

theorem reads_regressorLeaf (hp : place < 2 ^ 31)
    (hmid : Plain ["[label=\"gini", "value = [", "value = "] mid)
    (hrest : Plain ["[label=\"gini", "value = ["] rest)
    (hlen : (render (regressorLeaf place v mid rest)).length < 2 ^ 31) :
    leafRandomForest fl (render (regressorLeaf place v mid rest)) =
      (stof fl v.text).map fun t => ((place : ℤ), t) := by
  set l := regressorLeaf place v mid rest with hl
  have hfree {t : List Char} (ht : free t ∈ l) : t = mid ∨ t = rest := by
    simpa [hl, regressorLeaf] using ht
  have hquiet {m : String} (hm : m ∈ ["[label=\"gini", "value = ["]) : Quiet m.toList l := by
    intro t ht
    rcases hfree ht with rfl | rfl
    · exact hmid m (by
        simp only [List.mem_cons, List.not_mem_nil, or_false] at hm ⊢
        exact hm.imp_right Or.inl)
    · exact hrest m hm
  have hquiet' : Quiet "value = ".toList (l.take 4) := by
    intro t ht
    have ht' : t = mid := by simpa [hl, regressorLeaf] using ht
    exact ht' ▸ hmid "value = " (by simp)
  have hgini := findIn_none (m := "[label=\"gini") (l := l) rfl (hquiet (by simp)) (by decide)
  have hsqu := findIn_render (m := "[label=\"squ") 2 ⟨_, rfl⟩ rfl (quiet_of_none rfl) hlen
  have hbracket := findIn_none (m := "value = [") (l := l) rfl (hquiet (by simp)) (by decide)
  have hvalue := findIn_render (m := "value = ") 4 ⟨_, rfl⟩ rfl hquiet' hlen
  have hid : substr (render l) 0 ((off l 2 : ℤ) - 1) = some (dec place).text :=
    substr_render 0 rfl rfl (by simp [off_eq, hl, regressorLeaf, text])
  -- a negative count: up to the end of the line
  have hnumber : substr (render l) ((off l 4 : ℤ) + 8) ((off l 2 : ℤ) - (off l 4 : ℤ) - 8) =
      some (v.text ++ '"' :: rest) := by
    refine (substr_rest 5 (by simp [off_eq, hl, regressorLeaf, text]; omega)
      (by simp [off_eq, hl, regressorLeaf, text]; omega)).trans ?_
    simp [hl, regressorLeaf, render, text]
  have hread : stof fl (v.text ++ '"' :: rest) = stof fl v.text := by
    rw [stof, stof, number_append v.plain v.nonempty (by decide)]
  simp only [leafRandomForest, hgini, hsqu, hbracket, hvalue, if_place, guard_place, hid, ne_eq,
    not_true, if_false, false_and, Option.bind_eq_bind, Option.bind_some]
  rw [show stoi (dec place).text = some (place : ℤ) from stoi_toDigits hp, Option.bind_some,
    guard_placeOr, Option.bind_some, hnumber, Option.bind_some, hread]
  cases stof fl v.text <;> rfl

/-! ### edges -/

/-- the edges of the root carry a label -/
def edgePieces (parent child : ℕ) (rest : List Char) : List Piece :=
  [dec parent, lit " ", lit "-> ", dec child, lit " ", lit (if parent = 0 then "[label" else ";"),
    free rest]

variable {parent child : ℕ}

theorem reads_edge (hp : parent < 2 ^ 31) (hc : child < 2 ^ 31)
    (hlen : (render (edgePieces parent child rest)).length < 2 ^ 31) :
    edgeRandomForest (render (edgePieces parent child rest)) = some ((parent : ℤ), (child : ℤ)) := by
  set l := edgePieces parent child rest with hl
  have harrow := findIn_render (m := "->") 2 ⟨_, rfl⟩ rfl (quiet_of_none rfl) hlen
  have hend : findIn (render l) (if (parent : ℤ) = 0 then "[label" else ";") = (off l 5 : ℤ) := by
    by_cases h0 : parent = 0
    · rw [if_pos (by exact_mod_cast h0)]
      refine findIn_render 5 ?_ rfl (quiet_of_none rfl) hlen
      simp [hl, edgePieces, h0, render, text]
    · rw [if_neg (by exact_mod_cast h0)]
      refine findIn_render 5 ?_ rfl (quiet_of_none rfl) hlen
      simp [hl, edgePieces, h0, render, text]
  have hfrom : substr (render l) 0 ((off l 2 : ℤ) - 1) = some (dec parent).text :=
    substr_render 0 rfl rfl (by simp [off_eq, hl, edgePieces, text])
  have hto : substr (render l) ((off l 2 : ℤ) + 3) ((off l 5 : ℤ) - 1 - (off l 2 : ℤ) - 3) =
      some (dec child).text :=
    substr_render 3 rfl (by simp [off_eq, hl, edgePieces, text]; omega)
      (by simp [off_eq, hl, edgePieces, text]; omega)
  simp only [edgeRandomForest, harrow, guard_place, hfrom, Option.bind_eq_bind, Option.bind_some]
  rw [show stoi (dec parent).text = some (parent : ℤ) from stoi_toDigits hp, Option.bind_some, hend,
    guard_place, Option.bind_some, hto, Option.bind_some,
    show stoi (dec child).text = some (child : ℤ) from stoi_toDigits hc]
  rfl

/-! ### what kind of line it is -/

theorem kind_inner (hrest : Plain (frameMarks ++ ["->", "[label=\"gini", "[label=\"squ"]) rest) :
    lineKind .RandomForest (render (innerPieces place feature v c rest)) = .inner := by
  have hfree : ∀ s, free s ∈ innerPieces place feature v c rest → s = rest := by
    simp [innerPieces]
  have hno (m : String) (hm : m ∈ frameMarks ++ ["->", "[label=\"gini", "[label=\"squ"]) :
      has (render (innerPieces place feature v c rest)) m = false := by
    refine has_quiet (frameMarks ++ ["->", "[label=\"gini", "[label=\"squ"]) ?_
      (fun s hs => hfree s hs ▸ hrest) hm
    cases c <;> rfl
  rw [lineKind, hno "digraph Tree \x7b" (by decide), hno "node [shape=box" (by decide),
    hno "edge [fontname=" (by decide), hno "\x7d" (by decide), hno "->" (by decide),
    hno "[label=\"gini" (by decide), hno "[label=\"squ" (by decide),
    decide_eq_false (render_ne_nil (by rfl))]
  rfl

theorem kind_leaf {w : String} (hw : w = "[label=\"gini" ∨ w = "[label=\"squ")
    (hl : l.take 3 = [dec place, lit " ", lit w])
    (hclear : avoids (frameMarks ++ ["->"]) l = true)
    (hfree : ∀ s, free s ∈ l → Plain (frameMarks ++ ["->"]) s) :
    lineKind .RandomForest (render l) = .leaf := by
  have hno (m : String) (hm : m ∈ frameMarks ++ ["->"]) : has (render l) m = false :=
    has_quiet _ hclear hfree hm
  have hsplit : l = [dec place, lit " ", lit w] ++ l.drop 3 := by rw [← hl, List.take_append_drop]
  have hlabel : has (render l) w = true := by
    rw [hsplit]
    refine has_render 2 ⟨_, rfl⟩ ?_ (quiet_of_none rfl)
    rcases hw with rfl | rfl <;> rfl
  have hne : render l ≠ [] := by
    rw [hsplit]
    exact render_ne_nil (by rfl)
  rw [lineKind, hno "digraph Tree \x7b" (by decide), hno "node [shape=box" (by decide),
    hno "edge [fontname=" (by decide), hno "\x7d" (by decide), hno "->" (by decide), decide_eq_false hne]
  rcases hw with rfl | rfl
  · rw [hlabel]
    rfl
  · rw [hlabel, Bool.or_true]
    rfl

theorem kind_edge (hrest : Plain frameMarks rest) :
    lineKind .RandomForest (render (edgePieces parent child rest)) = .relationship := by
  have hfree : ∀ s, free s ∈ edgePieces parent child rest → s = rest := by simp [edgePieces]
  have hno (m : String) (hm : m ∈ frameMarks) :
      has (render (edgePieces parent child rest)) m = false := by
    refine has_quiet _ ?_ (fun s hs => hfree s hs ▸ hrest) hm
    by_cases h0 : parent = 0
    · rw [edgePieces, if_pos h0]
      rfl
    · rw [edgePieces, if_neg h0]
      rfl
  have harrow : has (render (edgePieces parent child rest)) "->" = true :=
    has_render 2 ⟨_, rfl⟩ rfl (quiet_of_none rfl)
  rw [lineKind, hno "digraph Tree \x7b" (by decide), hno "node [shape=box" (by decide),
    hno "edge [fontname=" (by decide), hno "\x7d" (by decide), harrow,
    decide_eq_false (render_ne_nil (by rfl))]
  rfl

end

/-! ## XGBoost -/

section
variable {place feature parent child : ℕ} {v : Numeral} {rest : List Char} {yes missing : Bool}

def xgbInner (place feature : ℕ) (threshold : Numeral) : List Piece :=
  [lit "    ", dec place, lit " ", lit "[ label=\"", lit "f", dec feature, lit "<", num threshold,
    lit "\" ]"]

def xgbLeaf (place : ℕ) (v : Numeral) : List Piece :=
  [lit "    ", dec place, lit " ", lit "[ label=\"", lit "leaf=", num v, lit "\" ]"]

def xgbAnswer (yes missing : Bool) : String :=
  match yes, missing with
  | true, true => "yes, missing"
  | true, false => "yes"
  | false, true => "no, missing"
  | false, false => "no"

def xgbEdge (parent child : ℕ) (yes missing : Bool) (rest : List Char) : List Piece :=
  [lit "    ", dec parent, lit " ", lit "-> ", dec child, lit " ", lit "[label=\"",
    lit (xgbAnswer yes missing), lit "\"", free rest]

/-- the text that the count of the source cuts out of a leaf's value -/
def cutValue (v : Numeral) : List Char :=
  if v.text.length < 3 then v.text else v.text.take (v.text.length - 3)

theorem reads_xgbInner (hp : place < 2 ^ 31) (hf : feature < 2 ^ 31)
    (hlen : (render (xgbInner place feature v)).length < 2 ^ 31) :
    innerXGBoost fl (render (xgbInner place feature v)) =
      (stod fl v.text).map fun t => ((place : ℤ), (feature : ℤ), t) := by
  set l := xgbInner place feature v with hl
  have hlabel := findIn_render (m := "[ label") 3 ⟨_, rfl⟩ rfl (quiet_of_none rfl) hlen
  have hfirst := findIn_render (m := "f") 4 ⟨_, rfl⟩ rfl (quiet_of_none rfl) hlen
  have hlt := findIn_render (m := "<") 6 ⟨_, rfl⟩ rfl (quiet_of_none rfl) hlen
  have hend := findIn_render (m := "\" ]") 8 ⟨_, rfl⟩ rfl (quiet_of_none rfl) hlen
  have hid : substr (render l) 4 ((off l 3 : ℤ) - 1 - 4) = some (dec place).text :=
    substr_render 1 rfl (by simp [off_eq, hl, xgbInner, text])
      (by simp [off_eq, hl, xgbInner, text]; omega)
  have hfeature : substr (render l) ((off l 4 : ℤ) + 1) ((off l 6 : ℤ) - (off l 4 : ℤ) - 1) =
      some (dec feature).text :=
    substr_render 5 rfl (by simp [off_eq, hl, xgbInner, text]; omega)
      (by simp [off_eq, hl, xgbInner, text]; omega)
  have hthreshold : substr (render l) ((off l 6 : ℤ) + 1) ((off l 8 : ℤ) - (off l 6 : ℤ) - 1) =
      some (num v).text :=
    substr_render 7 rfl (by simp [off_eq, hl, xgbInner, text]; omega)
      (by simp [off_eq, hl, xgbInner, text])
  simp only [innerXGBoost, hlabel, hfirst, hlt, hend, guard_place, guard_places, hid, hfeature,
    hthreshold, Option.bind_eq_bind, Option.bind_some]
  rw [show stoi (dec place).text = some (place : ℤ) from stoi_toDigits hp,
    show stoi (dec feature).text = some (feature : ℤ) from stoi_toDigits hf]
  show (stod fl v.text).bind _ = _
  cases stod fl v.text <;> rfl

theorem reads_xgbLeaf (hp : place < 2 ^ 31) (hlen : (render (xgbLeaf place v)).length < 2 ^ 31) :
    leafXGBoost fl (render (xgbLeaf place v)) =
      (stod fl (cutValue v)).map fun t => ((place : ℤ), t) := by
  set l := xgbLeaf place v with hl
  have hlabel := findIn_render (m := "[") 3 ⟨_, rfl⟩ rfl (quiet_of_none rfl) hlen
  have hleaf := findIn_render (m := "leaf=") 4 ⟨_, rfl⟩ rfl (quiet_of_none rfl) hlen
  have hend := findIn_render (m := "\" ]") 6 ⟨_, rfl⟩ rfl (quiet_of_none rfl) hlen
  have hid : substr (render l) 4 ((off l 3 : ℤ) - 1 - 4) = some (dec place).text :=
    substr_render 1 rfl (by simp [off_eq, hl, xgbLeaf, text])
      (by simp [off_eq, hl, xgbLeaf, text]; omega)
  have hcount : (off l 6 : ℤ) - 3 - (off l 4 : ℤ) - 5 = (v.text.length : ℤ) - 3 := by
    simp [off_eq, hl, xgbLeaf, text]
    omega
  have hplace : (off l 4 : ℤ) + 5 = (off l 5 : ℤ) := by
    simp [off_eq, hl, xgbLeaf, text]; omega
  have hvalue : (substr (render l) ((off l 4 : ℤ) + 5) ((off l 6 : ℤ) - 3 - (off l 4 : ℤ) - 5)).bind
      (stod fl) = stod fl (cutValue v) := by
    have hrest : render (l.drop 5) = v.text ++ '"' :: " ]".toList := by
      simp [hl, xgbLeaf, render, text]
    rw [hcount, hplace, render_split l 5,
      substr_append (show (off l 5 : ℤ) = (render (l.take 5)).length from rfl), hrest, Option.bind_some, cutValue]
    by_cases h3 : v.text.length < 3
    · rw [if_pos (by omega), if_pos h3]
      exact congrArg (Option.bind · fl.double) (number_append v.plain v.nonempty (by decide))
    · rw [if_neg (by omega), if_neg h3, show ((v.text.length : ℤ) - 3).toNat = v.text.length - 3 by omega,
        List.take_append_of_le_length (by omega)]
  simp only [leafXGBoost, hlabel, hleaf, hend, guard_place, guard_places, hid, Option.bind_eq_bind,
    Option.bind_some]
  rw [show stoi (dec place).text = some (place : ℤ) from stoi_toDigits hp, Option.bind_some, ← hvalue]
  cases substr (render l) ((off l 4 : ℤ) + 5) ((off l 6 : ℤ) - 3 - (off l 4 : ℤ) - 5) with
  | none => rfl
  | some t =>
    show (stod fl t).bind _ = (stod fl t).map _
    cases stod fl t <;> rfl

theorem reads_xgbEdge (hp : parent < 2 ^ 31) (hc : child < 2 ^ 31)
    (hlen : (render (xgbEdge parent child yes missing rest)).length < 2 ^ 31) :
    edgeXGBoost (render (xgbEdge parent child yes missing rest)) =
      some ((parent : ℤ), (child : ℤ)) := by
  set l := xgbEdge parent child yes missing rest with hl
  have harrow := findIn_render (m := "->") 3 ⟨_, rfl⟩ rfl (quiet_of_none rfl) hlen
  have hend := findIn_render (m := "[") 6 ⟨_, rfl⟩ rfl (quiet_of_none rfl) hlen
  have hfrom : substr (render l) 4 ((off l 3 : ℤ) - 1 - 4) = some (dec parent).text :=
    substr_render 1 rfl (by simp [off_eq, hl, xgbEdge, text])
      (by simp [off_eq, hl, xgbEdge, text]; omega)
  have hto : substr (render l) ((off l 3 : ℤ) + 3) ((off l 6 : ℤ) - 1 - (off l 3 : ℤ) - 3) =
      some (dec child).text :=
    substr_render 4 rfl (by simp [off_eq, hl, xgbEdge, text]; omega)
      (by simp [off_eq, hl, xgbEdge, text]; omega)
  simp only [edgeXGBoost, harrow, hend, guard_place, hfrom, hto, Option.bind_eq_bind, Option.bind_some]
  rw [show stoi (dec parent).text = some (parent : ℤ) from stoi_toDigits hp,
    show stoi (dec child).text = some (child : ℤ) from stoi_toDigits hc]
  rfl

/-- only the answer says so -/
theorem has_missing (hrest : Plain ["graph", "\x7d", "yes, missing"] rest) :
    has (render (xgbEdge parent child yes missing rest)) "yes, missing" = (yes && missing) := by
  have hfree : ∀ s, free s ∈ xgbEdge parent child yes missing rest → s = rest := by simp [xgbEdge]
  have hno (h : avoids ["yes, missing"] (xgbEdge parent child yes missing rest) = true) :
      has (render (xgbEdge parent child yes missing rest)) "yes, missing" = false := by
    refine has_quiet _ h (fun s hs => ?_) (List.mem_singleton.mpr rfl)
    rw [hfree s hs]
    intro m hm
    exact hrest m (by rw [List.mem_singleton.mp hm]; decide)
  cases yes <;> cases missing
  · exact hno rfl
  · exact hno rfl
  · exact hno rfl
  · exact has_render 7 ⟨_, rfl⟩ rfl (quiet_of_none rfl)

theorem kind_xgbInner : lineKind .XGBoost (render (xgbInner place feature v)) = .inner := by
  have hno (m : String) (hm : m ∈ ["graph", "\x7d", "->", "leaf"]) :
      has (render (xgbInner place feature v)) m = false :=
    has_quiet ["graph", "\x7d", "->", "leaf"] rfl (by simp [xgbInner]) hm
  rw [lineKind, hno "graph" (by decide), hno "\x7d" (by decide), hno "->" (by decide),
    hno "leaf" (by decide), decide_eq_false (render_ne_nil (by rfl))]
  rfl

theorem kind_xgbLeaf : lineKind .XGBoost (render (xgbLeaf place v)) = .leaf := by
  have hno (m : String) (hm : m ∈ ["graph", "\x7d", "->"]) : has (render (xgbLeaf place v)) m = false :=
    has_quiet ["graph", "\x7d", "->"] rfl (by simp [xgbLeaf]) hm
  have hleaf : has (render (xgbLeaf place v)) "leaf" = true :=
    has_render 4 ⟨_, rfl⟩ rfl (quiet_of_none rfl)
  rw [lineKind, hno "graph" (by decide), hno "\x7d" (by decide), hno "->" (by decide), hleaf,
    decide_eq_false (render_ne_nil (by rfl))]
  rfl

theorem kind_xgbEdge (hrest : Plain ["graph", "\x7d", "yes, missing"] rest) :
    lineKind .XGBoost (render (xgbEdge parent child yes missing rest)) = .relationship := by
  have hfree : ∀ s, free s ∈ xgbEdge parent child yes missing rest → s = rest := by simp [xgbEdge]
  have hno (m : String) (hm : m ∈ ["graph", "\x7d"]) :
      has (render (xgbEdge parent child yes missing rest)) m = false := by
    refine has_quiet _ ?_ (fun s hs => ?_) hm
    · cases yes <;> cases missing <;> rfl
    · rw [hfree s hs]
      exact fun m hm => hrest m (List.mem_append_left ["yes, missing"] hm)
  have harrow : has (render (xgbEdge parent child yes missing rest)) "->" = true :=
    has_render 3 ⟨_, rfl⟩ rfl (quiet_of_none rfl)
  rw [lineKind, hno "graph" (by decide), hno "\x7d" (by decide), harrow,
    decide_eq_false (render_ne_nil (by rfl))]
  rfl

end

/-! ## LightGBM -/

section
variable {f g h : List Char} {fields : List (List Char)} {pre : List Char}

/-- a row: the fields with a comma after each but the last one -/
def csvLine : List (List Char) → List Char
  | [] => []
  | [f] => f
  | f :: fields => f ++ ',' :: csvLine fields

theorem csvLine_cons (hne : fields ≠ []) : csvLine (f :: fields) = f ++ ',' :: csvLine fields := by
  cases fields with
  | nil => exact absurd rfl hne
  | cons g fields => rfl

theorem passes_field {q : List Char} (hf : ',' ∉ f) : Passes (',' :: q) f :=
  passes_of_head (fun _ hx he => hf (Option.some.inj he ▸ hx)) (List.cons_ne_nil _ _)

theorem csvFields_line (hcomma : ∀ f ∈ fields, ',' ∉ f) (hne : fields ≠ [])
    (hlen : (pre ++ csvLine fields).length < 2 ^ 31) :
    csvFields (pre ++ csvLine fields) (fields.length - 1) pre.length = some fields := by
  induction fields generalizing pre with
  | nil => exact absurd rfl hne
  | cons f fields ih =>
    cases hfields : fields with
    | nil =>
      show (substr (pre ++ f) pre.length (-1)).bind _ = _
      rw [substr_tail rfl rfl (by omega)]
      rfl
    | cons g rest =>
      have hne' : fields ≠ [] := by rw [hfields]; exact List.cons_ne_nil g rest
      rw [← hfields, csvLine_cons hne']
      rw [csvLine_cons hne'] at hlen
      have hf : ',' ∉ f := hcomma f List.mem_cons_self
      have hstop : find [','] ((pre ++ (f ++ ',' :: csvLine fields)).drop (pre.length : ℤ).toNat) =
          some f.length := by
        rw [Int.toNat_natCast, List.drop_left]
        exact find_here (passes_field hf) (csvLine fields)
      have hpos : position (some ((pre.length : ℤ).toNat + f.length)) = ((pre ++ f).length : ℤ) := by
        rw [Int.toNat_natCast, List.length_append]
        refine position_some ?_
        rw [List.length_append, List.length_append] at hlen
        omega
      have hlt : ¬ (((pre ++ (f ++ ',' :: csvLine fields)).length : ℕ) : ℤ) < (pre.length : ℤ) := by
        rw [List.length_append]
        omega
      have hfield : substr (pre ++ (f ++ ',' :: csvLine fields)) (pre.length : ℤ)
          (((pre ++ f).length : ℤ) - pre.length) = some f :=
        substr_mid rfl rfl (by rw [List.length_append]; omega)
      have hassoc : pre ++ (f ++ ',' :: csvLine fields) = (pre ++ f ++ [',']) ++ csvLine fields := by simp
      have hnext : (((pre ++ f).length : ℕ) : ℤ) + 1 = ((pre ++ f ++ [',']).length : ℤ) := by
        simp
        omega
      have hrest : csvFields (pre ++ f ++ [','] ++ csvLine fields) (fields.length - 1)
          (pre ++ f ++ [',']).length = some fields :=
        ih (fun x hx => hcomma x (List.mem_cons_of_mem f hx)) hne' (by rw [← hassoc]; exact hlen)
      rw [← hassoc, ← hnext] at hrest
      have hn : (f :: fields).length - 1 = (fields.length - 1) + 1 := by
        have := List.length_pos_iff.mpr hne'
        rw [List.length_cons]
        omega
      rw [hn, csvFields, if_neg hlt, hstop]
      simp only [hpos, hfield, hrest, Option.bind_eq_bind, Option.bind_some]
      rfl

theorem parse_csvLine (hcomma : ∀ f ∈ fields, ',' ∉ f) (h15 : fields.length = 15)
    (hlen : (csvLine fields).length < 2 ^ 31) : parseLGBMOneCsvLine (csvLine fields) = some fields := by
  have hne : fields ≠ [] := by
    rintro rfl
    cases h15
  have hall : csvFields ([] ++ csvLine fields) (fields.length - 1) (List.length ([] : List Char)) =
      some fields := csvFields_line hcomma hne hlen
  rw [h15] at hall
  exact hall

/-! ### leaves have neighbouring fields that are empty -/

theorem csvLine_head (fields : List (List Char)) (hg : g ≠ []) (hcomma : ',' ∉ g) :
    ∃ c t, csvLine (g :: fields) = c :: t ∧ c ≠ ',' := by
  obtain ⟨c, t, rfl⟩ := List.exists_cons_of_ne_nil hg
  have hc : c ≠ ',' := fun he => hcomma (he ▸ List.mem_cons_self)
  cases fields with
  | nil => exact ⟨c, t, rfl, hc⟩
  | cons f fields => exact ⟨c, t ++ ',' :: csvLine (f :: fields), rfl, hc⟩

theorem find_commas (hcomma : ∀ f ∈ fields, ',' ∉ f)
    (hgap : fields.IsChain fun f g => f = [] → g ≠ []) :
    find ",,,".toList (csvLine fields) = none := by
  induction fields with
  | nil => rfl
  | cons f fields ih =>
    have hf : Passes ",,,".toList f := passes_field (hcomma f List.mem_cons_self)
    cases fields with
    | nil => exact find_none hf (by decide)
    | cons g rest =>
      have hrest := ih (fun x hx => hcomma x (List.mem_cons_of_mem f hx))
        (List.isChain_cons_cons.mp hgap).2
      have hg : ',' ∉ g := hcomma g (by simp)
      have hno : ¬ ",,,".toList <+: ',' :: csvLine (g :: rest) := by
        intro hpre
        have hpre := (List.cons_prefix_cons.mp hpre).2
        by_cases hge : g = []
        · subst hge
          cases rest with
          | nil => exact absurd hpre (by decide)
          | cons h rest =>
            have hh : h ≠ [] := (List.isChain_cons_cons.mp (List.isChain_cons_cons.mp hgap).2).1 rfl
            obtain ⟨c, t, ht, hc⟩ := csvLine_head rest hh (hcomma h (by simp))
            have hpre : [',', ','] <+: ',' :: csvLine (h :: rest) := hpre
            rw [ht] at hpre
            exact hc (List.cons_prefix_cons.mp (List.cons_prefix_cons.mp hpre).2).1.symm
        · obtain ⟨c, t, ht, hc⟩ := csvLine_head rest hge hg
          rw [ht] at hpre
          exact hc (List.cons_prefix_cons.mp hpre).1.symm
      show find _ (f ++ ',' :: csvLine (g :: rest)) = none
      rw [find_append hf, find, if_neg hno, hrest]
      rfl

theorem csvLine_append {before : List (List Char)} (hb : before ≠ []) (hf : fields ≠ []) :
    csvLine (before ++ fields) = csvLine before ++ ',' :: csvLine fields := by
  induction before with
  | nil => exact absurd rfl hb
  | cons f before ih =>
    cases before with
    | nil => exact csvLine_cons hf
    | cons g before =>
      have hrest := ih (List.cons_ne_nil g before)
      have hcons : csvLine (f :: (g :: before ++ fields)) = _ := csvLine_cons (by simp)
      rw [List.cons_append, hcons, hrest, csvLine_cons (List.cons_ne_nil g before), List.append_assoc]
      rfl

theorem has_commas {before : List (List Char)} (hb : before ≠ []) :
    has (csvLine (before ++ [] :: [] :: f :: fields)) ",,," = true := by
  rw [has, csvLine_append hb (by simp)]
  exact find_isSome ",,,".toList (csvLine before) (csvLine (f :: fields))

/-! ### the names of nodes -/

def nodeName (tree : ℕ) (kind : String) (n : ℕ) : List Piece := [dec tree, lit "-", lit kind, dec n]

variable {tree k : ℕ} {kind : String}

theorem numberBehind_at {l : List Piece} {skip : ℤ} (hl : l = nodeName tree kind n) (j : ℕ)
    (hfind : find m.toList (render l) = some (off l j)) (hskip : (off l j : ℤ) + skip = off l 3)
    (hn : n < 2 ^ 31) : numberBehind (render l) m skip = some (n : ℤ) := by
  rw [numberBehind, findFar, hfind]
  show (substr (render l) ((off l j : ℤ) + skip) (-1)).bind stoi = _
  rw [hskip, substr_rest 3 rfl (by omega), hl]
  show stoi (Nat.toDigits 10 n ++ []) = _
  rw [List.append_nil, stoi_toDigits hn]

theorem number_S (hn : n < 2 ^ 31) : numberBehind (render (nodeName tree "S" n)) "S" 1 = some (n : ℤ) :=
  numberBehind_at rfl 2 (find_render 2 ⟨_, rfl⟩ rfl (quiet_of_none rfl))
    (by simp [off_eq, nodeName, text]; omega) hn

theorem number_L (hn : n < 2 ^ 31) : numberBehind (render (nodeName tree "L" n)) "L" 1 = some (n : ℤ) :=
  numberBehind_at rfl 2 (find_render 2 ⟨_, rfl⟩ rfl (quiet_of_none rfl))
    (by simp [off_eq, nodeName, text]; omega) hn

/-- leaves come behind the 256 inner nodes -/
def childPieces (tree : ℕ) (place : ℕ) : List Piece :=
  if place < 256 then nodeName tree "S" place else nodeName tree "L" (place - 256)

theorem child_of_name {place : ℕ} (hp : place < 512) :
    childLightGBM (render (childPieces tree place)) = some (some (place : ℤ)) := by
  by_cases h256 : place < 256
  · have hminus : numberBehind (render (nodeName tree "S" place)) "-" 2 = some (place : ℤ) :=
      numberBehind_at rfl 1
      (find_render 1 ⟨_, rfl⟩ rfl (quiet_of_none rfl)) (by simp [off_eq, nodeName, text]) (by omega)
    have hno : has (render (nodeName tree "S" place)) "L" = false :=
      has_none rfl (quiet_of_none rfl) (by decide)
    rw [childPieces, if_pos h256, childLightGBM, if_neg (render_ne_nil (by rfl)), hminus, hno]
    rfl
  · have hminus : numberBehind (render (nodeName tree "L" (place - 256))) "-" 2 =
        some ((place - 256 : ℕ) : ℤ) :=
      numberBehind_at rfl 1 (find_render 1 ⟨_, rfl⟩ rfl (quiet_of_none rfl)) (by simp [off_eq, nodeName, text])
      (by omega)
    have hyes : has (render (nodeName tree "L" (place - 256))) "L" = true :=
      has_render 2 ⟨_, rfl⟩ rfl (quiet_of_none rfl)
    rw [childPieces, if_neg h256, childLightGBM, if_neg (render_ne_nil (by rfl)), hminus, hyes]
    show some (some ((place - 256 : ℕ) + (256 : ℤ))) = _
    congr 2
    omega

/-! ### rows -/

variable {place feature : ℕ} {v : Numeral}

/-- a row of a table: no field holds a comma -/
structure Row (fields : List (List Char)) : Prop where
  length_eq : fields.length = 15
  no_comma : ∀ f ∈ fields, ',' ∉ f

theorem field_eq {i : ℕ} (hi : i < fields.length) : field fields i = fields[i] := by
  rw [field, List.getD_eq_getElem?_getD, List.getElem?_eq_getElem hi]
  rfl

theorem reads_csvInner (hr : Row fields) (hlen : (csvLine fields).length < 2 ^ 31)
    (hp : place < 2 ^ 31) (hf : feature < 2 ^ 31)
    (h₂ : field fields 2 = render (nodeName tree "S" place))
    (h₆ : field fields 6 = render [lit "Column_", dec feature]) (h₈ : field fields 8 = v.text) :
    innerLightGBM fl (csvLine fields) =
      (stod fl v.text).map fun t => ((place : ℤ), (feature : ℤ), t) := by
  have hcolumn : substr (render [lit "Column_", dec feature]) 7 (-1) = some (render [dec feature]) :=
    substr_rest 1 (by simp [off_eq, text]) (by omega)
  simp only [innerLightGBM, parse_csvLine hr.no_comma hr.length_eq hlen, h₂, h₆, h₈, number_S hp,
    hcolumn, Option.bind_eq_bind, Option.bind_some]
  rw [show render [dec feature] = Nat.toDigits 10 feature from List.append_nil _, stoi_toDigits hf]
  show (stod fl v.text).bind _ = _
  cases stod fl v.text <;> rfl

theorem reads_csvLeaf (hr : Row fields) (hlen : (csvLine fields).length < 2 ^ 31) (hn : n < 2 ^ 31)
    (h₂ : field fields 2 = render (nodeName tree "L" n)) (h₁₂ : field fields 12 = v.text) :
    leafLightGBM fl (csvLine fields) = (stod fl v.text).map fun t => ((n : ℤ) + 256, t) := by
  simp only [leafLightGBM, parse_csvLine hr.no_comma hr.length_eq hlen, h₂, h₁₂, number_L hn,
    Option.bind_eq_bind, Option.bind_some]
  cases stod fl v.text <;> rfl

theorem kind_csvInner (hr : Row fields) (hgap : fields.IsChain fun f g => f = [] → g ≠ []) :
    lineKind .LightGBM (csvLine fields) = .inner := by
  rw [lineKind, has, find_commas hr.no_comma hgap]
  rfl

theorem kind_csvLeaf (hr : Row fields) (h₃ : field fields 3 = []) (h₄ : field fields 4 = []) :
    lineKind .LightGBM (csvLine fields) = .leaf := by
  have hlen := hr.length_eq
  have hsplit : fields = fields.take 3 ++ [] :: [] :: fields[5] :: fields.drop 6 := by
    have hdrop : fields.drop 3 = field fields 3 :: field fields 4 :: fields[5] :: fields.drop 6 := by
      rw [List.drop_eq_getElem_cons (by omega : 3 < fields.length),
        List.drop_eq_getElem_cons (by omega : 3 + 1 < fields.length),
        List.drop_eq_getElem_cons (by omega : 3 + 1 + 1 < fields.length),
        field_eq (by omega : 3 < fields.length), field_eq (by omega : 4 < fields.length)]
    rw [h₃, h₄] at hdrop
    rw [← hdrop, List.take_append_drop]
  have hne : fields.take 3 ≠ [] := by
    intro he
    have := congrArg List.length he
    rw [List.length_take] at this
    simp only [List.length_nil] at this
    omega
  rw [lineKind, hsplit, has_commas hne]
  rfl

end

end DecisionTree
end Netsdb
