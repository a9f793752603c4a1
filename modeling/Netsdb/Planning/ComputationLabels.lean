import Mathlib.Data.List.Nodup
import Netsdb.Lib.Postorder
import Netsdb.Planning.QueryGraphAnalyzer

/-!
# The labels of the computations

Of a traversal only two things matter here: which computations are marked, and which were emitted.

* `walk`          the traversal, seen as a function of the two; `view_traverse`;
* `Walked`        what one visit does to them, whatever the marks were before;
* `walk_eq_visit` if below the sink the marked computations are the emitted ones, the visit is the
                  postorder;
* `parse_eq`      the list of the computations is the postorder;
* `Apart`         the graphs, marks and sinks for which every label is right, `named_iff`.
-/

set_option linter.unusedSectionVars false

namespace Netsdb
namespace QueryGraphAnalyzer
open Postorder

variable {g : QueryGraph} {n fuel : ℕ} {r : (ℕ → Bool) × List ℕ} {t : Traversal}

def QueryGraph.inputs (g : QueryGraph) (n : ℕ) : List ℕ := (g.computation n).inputs

/-! ## Marks and emitted computations -/

def view (t : Traversal) : (ℕ → Bool) × List ℕ :=
  (t.marks.traversed, t.tcapStrings.map (·.computation))

/-- a computation is emitted -/
def note (g : QueryGraph) (r : (ℕ → Bool) × List ℕ) (n : ℕ) : (ℕ → Bool) × List ℕ :=
  (if (g.computation n).setsTraversed then Function.update r.1 n true else r.1, r.2 ++ [n])

theorem note_marks (r : (ℕ → Bool) × List ℕ) (n x : ℕ) :
    (note g r n).1 x = true ↔ r.1 x = true ∨ (x = n ∧ (g.computation n).setsTraversed = true) := by
  unfold note
  cases hs : (g.computation n).setsTraversed with
  | true =>
    show Function.update r.1 n true x = true ↔ _
    by_cases h : x = n
    · rw [h, Function.update_self]
      exact iff_of_true rfl (Or.inr ⟨rfl, rfl⟩)
    · rw [Function.update_of_ne h]
      exact ⟨Or.inl, fun hx => hx.resolve_right fun hx => h hx.1⟩
  | false =>
    show r.1 x = true ↔ _
    exact ⟨Or.inl, fun hx => hx.resolve_right fun hx => Bool.false_ne_true hx.2⟩

def walkInput (visit : (ℕ → Bool) × List ℕ → ℕ → (ℕ → Bool) × List ℕ) (r : (ℕ → Bool) × List ℕ)
    (input : ℕ) : (ℕ → Bool) × List ℕ :=
  if r.1 input then r else (Function.update (visit r input).1 input true, (visit r input).2)

def walk (g : QueryGraph) : ℕ → (ℕ → Bool) × List ℕ → ℕ → (ℕ → Bool) × List ℕ
  | 0, r, _ => r
  | fuel + 1, r, n =>
    if g.inputs n ≠ [] then note g ((g.inputs n).foldl (walkInput (walk g fuel)) r) n
    else if r.1 n = false then note g r n
    else r

theorem view_emit (t : Traversal) (n : ℕ) (ins : List InputTupleSetSpecifier) :
    view (emit g t n ins) = note g (view t) n := by
  refine Prod.ext rfl ?_
  show (t.tcapStrings ++ [_]).map Emitted.computation = t.tcapStrings.map Emitted.computation ++ [n]
  rw [List.map_append]
  rfl

theorem view_inputs {visit : Traversal → ℕ → Traversal}
    {visit' : (ℕ → Bool) × List ℕ → ℕ → (ℕ → Bool) × List ℕ}
    (hv : ∀ t n, view (visit t n) = visit' (view t) n) (inputs : List ℕ)
    (s : Traversal × List InputTupleSetSpecifier) :
    view (inputs.foldl (traverseInput visit) s).1 = inputs.foldl (walkInput visit') (view s.1) := by
  induction inputs generalizing s with
  | nil => rfl
  | cons input inputs ih =>
    rw [List.foldl_cons, List.foldl_cons, ih]
    congr 1
    show view (if s.1.marks.traversed input then _ else _) =
      if s.1.marks.traversed input then view s.1 else _
    split
    · rfl
    · rw [← hv]
      rfl

theorem view_traverse (ins : List InputTupleSetSpecifier) (fuel : ℕ) (t : Traversal) (n : ℕ) :
    view (traverse g ins fuel t n) = walk g fuel (view t) n := by
  induction fuel generalizing t n with
  | zero => rfl
  | succ fuel ih =>
    unfold traverse walk
    show view (if g.inputs n ≠ [] then _ else _) = _
    split
    · rw [view_emit, view_inputs ih]
      rfl
    · show view (if t.marks.traversed n = false then _ else _) =
        if t.marks.traversed n = false then _ else _
      split
      · exact view_emit t n ins
      · rfl

def walks (g : QueryGraph) (r : (ℕ → Bool) × List ℕ) (sinks : List ℕ) : (ℕ → Bool) × List ℕ :=
  sinks.foldl (fun r sink => walk g (sink + 1) r sink) r

theorem view_traverseSinks (m : Marks) (sinks : List ℕ) :
    view (traverseSinks g m sinks) = walks g (m.traversed, []) sinks := by
  have hfold : ∀ t, view (sinks.foldl (traverseSink g) t) = walks g (view t) sinks := by
    induction sinks with
    | nil => exact fun t => rfl
    | cons sink sinks ih =>
      intro t
      show view (sinks.foldl (traverseSink g) (traverseSink g t sink)) = _
      have hs : view (traverseSink g t sink) = walk g (sink + 1) (view t) sink := view_traverse _ _ _ _
      rw [ih, hs]
      rfl
  exact hfold _

/-! ## Labels -/

/-- the label is the position -/
structure Numbered (t : Traversal) : Prop where
  next : t.computationLabel = t.tcapStrings.length
  label : ∀ k (e : Emitted), t.tcapStrings[k]? = some e → e.label = k

theorem Numbered.emit (h : Numbered t) (n : ℕ) (ins : List InputTupleSetSpecifier) :
    Numbered (emit g t n ins) where
  next := by
    show t.computationLabel + 1 = (t.tcapStrings ++ [_]).length
    rw [List.length_append, h.next]
    rfl
  label k e he := by
    change (t.tcapStrings ++ [_])[k]? = some e at he
    rcases Nat.lt_trichotomy k t.tcapStrings.length with hk | hk | hk
    · rw [List.getElem?_append_left hk] at he
      exact h.label k e he
    · rw [List.getElem?_append_right hk.ge, hk, Nat.sub_self] at he
      obtain rfl := Option.some.inj he
      exact h.next.trans hk.symm
    · rw [List.getElem?_eq_none (by rw [List.length_append, List.length_singleton]; omega)] at he
      cases he

/-- only `emit` writes the labels -/
theorem Numbered.congr (h : Numbered t) {t' : Traversal} (h1 : t'.tcapStrings = t.tcapStrings)
    (h2 : t'.computationLabel = t.computationLabel) : Numbered t' where
  next := by rw [h1, h2, h.next]
  label := by
    rw [h1]
    exact h.label

theorem Numbered.inputs {visit : Traversal → ℕ → Traversal}
    (hv : ∀ t n, Numbered t → Numbered (visit t n)) (inputs : List ℕ)
    (s : Traversal × List InputTupleSetSpecifier) (h : Numbered s.1) :
    Numbered (inputs.foldl (traverseInput visit) s).1 := by
  induction inputs generalizing s with
  | nil => exact h
  | cons input inputs ih =>
    apply ih
    show Numbered (if s.1.marks.traversed input then _ else _)
    split
    · exact h.congr rfl rfl
    · exact (hv s.1 input h).congr rfl rfl

theorem Numbered.traverse (ins : List InputTupleSetSpecifier) (fuel : ℕ) (h : Numbered t) (n : ℕ) :
    Numbered (traverse g ins fuel t n) := by
  induction fuel generalizing t n with
  | zero => exact h
  | succ fuel ih =>
    unfold QueryGraphAnalyzer.traverse
    split
    · exact (Numbered.inputs (fun t n ht => ih ht n) _ _ h).emit n _
    · split
      · exact h.emit n ins
      · exact h.congr rfl rfl

theorem numbered_traverseSinks (m : Marks) (sinks : List ℕ) : Numbered (traverseSinks g m sinks) := by
  have hfold : ∀ t, Numbered t → Numbered (sinks.foldl (traverseSink g) t) := by
    induction sinks with
    | nil => exact fun t h => h
    | cons sink sinks ih =>
      intro t h
      have hc : Numbered { t with
          outputTupleSetName := "", outputColumnNames := [], addedOutputColumnName := "" } :=
        h.congr rfl rfl
      exact ih _ (hc.traverse _ _ sink)
  apply hfold
  exact ⟨rfl, fun k e he => by cases he⟩

/-! ## One visit -/

/-- the computations `d` are emitted on a way from `r` to `r'`, those of `tops` without being an input
of another one -/
structure Walked (g : QueryGraph) (tops : List ℕ) (r : (ℕ → Bool) × List ℕ) (d : List ℕ)
    (r' : (ℕ → Bool) × List ℕ) : Prop where
  emitted : r'.2 = r.2 ++ d
  marks_le : ∀ x, r.1 x = true → r'.1 x = true
  unmarked : ∀ x ∈ d, r.1 x = false ∨ (x ∈ tops ∧ g.inputs x ≠ [])
  inputs : ∀ x ∈ d, ∀ y ∈ g.inputs x, r'.1 y = true
  top_mem : ∀ x ∈ tops, g.inputs x ≠ [] → x ∈ d
  count_le : ∀ x, (g.computation x).setsTraversed = false → tops.count x ≤ d.count x
  count_lt : ∀ x, (g.computation x).setsTraversed = false → r.1 x = false → r'.1 x = true →
    tops.count x + 1 ≤ d.count x

theorem Walked.refl : Walked g [] r [] r where
  emitted := (List.append_nil _).symm
  marks_le x h := h
  unmarked x h := absurd h List.not_mem_nil
  inputs x h := absurd h List.not_mem_nil
  top_mem x h := absurd h List.not_mem_nil
  count_le x _ := Nat.le_refl _
  count_lt x _ h h' := by
    rw [h] at h'
    cases h'

theorem Walked.trans {r₁ r₂ : (ℕ → Bool) × List ℕ} {d e tops tops' : List ℕ}
    (h : Walked g tops r d r₁) (h' : Walked g tops' r₁ e r₂) :
    Walked g (tops ++ tops') r (d ++ e) r₂ where
  emitted := by rw [h'.emitted, h.emitted, List.append_assoc]
  marks_le x hx := h'.marks_le x (h.marks_le x hx)
  unmarked x hx := by
    rcases List.mem_append.mp hx with hx | hx
    · exact (h.unmarked x hx).imp id fun ⟨h1, h2⟩ => ⟨List.mem_append_left _ h1, h2⟩
    · refine (h'.unmarked x hx).imp (fun h1 => ?_) fun ⟨h1, h2⟩ => ⟨List.mem_append_right _ h1, h2⟩
      cases hr : r.1 x with
      | false => rfl
      | true => exact absurd (h.marks_le x hr) (by rw [h1]; exact Bool.false_ne_true)
  inputs x hx y hy := by
    rcases List.mem_append.mp hx with hx | hx
    · exact h'.marks_le y (h.inputs x hx y hy)
    · exact h'.inputs x hx y hy
  top_mem x hx hn := by
    rcases List.mem_append.mp hx with hx | hx
    · exact List.mem_append_left _ (h.top_mem x hx hn)
    · exact List.mem_append_right _ (h'.top_mem x hx hn)
  count_le x hx := by
    rw [List.count_append, List.count_append]
    exact Nat.add_le_add (h.count_le x hx) (h'.count_le x hx)
  count_lt x hx h0 h2 := by
    rw [List.count_append, List.count_append]
    have h3 := h.count_le x hx
    have h4 := h'.count_le x hx
    cases h1 : r₁.1 x with
    | true =>
      have h5 := h.count_lt x hx h0 h1
      omega
    | false =>
      have h5 := h'.count_lt x hx h1 h2
      omega

/-- an input, once it is visited, is no longer on top -/
theorem Walked.input {visit : (ℕ → Bool) × List ℕ → ℕ → (ℕ → Bool) × List ℕ} {input : ℕ}
    (hv : ∃ d, Walked g [input] r d (visit r input)) :
    ∃ d, Walked g [] r d (walkInput visit r input) ∧ (walkInput visit r input).1 input = true := by
  unfold walkInput
  split
  · next hm => exact ⟨[], Walked.refl, hm⟩
  · next hm =>
    obtain ⟨d, hd⟩ := hv
    refine ⟨d, ?_, Function.update_self _ _ _⟩
    have hmarks (x : ℕ) (hx : (visit r input).1 x = true) :
        Function.update (visit r input).1 input true x = true := by
      by_cases h : x = input
      · rw [h, Function.update_self]
      · rw [Function.update_of_ne h, hx]
    constructor
    · exact hd.emitted
    · exact fun x hx => hmarks x (hd.marks_le x hx)
    · intro x hx
      refine Or.inl ((hd.unmarked x hx).elim id fun ⟨h1, _⟩ => ?_)
      rw [List.mem_singleton.mp h1]
      exact Bool.eq_false_iff.mpr hm
    · exact fun x hx y hy => hmarks y (hd.inputs x hx y hy)
    · exact fun x hx => absurd hx List.not_mem_nil
    · exact fun x hx => Nat.zero_le _
    · intro x hx h0 h1
      by_cases h : x = input
      · subst h
        have hne : g.inputs x ≠ [] := fun he => by
          rw [g.scans x he] at hx
          cases hx
        exact List.count_pos_iff.mpr (hd.top_mem x List.mem_cons_self hne)
      · change Function.update (visit r input).1 input true x = true at h1
        rw [Function.update_of_ne h] at h1
        have h2 := hd.count_lt x hx h0 h1
        simp only [List.count_nil]
        omega

theorem Walked.foldl {visit : (ℕ → Bool) × List ℕ → ℕ → (ℕ → Bool) × List ℕ} (inputs : List ℕ)
    (hv : ∀ r, ∀ input ∈ inputs, ∃ d, Walked g [input] r d (visit r input)) :
    ∃ d, Walked g [] r d (inputs.foldl (walkInput visit) r) ∧
      ∀ y ∈ inputs, (inputs.foldl (walkInput visit) r).1 y = true := by
  induction inputs generalizing r with
  | nil => exact ⟨[], Walked.refl, fun y hy => absurd hy List.not_mem_nil⟩
  | cons input inputs ih =>
    obtain ⟨d, hd, hin⟩ := Walked.input (hv r input List.mem_cons_self)
    obtain ⟨e, he, hin'⟩ := ih fun r y hy => hv r y (List.mem_cons_of_mem _ hy)
    refine ⟨d ++ e, hd.trans he, fun y hy => ?_⟩
    rcases List.mem_cons.mp hy with rfl | hy
    · exact he.marks_le y hin
    · exact hin' y hy

/-- a computation is emitted behind its inputs -/
theorem Walked.note {r' : (ℕ → Bool) × List ℕ} {d : List ℕ} (hd : Walked g [] r d r')
    (hin : ∀ y ∈ g.inputs n, r'.1 y = true) (hn : g.inputs n ≠ [] ∨ r.1 n = false) :
    Walked g [n] r (d ++ [n]) (note g r' n) := by
  have hmarks (x : ℕ) (hx : r'.1 x = true) : (QueryGraphAnalyzer.note g r' n).1 x = true :=
    (note_marks r' n x).mpr (Or.inl hx)
  constructor
  · show r'.2 ++ [n] = _
    rw [hd.emitted, List.append_assoc]
  · exact fun x hx => hmarks x (hd.marks_le x hx)
  · intro x hx
    rcases List.mem_append.mp hx with hx | hx
    · exact Or.inl ((hd.unmarked x hx).elim id fun h => absurd h.1 List.not_mem_nil)
    · rw [List.mem_singleton.mp hx]
      exact hn.symm.imp id fun h => ⟨List.mem_cons_self, h⟩
  · intro x hx y hy
    rcases List.mem_append.mp hx with hx | hx
    · exact hmarks y (hd.inputs x hx y hy)
    · rw [List.mem_singleton.mp hx] at hy
      exact hmarks y (hin y hy)
  · exact fun x hx _ => List.mem_append_right _ hx
  · intro x hx
    rw [List.count_append]
    exact Nat.le_add_left _ _
  · intro x hx h0 h1
    have h2 : r'.1 x = true := by
      refine ((note_marks r' n x).mp h1).resolve_right fun h => ?_
      rw [h.1, h.2] at hx
      cases hx
    have h3 := hd.count_lt x hx h0 h2
    rw [List.count_append]
    simp only [List.count_nil] at h3
    omega

/-- by induction on the fuel -/
theorem walk_walked (hn : n < fuel) : ∃ d, Walked g [n] r d (walk g fuel r n) := by
  induction fuel generalizing r n with
  | zero => exact absurd hn (Nat.not_lt_zero _)
  | succ fuel ih =>
    unfold walk
    split
    · next hne =>
      obtain ⟨d, hd, hin⟩ := Walked.foldl (r := r) (g.inputs n) fun r y hy =>
        ih (r := r) (Nat.lt_of_lt_of_le (g.acyclic n y hy) (Nat.le_of_lt_succ hn))
      exact ⟨d ++ [n], hd.note hin (Or.inl hne)⟩
    · next hne =>
      have hnil : g.inputs n = [] := not_not.mp hne
      split
      · next hm =>
        refine ⟨[n], Walked.refl.note (fun y hy => ?_) (Or.inr hm)⟩
        rw [hnil] at hy
        cases hy
      · have hset := g.scans n hnil
        have hcount (x : ℕ) (hx : (g.computation x).setsTraversed = false) : [n].count x = 0 := by
          refine List.count_eq_zero.mpr fun h => ?_
          rw [List.mem_singleton.mp h, hset] at hx
          cases hx
        refine ⟨[], ?_⟩
        constructor
        · exact (List.append_nil _).symm
        · exact fun x hx => hx
        · exact fun x hx => absurd hx List.not_mem_nil
        · exact fun x hx => absurd hx List.not_mem_nil
        · intro x hx hx'
          rw [List.mem_singleton.mp hx] at hx'
          exact absurd hnil hx'
        · exact fun x hx => Nat.le_of_eq (hcount x hx)
        · intro x hx h0 h1
          rw [h0] at h1
          cases h1

/-- every sink is on top -/
theorem walks_walked (sinks : List ℕ) : ∃ d, Walked g sinks r d (walks g r sinks) := by
  induction sinks generalizing r with
  | nil => exact ⟨[], Walked.refl⟩
  | cons sink sinks ih =>
    obtain ⟨d, hd⟩ := walk_walked (g := g) (r := r) (Nat.lt_succ_self sink)
    obtain ⟨e, he⟩ := ih (r := walk g (sink + 1) r sink)
    exact ⟨d ++ e, hd.trans he⟩

/-! ## The postorder -/

theorem rank_lt (g : QueryGraph) : ∀ n, ∀ y ∈ g.inputs n, id y < id n := g.acyclic

/-- an input is visited, or is there already -/
theorem walkInput_follows {y : ℕ} (hs : Sorted g.inputs r.2) (hy : y < fuel)
    (hm : ∀ x, Reaches g.inputs y x → (r.1 x = true ↔ x ∈ r.2))
    (hv : y ∉ r.2 → (walk g fuel r y).2 = visit g.inputs fuel r.2 y ∧
      ∀ x, (walk g fuel r y).1 x = true ↔ r.1 x = true ∨ (x ∈ visit g.inputs fuel r.2 y ∧ x ∉ r.2 ∧
        (x = y → (g.computation y).setsTraversed = true))) :
    Follows r (walkInput (walk g fuel) r y) (visit g.inputs fuel r.2 y) := by
  have hadd := visit_spec (rank_lt g) hs hy
  unfold walkInput
  split
  · next hmark =>
    rw [visit_of_mem (rank_lt g) hs hy ((hm y Relation.ReflTransGen.refl).mp hmark)]
    exact Follows.refl r
  · next hmark =>
    have hmem : y ∉ r.2 := fun h => hmark ((hm y Relation.ReflTransGen.refl).mpr h)
    obtain ⟨h2, h1⟩ := hv hmem
    refine ⟨h2, fun x => ?_⟩
    show Function.update (walk g fuel r y).1 y true x = true ↔ _
    by_cases hxy : x = y
    · subst hxy
      rw [Function.update_self]
      exact iff_of_true rfl (Or.inr ⟨(hadd.mem x).mpr
        (Or.inr ⟨x, List.mem_singleton_self x, Relation.ReflTransGen.refl⟩), hmem⟩)
    · rw [Function.update_of_ne hxy, h1]
      simp only [hxy, false_imp_iff, and_true]

/-- below the sink the marked computations are the emitted ones; then it and what is not there yet are
emitted in postorder -/
theorem walk_eq_visit (hn : n < fuel) (hs : Sorted g.inputs r.2)
    (hm : ∀ x, Reaches g.inputs n x → x ≠ n → (r.1 x = true ↔ x ∈ r.2)) (hnot : n ∉ r.2)
    (hleaf : g.inputs n = [] → r.1 n = false) :
    (walk g fuel r n).2 = visit g.inputs fuel r.2 n ∧
      ∀ x, (walk g fuel r n).1 x = true ↔ r.1 x = true ∨ (x ∈ visit g.inputs fuel r.2 n ∧ x ∉ r.2 ∧
        (x = n → (g.computation n).setsTraversed = true)) := by
  induction fuel generalizing r n with
  | zero => exact absurd hn (Nat.not_lt_zero _)
  | succ fuel ih =>
    have hlt : ∀ y ∈ g.inputs n, y < fuel := fun y hy =>
      Nat.lt_of_lt_of_le (g.acyclic n y hy) (Nat.le_of_lt_succ hn)
    have hbelow : ∀ y ∈ g.inputs n, ∀ x, Reaches g.inputs y x → (r.1 x = true ↔ x ∈ r.2) := by
      intro y hy x hx
      refine hm x (Relation.ReflTransGen.head hy hx) fun hxn => ?_
      exact not_reaches_input (rank_lt g) hy (hxn ▸ hx)
    have hvisit : ∀ l, ∀ y ∈ g.inputs n, Sorted g.inputs l →
        Adds g.inputs [y] l (visit g.inputs fuel l y) := fun l y hy hl =>
      visit_spec (rank_lt g) hl (hlt y hy)
    obtain ⟨h2, h1⟩ := Follows.foldl id (f := walkInput (walk g fuel)) hvisit
      (fun r y hy hs hm => walkInput_follows hs (hlt y hy) hm fun hnot =>
        ih (hlt y hy) hs (fun x hx _ => hm x hx) hnot fun _ =>
          Bool.eq_false_iff.mpr fun h => hnot ((hm y Relation.ReflTransGen.refl).mp h)) hs hbelow
    have hadd := Adds.foldl hvisit hs
    have hnew : n ∉ (g.inputs n).foldl (visit g.inputs fuel) r.2 := by
      intro h
      rcases (hadd.mem n).mp h with h | ⟨y, hy, h⟩
      · exact hnot h
      · exact not_reaches_input (rank_lt g) hy h
    -- the mark of the sink itself
    have hmarks (r' : (ℕ → Bool) × List ℕ) (hr : ∀ x, r'.1 x = true ↔
        r.1 x = true ∨ (x ∈ (g.inputs n).foldl (visit g.inputs fuel) r.2 ∧ x ∉ r.2)) (x : ℕ) :
        (note g r' n).1 x = true ↔ r.1 x = true ∨
          (x ∈ (g.inputs n).foldl (visit g.inputs fuel) r.2 ++ [n] ∧ x ∉ r.2 ∧
            (x = n → (g.computation n).setsTraversed = true)) := by
      rw [note_marks, hr, List.mem_append, List.mem_singleton]
      constructor
      · intro h
        rcases h with (h | ⟨h, h'⟩) | ⟨rfl, h⟩
        · exact Or.inl h
        · exact Or.inr ⟨Or.inl h, h', fun hx => absurd (hx ▸ h) hnew⟩
        · exact Or.inr ⟨Or.inr rfl, hnot, fun _ => h⟩
      · intro h
        rcases h with h | ⟨h | h, h', h''⟩
        · exact Or.inl (Or.inl h)
        · exact Or.inl (Or.inr ⟨h, h'⟩)
        · exact Or.inr ⟨h, h'' h⟩
    simp only [walk, visit, if_neg hnew]
    split
    · next hne =>
      refine ⟨?_, hmarks _ h1⟩
      exact congrArg (· ++ [n]) h2
    · next hne =>
      have hnil : g.inputs n = [] := not_not.mp hne
      rw [if_pos (hleaf hnil)]
      rw [hnil] at hmarks ⊢
      exact ⟨rfl, hmarks r fun x => ⟨Or.inl, fun h => h.elim id fun h => absurd h.1 h.2⟩⟩

/-! ## The list of the computations -/

/-- the computations in postorder -/
def order (g : QueryGraph) (l sinks : List ℕ) : List ℕ :=
  sinks.foldl (fun l sink => visit g.inputs (sink + 1) l sink) l

theorem order_adds {l : List ℕ} (hs : Sorted g.inputs l) (sinks : List ℕ) :
    Adds g.inputs sinks l (order g l sinks) :=
  Adds.foldl (fun _ n _ hl => visit_spec (rank_lt g) hl (Nat.lt_succ_self n)) hs

theorem clearMarksBelow_spec {m : Marks} {x : ℕ} (hn : n < fuel)
    (hx : (clearMarksBelow g fuel m n).traversed x = true) :
    m.traversed x = true ∧ ¬ Reaches g.inputs n x := by
  induction fuel generalizing m n with
  | zero => exact absurd hn (Nat.not_lt_zero _)
  | succ fuel ih =>
    have hfold : ∀ (ns : List ℕ) (m : Marks), (∀ y ∈ ns, y < fuel) →
        (ns.foldl (clearMarksBelow g fuel) m).traversed x = true →
        m.traversed x = true ∧ ∀ y ∈ ns, ¬ Reaches g.inputs y x := by
      intro ns
      induction ns with
      | nil => exact fun m _ h => ⟨h, fun y hy => absurd hy List.not_mem_nil⟩
      | cons y ns ihns =>
        intro m hlt h
        obtain ⟨h1, h2⟩ := ihns _ (fun z hz => hlt z (List.mem_cons_of_mem y hz)) h
        obtain ⟨h3, h4⟩ := ih (hlt y List.mem_cons_self) h1
        refine ⟨h3, fun z hz => ?_⟩
        rcases List.mem_cons.mp hz with rfl | hz
        · exact h4
        · exact h2 z hz
    obtain ⟨h1, h2⟩ := hfold _ _ (fun y hy =>
      Nat.lt_of_lt_of_le (g.acyclic n y hy) (Nat.le_of_lt_succ hn)) hx
    change Function.update m.traversed n false x = true at h1
    by_cases hxn : x = n
    · rw [hxn, Function.update_self] at h1
      cases h1
    · rw [Function.update_of_ne hxn] at h1
      refine ⟨h1, fun h => ?_⟩
      rcases reaches_iff.mp h with h | ⟨y, hy, h⟩
      · exact hxn h.symm
      · exact h2 y hy h

theorem clearGraphMarks_spec {m : Marks} {x : ℕ} {sinks : List ℕ} (hx : Reachable g sinks x) :
    (clearGraphMarks g m sinks).traversed x = false := by
  have hfold : ∀ (sinks : List ℕ) (m : Marks), (clearGraphMarks g m sinks).traversed x = true →
      m.traversed x = true ∧ ∀ n ∈ sinks, ¬ Reaches g.inputs n x := by
    intro sinks
    induction sinks with
    | nil => exact fun m h => ⟨h, fun y hy => absurd hy List.not_mem_nil⟩
    | cons n sinks ih =>
      intro m h
      obtain ⟨h1, h2⟩ := ih _ h
      obtain ⟨h3, h4⟩ := clearMarksBelow_spec (Nat.lt_succ_self n) h1
      refine ⟨h3, fun z hz => ?_⟩
      rcases List.mem_cons.mp hz with rfl | hz
      · exact h4
      · exact h2 z hz
  obtain ⟨n, hn, hr⟩ := hx
  refine Bool.eq_false_iff.mpr fun h => ?_
  exact (hfold sinks m h).2 n hn hr

/-- below the sink the marked computations are those of the list -/
theorem parseBelow_follows {p : Marks × List ℕ} (hn : n < fuel) (hs : Sorted g.inputs p.2)
    (hm : ∀ x, Reaches g.inputs n x → (p.1.traversed x = true ↔ x ∈ p.2)) :
    Follows (p.1.traversed, p.2) ((parseBelow g fuel p n).1.traversed, (parseBelow g fuel p n).2)
      (visit g.inputs fuel p.2 n) := by
  induction fuel generalizing p n with
  | zero => exact absurd hn (Nat.not_lt_zero _)
  | succ fuel ih =>
    have hlt : ∀ y ∈ g.inputs n, y < fuel := fun y hy =>
      Nat.lt_of_lt_of_le (g.acyclic n y hy) (Nat.le_of_lt_succ hn)
    have hvisit : ∀ l, ∀ y ∈ g.inputs n, Sorted g.inputs l →
        Adds g.inputs [y] l (visit g.inputs fuel l y) := fun l y hy hl =>
      visit_spec (rank_lt g) hl (hlt y hy)
    obtain ⟨h2, h1⟩ := Follows.foldl (fun p : Marks × List ℕ => (p.1.traversed, p.2)) (s := p)
      (f := parseBelow g fuel) hvisit (fun p y hy hs hm => ih (hlt y hy) hs hm) hs
      fun y hy x hx => hm x (Relation.ReflTransGen.head hy hx)
    have hadd := Adds.foldl hvisit hs
    have hiff : ((g.inputs n).foldl (parseBelow g fuel) p).1.traversed n = true ↔
        n ∈ (g.inputs n).foldl (visit g.inputs fuel) p.2 := by
      refine (h1 n).trans ⟨fun h => ?_, fun h => ?_⟩
      · exact h.elim (fun h => hadd.isPrefix.subset ((hm n Relation.ReflTransGen.refl).mp h)) And.left
      · by_cases hp : n ∈ p.2
        · exact Or.inl ((hm n Relation.ReflTransGen.refl).mpr hp)
        · exact Or.inr ⟨h, hp⟩
    have hparse : parseBelow g (fuel + 1) p n =
        if ((g.inputs n).foldl (parseBelow g fuel) p).1.traversed n = false then
          (((g.inputs n).foldl (parseBelow g fuel) p).1.setTraversed n true,
            ((g.inputs n).foldl (parseBelow g fuel) p).2 ++ [n])
        else (g.inputs n).foldl (parseBelow g fuel) p := rfl
    rw [hparse]
    simp only [visit]
    by_cases hmem : n ∈ (g.inputs n).foldl (visit g.inputs fuel) p.2
    · rw [if_neg (by rw [hiff.mpr hmem]; exact Bool.noConfusion), if_pos hmem]
      exact ⟨h2, h1⟩
    · rw [if_pos (Bool.eq_false_iff.mpr fun h => hmem (hiff.mp h)), if_neg hmem]
      refine ⟨congrArg (· ++ [n]) h2, fun x => ?_⟩
      show Function.update ((g.inputs n).foldl (parseBelow g fuel) p).1.traversed n true x = true ↔ _
      by_cases hx : x = n
      · subst hx
        rw [Function.update_self]
        refine iff_of_true rfl (Or.inr ⟨List.mem_append_right _ (List.mem_singleton_self x), fun h => ?_⟩)
        exact hmem (hadd.isPrefix.subset h)
      · rw [Function.update_of_ne hx]
        refine (h1 x).trans ?_
        rw [List.mem_append, List.mem_singleton, or_iff_left hx]

/-- the list is the postorder, whatever the marks were -/
theorem parse_eq (m : Marks) (sinks : List ℕ) : parseComputations g m sinks = order g [] sinks := by
  have hf := Follows.foldl (fun p : Marks × List ℕ => (p.1.traversed, p.2))
    (s := (clearGraphMarks g m sinks, []))
    (f := fun r sink => parseBelow g (sink + 1) r sink)
    (v := fun l sink => visit g.inputs (sink + 1) l sink)
    (fun _ n _ hl => visit_spec (rank_lt g) hl (Nat.lt_succ_self n))
    (fun p n _ hs hm => parseBelow_follows (Nat.lt_succ_self n) hs hm) Sorted.nil
    fun n (hn : n ∈ sinks) x hx => by
      show (clearGraphMarks g m sinks).traversed x = true ↔ x ∈ []
      rw [clearGraphMarks_spec ⟨n, hn, hx⟩]
      exact iff_of_false Bool.false_ne_true List.not_mem_nil
  exact hf.list

/-! ## When the labels are right -/

/-- a marked computation is a sink with inputs; a sink with inputs is not below an earlier sink; and a
join that starts unmarked is not below a sink behind it -/
structure Apart (g : QueryGraph) (m : Marks) (sinks : List ℕ) : Prop where
  marked : ∀ n, Reachable g sinks n → m.traversed n = true → n ∈ sinks ∧ g.inputs n ≠ []
  again : ∀ a n b, sinks = a ++ n :: b → g.inputs n ≠ [] → ¬ Reachable g a n
  unmarked : ∀ a n b, sinks = a ++ n :: b → (g.computation n).setsTraversed = false →
    m.traversed n = false → ¬ Reachable g b n

/-- what holds after the sinks `a` -/
structure Stage (g : QueryGraph) (m : Marks) (a : List ℕ) (r : (ℕ → Bool) × List ℕ) : Prop where
  list : r.2 = order g [] a
  marks : ∀ x, r.1 x = true → m.traversed x = true ∨ x ∈ r.2
  stays : ∀ x, m.traversed x = true → r.1 x = true
  listed : ∀ x ∈ r.2, r.1 x = true ∨
    (x ∈ a ∧ (g.computation x).setsTraversed = false ∧ m.traversed x = false)

theorem Stage.sorted {m : Marks} {a : List ℕ} (h : Stage g m a r) :
    Sorted g.inputs r.2 ∧ ∀ x, x ∈ r.2 ↔ Reachable g a x := by
  have hadd := order_adds Sorted.nil a (g := g)
  rw [h.list]
  refine ⟨hadd.sorted, fun x => ?_⟩
  rw [hadd.mem]
  exact ⟨fun hx => hx.resolve_left List.not_mem_nil, Or.inr⟩

/-- the next sink -/
theorem Stage.step {m : Marks} {a b sinks : List ℕ} (h : Stage g m a r) (hap : Apart g m sinks)
    (hs : sinks = a ++ n :: b) : Stage g m (a ++ [n]) (walk g (n + 1) r n) := by
  obtain ⟨hsort, hmem⟩ := h.sorted
  have horder : order g [] (a ++ [n]) = visit g.inputs (n + 1) r.2 n := by
    rw [h.list]
    exact List.foldl_append
  have hn : n ∈ sinks := hs ▸ List.mem_append_right a List.mem_cons_self
  have hsub : ∀ x ∈ a, x ∈ sinks := fun x hx => hs ▸ List.mem_append_left _ hx
  by_cases hleaf : g.inputs n = [] ∧ r.1 n = true
  · -- a scan that was reached before
    have hnew : m.traversed n = false := Bool.eq_false_iff.mpr fun hm =>
      (hap.marked n ⟨n, hn, Relation.ReflTransGen.refl⟩ hm).2 hleaf.1
    have hin : n ∈ r.2 := (h.marks n hleaf.2).resolve_left (by rw [hnew]; exact Bool.false_ne_true)
    have hwalk : walk g (n + 1) r n = r := by
      unfold walk
      rw [if_neg (not_not.mpr hleaf.1), if_neg (by rw [hleaf.2]; exact Bool.noConfusion)]
    rw [hwalk]
    constructor
    · rw [horder, visit_of_mem (rank_lt g) hsort (Nat.lt_succ_self n) hin]
    · exact h.marks
    · exact h.stays
    · intro x hx
      exact (h.listed x hx).imp id fun hx => ⟨List.mem_append_left _ hx.1, hx.2⟩
  · have hnot : n ∉ r.2 := by
      intro hin
      by_cases hl : g.inputs n = []
      · rcases h.listed n hin with hm | ⟨-, hm, -⟩
        · exact hleaf ⟨hl, hm⟩
        · rw [g.scans n hl] at hm
          cases hm
      · exact hap.again a n b hs hl ((hmem n).mp hin)
    have hbelow : ∀ x, Reaches g.inputs n x → x ≠ n → (r.1 x = true ↔ x ∈ r.2) := by
      intro x hx hxn
      constructor
      · intro hm
        rcases h.marks x hm with hm | hm
        · -- it is a sink; not a later one, or `n` would be above it
          obtain ⟨hxs, hxi⟩ := hap.marked x ⟨n, hn, hx⟩ hm
          rw [hs] at hxs
          rcases List.mem_append.mp hxs with hxa | hxb
          · exact (hmem x).mpr ⟨x, hxa, Relation.ReflTransGen.refl⟩
          · obtain ⟨c, d, rfl⟩ := List.append_of_mem ((List.mem_cons.mp hxb).resolve_left hxn)
            refine absurd ⟨n, List.mem_append_right a List.mem_cons_self, hx⟩
              (hap.again (a ++ n :: c) x d ?_ hxi)
            rw [hs, List.append_assoc, List.cons_append]
        · exact hm
      · intro hin
        rcases h.listed x hin with hm | ⟨hxa, hset, hm⟩
        · exact hm
        · obtain ⟨c, d, rfl⟩ := List.append_of_mem hxa
          refine absurd ⟨n, List.mem_append_right d List.mem_cons_self, hx⟩
            (hap.unmarked c x (d ++ n :: b) ?_ hset hm)
          rw [hs, List.append_assoc, List.cons_append]
    obtain ⟨h2, h1⟩ := walk_eq_visit (Nat.lt_succ_self n) hsort hbelow hnot
      fun hl => Bool.eq_false_iff.mpr fun hm => hleaf ⟨hl, hm⟩
    have hadd := visit_spec (rank_lt g) hsort (Nat.lt_succ_self n)
    constructor
    · rw [h2, horder]
    · intro x hx
      rw [h2]
      rcases (h1 x).mp hx with hx | hx
      · exact (h.marks x hx).imp id fun hx => hadd.isPrefix.subset hx
      · exact Or.inr hx.1
    · exact fun x hx => (h1 x).mpr (Or.inl (h.stays x hx))
    · intro x hx
      rw [h2] at hx
      by_cases hin : x ∈ r.2
      · exact (h.listed x hin).imp (fun hm => (h1 x).mpr (Or.inl hm)) fun hm =>
          ⟨List.mem_append_left _ hm.1, hm.2⟩
      · by_cases hset : x = n → (g.computation n).setsTraversed = true
        · exact Or.inl ((h1 x).mpr (Or.inr ⟨hx, hin, hset⟩))
        · obtain ⟨rfl, hset⟩ := Classical.not_imp.mp hset
          by_cases hm : m.traversed x = true
          · exact Or.inl ((h1 x).mpr (Or.inl (h.stays x hm)))
          · exact Or.inr ⟨List.mem_append_right a (List.mem_singleton_self x),
              Bool.eq_false_iff.mpr hset, Bool.eq_false_iff.mpr hm⟩

/-- by induction on the sinks, from the first on -/
theorem stage_of_apart {m : Marks} {sinks : List ℕ} (hap : Apart g m sinks) (a b : List ℕ)
    (hs : sinks = a ++ b) : Stage g m a (walks g (m.traversed, []) a) := by
  induction a using List.reverseRecOn generalizing b with
  | nil => exact ⟨rfl, fun x hx => Or.inl hx, fun x hx => hx, fun x hx => absurd hx List.not_mem_nil⟩
  | append_singleton a n ih =>
    have hs' : sinks = a ++ n :: b := by
      rw [hs, List.append_assoc]
      rfl
    have hstep := (ih (n :: b) hs').step hap hs'
    unfold walks
    rwa [List.foldl_append]

theorem logicalPlan_snoc (computations : List ℕ) (n : ℕ) :
    logicalPlan g (computations ++ [n]) = Function.update (logicalPlan g computations)
      (Label.label (g.computation n).computationType computations.length) (some n) := by
  unfold logicalPlan
  rw [List.zipIdx_append, List.foldl_append, Nat.zero_add]
  rfl

/-- the plan finds each computation under the name of its position: names of different positions
differ -/
theorem logicalPlan_getElem (computations : List ℕ) (k : ℕ) (hk : computations[k]? = some n) :
    logicalPlan g computations (Label.label (g.computation n).computationType k) = some n := by
  induction computations using List.reverseRecOn with
  | nil => cases hk
  | append_singleton l m ih =>
    rw [logicalPlan_snoc]
    by_cases hkl : k = l.length
    · rw [hkl, List.getElem?_append_right (Nat.le_refl _), Nat.sub_self] at hk
      obtain rfl : m = n := Option.some.inj hk
      rw [hkl, Function.update_self]
    · have hlt : k < l.length := by
        have h := (List.getElem?_eq_some_iff.mp hk).1
        rw [List.length_append, List.length_singleton] at h
        omega
      rw [List.getElem?_append_left hlt] at hk
      rw [Function.update_of_ne fun h => hkl (Label.label_inj h).2]
      exact ih hk

/-- the computations that were emitted -/
def emitted (g : QueryGraph) (m : Marks) (sinks : List ℕ) : List ℕ :=
  (traverseSinks g m sinks).tcapStrings.map (·.computation)

theorem emitted_eq (m : Marks) (sinks : List ℕ) :
    emitted g m sinks = (walks g (m.traversed, []) sinks).2 :=
  congrArg Prod.snd (view_traverseSinks m sinks)

theorem named_of_apart {m : Marks} {sinks : List ℕ} (hap : Apart g m sinks) : Named g m sinks := by
  have hstage := stage_of_apart hap sinks [] (List.append_nil _).symm
  obtain ⟨hsort, hmem⟩ := hstage.sorted
  rw [← emitted_eq] at hsort hmem
  constructor
  · intro n hn
    exact List.count_eq_one_of_mem hsort.nodup ((hmem n).mpr hn)
  · intro a e b hab
    refine hsort.before (a.map (·.computation)) e.computation (b.map (·.computation)) ?_
    show (traverseSinks g m sinks).tcapStrings.map _ = _
    rw [hab, List.map_append, List.map_cons]
  · intro e he
    obtain ⟨k, hk⟩ := List.mem_iff_getElem?.mp he
    rw [(numbered_traverseSinks m sinks).label k e hk]
    apply logicalPlan_getElem
    rw [parse_eq, ← hstage.list, ← emitted_eq]
    show ((traverseSinks g m sinks).tcapStrings.map _)[k]? = _
    rw [List.getElem?_map, hk]
    rfl

/-! ## Where a label goes wrong -/

/-- the sinks before, at and behind one of them -/
theorem emitted_split {m : Marks} {a b sinks : List ℕ} (hs : sinks = a ++ n :: b) :
    ∃ d e, emitted g m sinks = d ++ e ∧ (∀ x ∈ a, g.inputs x ≠ [] → x ∈ d) ∧
      (g.inputs n ≠ [] → n ∈ e) := by
  obtain ⟨d, hd⟩ := walks_walked (g := g) (r := (m.traversed, [])) a
  obtain ⟨e, he⟩ := walk_walked (g := g) (r := walks g (m.traversed, []) a) (Nat.lt_succ_self n)
  obtain ⟨f, hf⟩ := walks_walked (g := g) (r := walk g (n + 1) (walks g (m.traversed, []) a) n) b
  refine ⟨d, e ++ f, ?_, hd.top_mem, fun hn =>
    List.mem_append_left _ (he.top_mem n (List.mem_singleton_self n) hn)⟩
  have hw : walks g (m.traversed, []) sinks =
      walks g (walk g (n + 1) (walks g (m.traversed, []) a) n) b := by
    rw [hs]
    exact List.foldl_append
  rw [emitted_eq, hw, hf.emitted, he.emitted, hd.emitted, List.nil_append, List.append_assoc]

theorem apart_of_named {m : Marks} {sinks : List ℕ} (h : Named g m sinks) : Apart g m sinks := by
  obtain ⟨d, hd⟩ := walks_walked (g := g) (r := (m.traversed, [])) sinks
  have hem : emitted g m sinks = d := by rw [emitted_eq, hd.emitted, List.nil_append]
  have honce : ∀ x, Reachable g sinks x → d.count x = 1 := fun x hx => hem ▸ h.once x hx
  have hin : ∀ x, Reachable g sinks x → x ∈ d := fun x hx =>
    List.count_pos_iff.mp (by rw [honce x hx]; exact Nat.one_pos)
  have hbefore : ∀ a x b, emitted g m sinks = a ++ x :: b → ∀ y ∈ g.inputs x, y ∈ a := by
    intro a x b hab y hy
    obtain ⟨a', c, ha, rfl, hc⟩ := List.map_eq_append_iff.mp hab
    obtain ⟨e, b', rfl, rfl, -⟩ := List.map_eq_cons_iff.mp hc
    exact h.behind a' e b' ha y hy
  constructor
  · intro n hn hm
    refine (hd.unmarked n (hin n hn)).resolve_left ?_
    show ¬ m.traversed n = false
    rw [hm]
    exact Bool.noConfusion
  · -- it would be emitted while the earlier sink is, and as a sink
    intro a n b hs hne hr
    obtain ⟨e, f, hef, ha, hn⟩ := emitted_split (g := g) (m := m) hs
    obtain ⟨t, ht, hr⟩ := hr
    have hte : g.inputs t ≠ [] := fun he => by
      rw [Reaches.eq_of_nil hr he] at he
      exact hne he
    have hne' : n ∈ e := closed_of_before hbefore (hef ▸ List.prefix_append e f) (ha t ht hte) hr
    have hcount := honce n ⟨n, hs ▸ List.mem_append_right a List.mem_cons_self, .refl⟩
    rw [← hem, hef, List.count_append] at hcount
    have h1 := List.count_pos_iff.mpr hne'
    have h2 := List.count_pos_iff.mpr (hn hne)
    omega
  · -- some later computation marks it, and so visits it once more
    intro a n b hs hset hm hr
    have hcount := honce n ⟨n, hs ▸ List.mem_append_right a List.mem_cons_self, .refl⟩
    have hsinks : sinks.count n = a.count n + (b.count n + 1) := by
      rw [hs, List.count_append, List.count_cons_self]
    obtain ⟨t, ht, hr⟩ := hr
    rcases Relation.ReflTransGen.cases_tail hr with rfl | ⟨p, hp, hn⟩
    · have h1 := hd.count_le n hset
      have h2 := List.count_pos_iff.mpr ht
      omega
    · have hpin := hin p ⟨t, hs ▸ List.mem_append_right a (List.mem_cons_of_mem n ht), hp⟩
      have h1 := hd.count_lt n hset hm (hd.inputs p hpin n hn)
      omega

/-- every label is right exactly if the sinks are apart -/
theorem named_iff (g : QueryGraph) (m : Marks) (sinks : List ℕ) : Named g m sinks ↔ Apart g m sinks :=
  ⟨apart_of_named, named_of_apart⟩

/-! ## Two sinks -/

/-- a scan, a selection of it, and a writer of the selection; the texts are empty -/
def selectAndWrite : QueryGraph where
  computation
    | 0 => { computationType := "ScanUserSet", inputs := [], setsTraversed := true
             toTCAPString := fun _ _ _ _ _ => ⟨"", "", [], ""⟩ }
    | 1 => { computationType := "SelectionComp", inputs := [0], setsTraversed := true
             toTCAPString := fun _ _ _ _ _ => ⟨"", "", [], ""⟩ }
    | 2 => { computationType := "WriteUserSet", inputs := [1], setsTraversed := true
             toTCAPString := fun _ _ _ _ _ => ⟨"", "", [], ""⟩ }
    | _ => { computationType := "ScanUserSet", inputs := [], setsTraversed := true
             toTCAPString := fun _ _ _ _ _ => ⟨"", "", [], ""⟩ }
  acyclic n := by
    match n with
    | 0 => exact fun y hy => absurd hy List.not_mem_nil
    | 1 => exact fun y hy => by rw [List.mem_singleton.mp hy]; exact Nat.zero_lt_one
    | 2 => exact fun y hy => by rw [List.mem_singleton.mp hy]; exact Nat.one_lt_two
    | _ + 3 => exact fun y hy => absurd hy List.not_mem_nil
  scans n := by
    match n with
    | 0 => exact fun _ => rfl
    | 1 => exact fun _ => rfl
    | 2 => exact fun _ => rfl
    | _ + 3 => exact fun _ => rfl

def unmarked : Marks where
  traversed _ := false
  outputTupleSetName _ := ""
  outputColumnToApply _ := ""

/-- the selection is a sink behind the writer, and is emitted twice -/
theorem named_not_always : ¬ ∀ (g : QueryGraph) (sinks : List ℕ), Named g unmarked sinks := by
  intro h
  have hc := (h selectAndWrite [2, 1]).once 1 ⟨1, by decide, .refl⟩
  exact absurd hc (by decide)

end QueryGraphAnalyzer
end Netsdb
