import Netsdb.BuiltIn.TreeDump
import Netsdb.Lib.Scatter
import Mathlib.Data.List.Nodup

/-!
# A dumped tree is read back

* `Shows`       what is reached from a node of the array is a tree;
* `ReadsBack`   from any array, the file gives the tree, at 0, with no place twice;
* `filled`      the array after the passes over nodes, leaves and relationships, cell by cell;
* `reads_back_iff`   when it does: for scikit-learn always; for XGBoost the last three characters of a
                leaf's value are lost; a LightGBM table of one leaf fills no node 0.
-/

set_option linter.unusedSectionVars false

namespace Netsdb
namespace DecisionTree
open Text Text.Piece

variable {F : Type} {fl : Rounding F}

/-- the dump tells where missing values go -/
def Format.tellsMissing : Format → Bool
  | xgboost => true
  | lightgbm => true
  | _ => false

/-- what is reached from node `i` is the tree -/
def Shows (fl : Rounding F) (fmt : Format) (tree : Nodes F) : DTree → Fin 512 → Prop
  | .leaf _ v, i => (tree i).isLeaf = true ∧ leafValue fl fmt v = some (tree i).value
  | .node _ f v m yes no, i =>
    (tree i).isLeaf = false ∧ (tree i).indexID = f ∧ stod fl v.text = some (tree i).value ∧
      (fmt.tellsMissing = true → (tree i).isMissTrackLeft = m) ∧
      ∃ a b, cell (tree i).leftChild = some a ∧ cell (tree i).rightChild = some b ∧
        Shows fl fmt tree yes a ∧ Shows fl fmt tree no b

/-- the places that are reached -/
def reached (tree : Nodes F) : DTree → Fin 512 → List (Fin 512)
  | .leaf _ _, i => [i]
  | .node _ _ _ _ yes no, i => i :: (reached tree yes ((cell (tree i).leftChild).getD i) ++
      reached tree no ((cell (tree i).rightChild).getD i))

def ReadsBack (fl : Rounding F) (fmt : Format) (t : DTree) (file : List (List Char)) : Prop :=
  ∀ tree₀ : Nodes F, ∃ tree, constructTreeFromPath fl fmt.modelType file tree₀ = some tree ∧
    Shows fl fmt tree t 0 ∧ (reached tree t 0).Nodup

/-- what is left of the leaves, and of a table of one leaf -/
def Readable (fl : Rounding F) (fmt : Format) (t : DTree) : Prop :=
  match fmt with
  | .xgboost => ∀ p v, (p, LeafValue.number v) ∈ t.leaves → stod fl (cutValue v) = stod fl v.text
  | .lightgbm => t.isLeaf = false
  | _ => True

/-! ## the numbers of the nodes -/

section
variable {fmt : Format} {t : DTree} {r r' : InnerNode} {p : Fin 512} {v v' : LeafValue}

theorem DTree.places_perm (t : DTree) :
    t.places.Perm (t.inners.map InnerNode.place ++ t.leaves.map Prod.fst) := by
  induction t with
  | leaf p v => exact List.Perm.refl _
  | node p f v m yes no ihy ihn =>
    show (p :: (yes.places ++ no.places)).Perm
      (p :: ((yes.inners ++ no.inners).map InnerNode.place ++ (yes.leaves ++ no.leaves).map Prod.fst))
    refine List.Perm.cons p ((ihy.append ihn).trans ?_)
    rw [List.map_append, List.map_append]
    simp only [List.append_assoc]
    -- the leaves of one subtree go past the inner nodes of the other
    exact (List.perm_append_comm_assoc _ _ _).append_left _

theorem nodup_parts (h : t.places.Nodup) : (t.inners.map InnerNode.place).Nodup ∧
    (t.leaves.map Prod.fst).Nodup ∧
      ∀ a ∈ t.inners.map InnerNode.place, ∀ b ∈ t.leaves.map Prod.fst, a ≠ b :=
  List.nodup_append.mp (t.places_perm.nodup_iff.mp h)

theorem inner_unique (h : t.places.Nodup) (hr : r ∈ t.inners) (hr' : r' ∈ t.inners)
    (he : r'.place = r.place) : r' = r :=
  List.inj_on_of_nodup_map (nodup_parts h).1 hr' hr he

theorem leaf_unique (h : t.places.Nodup) (hp : (p, v) ∈ t.leaves) (hp' : (p, v') ∈ t.leaves) :
    v' = v :=
  congrArg Prod.snd (List.inj_on_of_nodup_map (nodup_parts h).2.1 hp' hp rfl)

theorem inner_ne_leaf (h : t.places.Nodup) (hr : r ∈ t.inners) (hp : (p, v) ∈ t.leaves) :
    r.place ≠ p :=
  (nodup_parts h).2.2 r.place (List.mem_map_of_mem hr) p (List.mem_map_of_mem hp)

end

/-! ## the passes -/

section
variable {fmt : Format} {t : DTree} {r : InnerNode} {p x : Fin 512} {v : LeafValue} {i : Item} {d : F}
  {items : List Item} {header : List Char} {lines file : List (List Char)} {tree₀ : Nodes F}
  {k : LineKind}

def ofKind (k : LineKind) (items : List Item) : List Item := items.filter fun i => i.kind = k

theorem mem_ofKind : i ∈ ofKind k items ↔ i ∈ items ∧ i.kind = k := by
  rw [ofKind, List.mem_filter, decide_eq_true_iff]

theorem linesOf_kind (h : List.Forall₂ (PrintsShort fmt) items lines) (k : LineKind) :
    List.Forall₂ (PrintsShort fmt) (ofKind k items)
      (linesOf fmt.modelType k (withHeader fmt header lines)) := by
  have hlines : linesOf fmt.modelType k (withHeader fmt header lines) =
      lines.filter fun line => lineKind fmt.modelType line = k := by
    cases fmt <;> rfl
  rw [hlines]
  exact List.rel_filter (fun i line hi => by simp only [hi.1.kind_eq]) h

theorem mem_inners (h : Arranged fmt t items) (hi : i ∈ ofKind .inner items) :
    ∃ r ∈ t.inners, i = .inner r := by
  obtain ⟨hmem, hk⟩ := mem_ofKind.mp hi
  cases i with
  | inner r => exact ⟨r, (h.inners r).mp hmem, rfl⟩
  | leaf p v => cases hk
  | edge p c yes missing => cases hk
  | frame => cases hk

theorem mem_leaves (h : Arranged fmt t items) (hi : i ∈ ofKind .leaf items) :
    ∃ p v, (p, v) ∈ t.leaves ∧ i = .leaf p v := by
  obtain ⟨hmem, hk⟩ := mem_ofKind.mp hi
  cases i with
  | inner r => cases hk
  | leaf p v => exact ⟨p, v, (h.leaves p v).mp hmem, rfl⟩
  | edge p c yes missing => cases hk
  | frame => cases hk

/-- what the line of an inner node writes; `d` where it cannot be read -/
def innerCell (fl : Rounding F) (fmt : Format) (d : F) : Item → Node F
  | .inner r => innerNode fmt.modelType r.feature ((stod fl r.threshold.text).getD d)
  | _ => leafNode d

def leafCell (fl : Rounding F) (fmt : Format) (d : F) : Item → Node F
  | .leaf _ v => leafNode ((keptValue fl fmt v).getD d)
  | _ => leafNode d

def withLeaves (fl : Rounding F) (fmt : Format) (items : List Item) (tree₀ : Nodes F) : Nodes F :=
  scatter Item.pos (leafCell fl fmt (tree₀ 0).value) (ofKind .leaf items)
    (scatter Item.pos (innerCell fl fmt (tree₀ 0).value) (ofKind .inner items) tree₀)

def filled (fl : Rounding F) (fmt : Format) (items : List Item) (tree₀ : Nodes F) : Nodes F :=
  (ofKind (relationshipKind fmt.modelType) items).foldl
    (fun (tree : Nodes F) i => Function.update tree i.pos (change fmt i (tree i.pos)))
    (withLeaves fl fmt items tree₀)

theorem innerPass (hfit : Fits fl fmt t) (ha : Arranged fmt t items)
    (h : List.Forall₂ (PrintsShort fmt) items lines) (d : F) (tree : Nodes F) :
    (linesOf fmt.modelType .inner (withHeader fmt header lines)).foldlM
        (processInnerNode fl fmt.modelType) tree =
      some (scatter Item.pos (innerCell fl fmt d) (ofKind .inner items) tree) := by
  refine foldlM_of_forall₂ (linesOf_kind h .inner) (fun i hi line hline tree => ?_) tree
  obtain ⟨r, hr, rfl⟩ := mem_inners ha hi
  obtain ⟨threshold, ht⟩ := Option.isSome_iff_exists.mp (hfit.threshold r hr)
  simp only [processInnerNode, hline.1.readsInner hline.2 (hfit.feature_lt r hr), ht, Option.map_some,
    Option.bind_eq_bind, Option.bind_some, cell_place, innerCell, Option.getD_some]
  rfl

/-- a leaf that the parser can read is written -/
theorem readsLeaf_of (hn : t.Numbered fmt) (hfit : Fits fl fmt t) (hp : (p, v) ∈ t.leaves)
    {line : List Char} (hline : PrintsShort fmt (.leaf p v) line) : readLeafNode fl fmt.modelType line =
      (keptValue fl fmt v).map fun value => ((p.val : ℤ), value) :=
  hline.1.readsLeaf hline.2 (fun n₀ n₁ hv => hfit.counts_lt p n₀ n₁ (hv ▸ hp))
    fun hfmt => hn.leaf_ge hfmt (p, v) hp

theorem leafPass (hn : t.Numbered fmt) (hfit : Fits fl fmt t) (ha : Arranged fmt t items)
    (h : List.Forall₂ (PrintsShort fmt) items lines)
    (hkept : ∀ p v, (p, v) ∈ t.leaves → (keptValue fl fmt v).isSome = true) (d : F) (tree : Nodes F) :
    (linesOf fmt.modelType .leaf (withHeader fmt header lines)).foldlM
        (processLeafNode fl fmt.modelType) tree =
      some (scatter Item.pos (leafCell fl fmt d) (ofKind .leaf items) tree) := by
  refine foldlM_of_forall₂ (linesOf_kind h .leaf) (fun i hi line hline tree => ?_) tree
  obtain ⟨p, v, hp, rfl⟩ := mem_leaves ha hi
  obtain ⟨value, hv⟩ := Option.isSome_iff_exists.mp (hkept p v hp)
  simp only [processLeafNode, readsLeaf_of hn hfit hp hline, hv, Option.map_some, Option.bind_eq_bind,
    Option.bind_some, cell_place, leafCell, Option.getD_some]
  rfl

theorem relationshipPass (h : List.Forall₂ (PrintsShort fmt) items lines) (tree : Nodes F) :
    (linesOf fmt.modelType (relationshipKind fmt.modelType) (withHeader fmt header lines)).foldlM
        (processRelationship fmt.modelType) tree =
      some ((ofKind (relationshipKind fmt.modelType) items).foldl
        (fun (tree : Nodes F) i => Function.update tree i.pos (change fmt i (tree i.pos))) tree) :=
  foldlM_of_forall₂ (linesOf_kind h _)
    (fun _ hi _ hline tree => hline.1.relates (mem_ofKind.mp hi).2 hline.2 tree) tree

theorem constructs (hn : t.Numbered fmt) (hfit : Fits fl fmt t) (ha : Arranged fmt t items)
    (h : List.Forall₂ (PrintsShort fmt) items lines)
    (hkept : ∀ p v, (p, v) ∈ t.leaves → (keptValue fl fmt v).isSome = true) (tree₀ : Nodes F) :
    constructTreeFromPath fl fmt.modelType (withHeader fmt header lines) tree₀ =
      some (filled fl fmt items tree₀) := by
  rw [constructTreeFromPath, innerPass hfit ha h (tree₀ 0).value]
  simp only [Option.bind_eq_bind, Option.bind_some]
  rw [leafPass hn hfit ha h hkept (tree₀ 0).value]
  simp only [Option.bind_some]
  exact relationshipPass h _

/-- a value of which nothing readable is left -/
theorem constructs_none (hn : t.Numbered fmt) (hfit : Fits fl fmt t) (ha : Arranged fmt t items)
    (h : List.Forall₂ (PrintsShort fmt) items lines) (hp : (p, v) ∈ t.leaves)
    (hkept : keptValue fl fmt v = none) (tree₀ : Nodes F) :
    constructTreeFromPath fl fmt.modelType (withHeader fmt header lines) tree₀ = none := by
  have hmem : Item.leaf p v ∈ ofKind .leaf items := mem_ofKind.mpr ⟨(ha.leaves p v).mpr hp, rfl⟩
  have hfail (line : List Char) (hline : PrintsShort fmt (.leaf p v) line) (tree : Nodes F) :
      processLeafNode fl fmt.modelType tree line = none := by
    rw [processLeafNode, readsLeaf_of hn hfit hp hline, hkept]
    rfl
  rw [constructTreeFromPath, innerPass hfit ha h (tree₀ 0).value]
  simp only [Option.bind_eq_bind, Option.bind_some]
  rw [foldlM_none_of_forall₂ (linesOf_kind h .leaf) hmem hfail]
  rfl

end

/-! ## what is in the cells -/

section
variable {fmt : Format} {t s : DTree} {r : InnerNode} {p x : Fin 512} {v : LeafValue} {i : Item} {d : F}
  {items : List Item} {tree₀ : Nodes F}

theorem withLeaves_inner (hn : t.places.Nodup) (ha : Arranged fmt t items) (hr : r ∈ t.inners) :
    withLeaves fl fmt items tree₀ r.place =
      innerNode fmt.modelType r.feature ((stod fl r.threshold.text).getD (tree₀ 0).value) := by
  have hmem : Item.inner r ∈ ofKind .inner items := mem_ofKind.mpr ⟨(ha.inners r).mpr hr, rfl⟩
  rw [withLeaves, scatter_miss]
  · show scatter Item.pos (innerCell fl fmt (tree₀ 0).value) _ tree₀ (Item.inner r).pos = _
    refine scatter_hit hmem (fun j hj he => ?_) tree₀
    obtain ⟨r', hr', rfl⟩ := mem_inners ha hj
    rw [inner_unique hn hr hr' he]
  · intro j hj he
    obtain ⟨p, v, hp, rfl⟩ := mem_leaves ha hj
    exact inner_ne_leaf hn hr hp he.symm

theorem withLeaves_leaf (hn : t.places.Nodup) (ha : Arranged fmt t items) (hp : (p, v) ∈ t.leaves) :
    withLeaves fl fmt items tree₀ p = leafNode ((keptValue fl fmt v).getD (tree₀ 0).value) := by
  have hmem : Item.leaf p v ∈ ofKind .leaf items := mem_ofKind.mpr ⟨(ha.leaves p v).mpr hp, rfl⟩
  show scatter Item.pos (leafCell fl fmt (tree₀ 0).value) _ _ (Item.leaf p v).pos = _
  refine scatter_hit hmem (fun j hj he => ?_) _
  obtain ⟨p', v', hp', rfl⟩ := mem_leaves ha hj
  have he : p' = p := he
  subst he
  rw [leaf_unique hn hp hp']

/-- the relationships of a node -/
theorem filled_eq (x : Fin 512) : filled fl fmt items tree₀ x =
    ((ofKind (relationshipKind fmt.modelType) items).filter fun i => i.pos = x).foldl
      (fun n i => change fmt i n) (withLeaves fl fmt items tree₀ x) :=
  foldl_update_cell (change fmt) Item.pos _ _ x

theorem relationships_nil (ha : Arranged fmt t items) (hx : ∀ r ∈ t.inners, r.place ≠ x) :
    (ofKind (relationshipKind fmt.modelType) items).filter (fun i => i.pos = x) = [] := by
  refine List.filter_eq_nil_iff.mpr fun i hi he => ?_
  have he : i.pos = x := of_decide_eq_true he
  obtain ⟨hmem, hk⟩ := mem_ofKind.mp hi
  cases i with
  | inner r => exact hx r ((ha.inners r).mp hmem) he
  | leaf p v => cases fmt <;> cases hk
  | edge p c yes missing =>
    obtain ⟨r, hr, hplace⟩ := ha.parents p c yes missing hmem
    exact hx r hr (hplace.trans he)
  | frame => cases fmt <;> cases hk

theorem filled_leaf (hn : t.places.Nodup) (ha : Arranged fmt t items) (hp : (p, v) ∈ t.leaves) :
    filled fl fmt items tree₀ p = leafNode ((keptValue fl fmt v).getD (tree₀ 0).value) := by
  rw [filled_eq, relationships_nil ha fun r hr => inner_ne_leaf hn hr hp, List.foldl_nil,
    withLeaves_leaf hn ha hp]

theorem filled_other (ha : Arranged fmt t items) (hi : ∀ r ∈ t.inners, r.place ≠ x)
    (hl : ∀ p v, (p, v) ∈ t.leaves → p ≠ x) : filled fl fmt items tree₀ x = tree₀ x := by
  rw [filled_eq, relationships_nil ha hi, List.foldl_nil, withLeaves, scatter_miss, scatter_miss]
  · intro j hj he
    obtain ⟨r, hr, rfl⟩ := mem_inners ha hj
    exact hi r hr he
  · intro j hj he
    obtain ⟨p, v, hp, rfl⟩ := mem_leaves ha hj
    exact hl p v hp he

/-- the relationships of a dot file are its edges -/
theorem relationships_dot (hfmt : fmt ≠ .lightgbm) (ha : Arranged fmt t items) (hr : r ∈ t.inners) :
    (ofKind (relationshipKind fmt.modelType) items).filter (fun i => i.pos = r.place) =
      [.edge r.place r.yes true r.missingLeft, .edge r.place r.no false (!r.missingLeft)] := by
  have hkind : relationshipKind fmt.modelType = .relationship := by
    cases fmt with
    | classifier => rfl
    | regressor => rfl
    | xgboost => rfl
    | lightgbm => exact absurd rfl hfmt
  rw [hkind, ofKind, List.filter_filter, ← ha.edges hfmt r hr]
  refine List.filter_congr fun i _ => Bool.eq_iff_iff.mpr ?_
  rw [Bool.and_eq_true, decide_eq_true_iff, decide_eq_true_iff, decide_eq_true_iff]
  cases i <;> simp [Item.pos, Item.kind, Item.parent?]

/-- a table says the same of a node as often as it has its row -/
theorem foldl_rows (l : List Item) (hl : ∀ i ∈ l, i = .inner r) (hne : l ≠ []) (n : Node F) :
    l.foldl (fun n i => change .lightgbm i n) n = change .lightgbm (.inner r) n := by
  induction l generalizing n with
  | nil => exact absurd rfl hne
  | cons i l ih =>
    rw [List.foldl_cons, hl i List.mem_cons_self]
    by_cases h : l = []
    · rw [h]
      rfl
    · exact ih (fun j hj => hl j (List.mem_cons_of_mem i hj)) h _

theorem filled_inner (hn : t.places.Nodup) (ha : Arranged fmt t items) (hr : r ∈ t.inners) :
    filled fl fmt items tree₀ r.place =
      ⟨(stod fl r.threshold.text).getD (tree₀ 0).value, r.feature, r.yes.val, r.no.val, false,
        fmt.tellsMissing && r.missingLeft⟩ := by
  rw [filled_eq, withLeaves_inner hn ha hr]
  by_cases hfmt : fmt = .lightgbm
  · subst hfmt
    rw [foldl_rows (r := r)]
    · rfl
    · intro i hi
      obtain ⟨hmem, he⟩ := List.mem_filter.mp hi
      obtain ⟨r', hr', rfl⟩ := mem_inners ha hmem
      rw [inner_unique hn hr hr' (of_decide_eq_true he)]
    · exact List.ne_nil_of_mem (List.mem_filter.mpr
        ⟨mem_ofKind.mpr ⟨(ha.inners r).mpr hr, rfl⟩, decide_eq_true rfl⟩)
  · rw [relationships_dot hfmt ha hr]
    have hyes : (r.yes.val : ℤ) ≠ -1 := by omega
    cases fmt with
    | classifier => simp [change, Node.addChild, innerNode, hyes, Format.modelType, Format.tellsMissing]
    | regressor => simp [change, Node.addChild, innerNode, hyes, Format.modelType, Format.tellsMissing]
    | xgboost =>
      cases hm : r.missingLeft <;>
        simp [change, Node.addChild, innerNode, hyes, Format.modelType, Format.tellsMissing]
    | lightgbm => exact absurd rfl hfmt

/-- a part of the tree is shown where the values of its leaves are kept -/
theorem shows_iff (hn : t.places.Nodup) (hfit : Fits fl fmt t) (ha : Arranged fmt t items)
    (hi : s.inners ⊆ t.inners) (hl : s.leaves ⊆ t.leaves) :
    Shows fl fmt (filled fl fmt items tree₀) s s.place ↔
      ∀ p v, (p, v) ∈ s.leaves →
        leafValue fl fmt v = some ((keptValue fl fmt v).getD (tree₀ 0).value) := by
  induction s with
  | leaf p v =>
    show (_ ∧ _) ↔ _
    rw [show (DTree.leaf p v).place = p from rfl, filled_leaf hn ha (hl List.mem_cons_self)]
    constructor
    · rintro ⟨-, hv⟩ p' v' hp'
      obtain ⟨rfl, rfl⟩ := Prod.mk.inj (List.mem_singleton.mp hp')
      exact hv
    · exact fun h => ⟨rfl, h p v List.mem_cons_self⟩
  | node p f v m yes no ihy ihn =>
    have hr : ⟨p, f, v, m, yes.place, no.place⟩ ∈ t.inners := hi List.mem_cons_self
    have hy := ihy (fun _ h => hi (List.mem_cons_of_mem _ (List.mem_append_left _ h)))
      fun _ h => hl (List.mem_append_left _ h)
    have hno := ihn (fun _ h => hi (List.mem_cons_of_mem _ (List.mem_append_right _ h)))
      fun _ h => hl (List.mem_append_right _ h)
    have hcell : filled fl fmt items tree₀ p = _ := filled_inner hn ha hr
    obtain ⟨threshold, ht⟩ := Option.isSome_iff_exists.mp (hfit.threshold _ hr)
    dsimp only at hcell ht
    rw [ht, Option.getD_some] at hcell
    show (_ ∧ _) ↔ _
    rw [show (DTree.node p f v m yes no).place = p from rfl, hcell]
    constructor
    · rintro ⟨-, -, -, -, a, b, ha', hb', hsy, hsn⟩ p' v' hp'
      rw [cell_place] at ha' hb'
      rw [← Option.some.inj ha'] at hsy
      rw [← Option.some.inj hb'] at hsn
      rcases List.mem_append.mp hp' with h | h
      · exact hy.mp hsy p' v' h
      · exact hno.mp hsn p' v' h
    · intro h
      refine ⟨rfl, rfl, ht, fun hm => by rw [hm]; rfl, yes.place, no.place, cell_place _, cell_place _,
        hy.mpr fun p' v' hp' => h p' v' (List.mem_append_left _ hp'),
        hno.mpr fun p' v' hp' => h p' v' (List.mem_append_right _ hp')⟩

theorem reached_filled (hn : t.places.Nodup) (ha : Arranged fmt t items) (hi : s.inners ⊆ t.inners) :
    reached (filled fl fmt items tree₀) s s.place = s.places := by
  induction s with
  | leaf p v => rfl
  | node p f v m yes no ihy ihn =>
    have hr : ⟨p, f, v, m, yes.place, no.place⟩ ∈ t.inners := hi List.mem_cons_self
    have hcell : filled fl fmt items tree₀ p = _ := filled_inner hn ha hr
    dsimp only at hcell
    show p :: (reached _ yes ((cell _).getD p) ++ reached _ no ((cell _).getD p)) = _
    rw [show (DTree.node p f v m yes no).place = p from rfl, hcell, cell_place, cell_place,
      Option.getD_some, Option.getD_some,
      ihy fun _ h => hi (List.mem_cons_of_mem _ (List.mem_append_left _ h)),
      ihn fun _ h => hi (List.mem_cons_of_mem _ (List.mem_append_right _ h))]
    rfl

end

/-! ## the file and the tree -/

section
variable {fmt : Format} {t : DTree} {file : List (List Char)}

/-- a value of a leaf that is kept is read as what it says -/
theorem kept_of_readable (hfit : Fits fl fmt t) (h : Readable fl fmt t) {p : Fin 512} {v : LeafValue}
    (hp : (p, v) ∈ t.leaves) : keptValue fl fmt v = leafValue fl fmt v := by
  cases fmt with
  | classifier => rfl
  | regressor => rfl
  | xgboost =>
    cases v with
    | counts n₀ n₁ => rfl
    | number v => exact h p v hp
  | lightgbm => rfl

theorem Readable.place_eq (hn : t.Numbered fmt) (h : Readable fl fmt t) : t.place = 0 := by
  refine hn.root ?_
  cases fmt with
  | lightgbm => exact Or.inr h
  | _ => exact Or.inl (by decide)

theorem reads_back (h : Printed fl fmt t file) (hr : Readable fl fmt t) : ReadsBack fl fmt t file := by
  intro tree₀
  obtain ⟨hn, hfit, items, header, lines, ha, hlines, rfl⟩ := h
  have hkept : ∀ p v, (p, v) ∈ t.leaves → (keptValue fl fmt v).isSome = true := by
    intro p v hp
    rw [kept_of_readable hfit hr hp]
    exact hfit.value (p, v) hp
  have hroot := hr.place_eq hn
  refine ⟨filled fl fmt items tree₀, constructs hn hfit ha hlines hkept tree₀, ?_, ?_⟩
  · rw [← hroot]
    refine (shows_iff hn.nodup hfit ha (fun _ => id) fun _ => id).mpr fun p v hp => ?_
    obtain ⟨value, hv⟩ := Option.isSome_iff_exists.mp (hfit.value (p, v) hp)
    rw [kept_of_readable hfit hr hp, hv, Option.getD_some]
  · rw [← hroot, reached_filled hn.nodup ha fun _ => id]
    exact hn.nodup

/-- a table of one leaf says nothing of node 0 -/
theorem not_reads_leaf [Nonempty F] {p : Fin 512} {v : LeafValue}
    (h : Printed fl .lightgbm (.leaf p v) file) : ¬ ReadsBack fl .lightgbm (.leaf p v) file := by
  intro hback
  obtain ⟨hn, hfit, items, header, lines, ha, hlines, rfl⟩ := h
  let tree₀ : Nodes F := fun _ => ⟨Classical.arbitrary F, 0, 0, 0, false, false⟩
  obtain ⟨tree, hconstruct, hshows, -⟩ := hback tree₀
  have hp0 : p ≠ 0 := by
    have hge := hn.leaf_ge rfl (p, v) List.mem_cons_self
    rintro rfl
    exact absurd (show 256 ≤ 0 from hge) (by decide)
  have hkept : ∀ p' v', (p', v') ∈ (DTree.leaf p v).leaves →
      (keptValue fl .lightgbm v').isSome = true := fun p' v' hp' => hfit.value (p', v') hp'
  rw [constructs hn hfit ha hlines hkept tree₀] at hconstruct
  have hother : filled fl .lightgbm items tree₀ 0 = tree₀ 0 :=
    filled_other ha (fun r hr => by cases hr) fun p' v' hp' => by
      rw [(Prod.mk.inj (List.mem_singleton.mp hp')).1]
      exact hp0
  rw [← Option.some.inj hconstruct] at hshows
  obtain ⟨hleaf, -⟩ := hshows
  rw [hother] at hleaf
  cases hleaf

/-- a leaf whose value is cut to another number, or to none -/
theorem not_reads_cut {p : Fin 512} {v : Numeral} (h : Printed fl .xgboost t file)
    (hp : (p, LeafValue.number v) ∈ t.leaves) (hv : stod fl (cutValue v) ≠ stod fl v.text) :
    ¬ ReadsBack fl .xgboost t file := by
  intro hback
  obtain ⟨hn, hfit, items, header, lines, ha, hlines, hfile⟩ := h
  obtain ⟨value, hvalue⟩ := Option.isSome_iff_exists.mp (hfit.value _ hp)
  have hvalue : stod fl v.text = some value := hvalue
  let tree₀ : Nodes F := fun _ => ⟨value, 0, 0, 0, false, false⟩
  obtain ⟨tree, hconstruct, hshows, -⟩ := hback tree₀
  by_cases hkept : ∀ p v, (p, v) ∈ t.leaves → (keptValue fl .xgboost v).isSome = true
  · rw [hfile, constructs hn hfit ha hlines hkept tree₀] at hconstruct
    rw [← Option.some.inj hconstruct, ← hn.root (Or.inl (by decide))] at hshows
    have hsame := (shows_iff hn.nodup hfit ha (fun _ => id) fun _ => id).mp hshows p (.number v) hp
    obtain ⟨kept, hk⟩ := Option.isSome_iff_exists.mp (hkept p (.number v) hp)
    rw [hk, Option.getD_some] at hsame
    exact hv (hk.trans hsame.symm)
  · push Not at hkept
    obtain ⟨p', v', hp', hnone⟩ := hkept
    rw [hfile, constructs_none hn hfit ha hlines hp' (by simpa using hnone) tree₀] at hconstruct
    cases hconstruct

/-- the parser gives back the tree of a dump unless it cuts a digit that counts, or misses the root -/
theorem reads_back_iff (h : Printed fl fmt t file) : ReadsBack fl fmt t file ↔ Readable fl fmt t := by
  refine ⟨fun hback => ?_, reads_back h⟩
  cases fmt with
  | classifier => trivial
  | regressor => trivial
  | xgboost =>
    intro p v hp
    by_contra hv
    exact not_reads_cut h hp hv hback
  | lightgbm =>
    cases t with
    | leaf p v =>
      obtain ⟨value, -⟩ := Option.isSome_iff_exists.mp (h.fits.value (p, v) List.mem_cons_self)
      exact absurd hback (@not_reads_leaf F fl file ⟨value⟩ p v h)
    | node p f v m yes no => rfl

end

/-! ### a tree of three nodes -/

/-- rationals, as they are -/
def exact : Rounding ℚ := ⟨some, some, fun a b => a / b⟩

def stumpThreshold : Numeral := ⟨"2.5".toList, List.all_eq_true.mp rfl, List.cons_ne_nil _ _⟩
def stumpHalf : Numeral := ⟨"0.5000".toList, List.all_eq_true.mp rfl, List.cons_ne_nil _ _⟩
def stumpOne : Numeral := ⟨"1".toList, List.all_eq_true.mp rfl, List.cons_ne_nil _ _⟩

def stump : DTree :=
  .node 0 3 stumpThreshold true (.leaf 1 (.number stumpHalf)) (.leaf 2 (.number stumpOne))

def stumpDump : List (List Char) :=
  ["digraph \x7b".toList, "    graph [ rankdir=TB ]".toList, "".toList,
    "    0 [ label=\"f3<2.5\" ]".toList,
    "    0 -> 1 [label=\"yes, missing\" color=\"#0000FF\"]".toList,
    "    0 -> 2 [label=\"no\" color=\"#FF0000\"]".toList,
    "    1 [ label=\"leaf=0.5000\" ]".toList,
    "    2 [ label=\"leaf=1\" ]".toList,
    "\x7d".toList]

theorem stump_numbered : stump.Numbered .xgboost where
  nodup := by decide
  root _ := rfl
  inner_lt h := by cases h
  leaf_ge h := by cases h

theorem stump_fits : Fits exact .xgboost stump where
  feature_lt r hr := by
    rw [List.mem_singleton.mp hr]
    decide
  threshold r hr := by
    rw [List.mem_singleton.mp hr]
    rfl
  value x hx := by
    rcases List.mem_pair.mp hx with rfl | rfl <;> rfl
  counts_lt p n₀ n₁ h := by
    rcases List.mem_pair.mp h with he | he <;> cases he

def stumpItems : List Item :=
  [.frame, .frame, .frame, .inner ⟨0, 3, stumpThreshold, true, 1, 2⟩, .edge 0 1 true true,
    .edge 0 2 false false, .leaf 1 (.number stumpHalf), .leaf 2 (.number stumpOne), .frame]

theorem stump_arranged : Arranged .xgboost stump stumpItems where
  inners r := by simp [stumpItems, stump, DTree.inners, DTree.place]
  leaves p v := by simp [stumpItems, stump, DTree.leaves]
  edges _ r hr := by
    rw [List.mem_singleton.mp hr]
    rfl
  parents p c yes missing h := by
    simp only [stumpItems, List.mem_cons, List.not_mem_nil, or_false, reduceCtorEq, false_or,
      Item.edge.injEq] at h
    rcases h with ⟨rfl, -⟩ | ⟨rfl, -⟩ <;> exact ⟨_, List.mem_cons_self, rfl⟩

theorem stump_lines : List.Forall₂ (PrintsShort .xgboost) stumpItems stumpDump :=
  .cons ⟨.xgbFrame _ (Or.inr ⟨"graph", by decide, by decide⟩), by decide⟩
  (.cons ⟨.xgbFrame _ (Or.inr ⟨"graph", by decide, by decide⟩), by decide⟩
  (.cons ⟨.xgbFrame _ (Or.inl rfl), by decide⟩
  (.cons ⟨.xgbInner _, by decide⟩
  (.cons ⟨.xgbEdge _ _ _ _ " color=\"#0000FF\"]".toList (by decide), by decide⟩
  (.cons ⟨.xgbEdge _ _ _ _ " color=\"#FF0000\"]".toList (by decide), by decide⟩
  (.cons ⟨.xgbLeaf _ _, by decide⟩
  (.cons ⟨.xgbLeaf _ _, by decide⟩
  (.cons ⟨.xgbFrame _ (Or.inr ⟨"\x7d", by decide, by decide⟩), by decide⟩ .nil))))))))

theorem stump_printed : Printed exact .xgboost stump stumpDump :=
  ⟨stump_numbered, stump_fits, stumpItems, [], stumpDump, stump_arranged, stump_lines, rfl⟩

theorem stump_readable : Readable exact .xgboost stump := by
  intro p v hp
  rcases List.mem_pair.mp hp with he | he
  · obtain rfl : v = stumpHalf := LeafValue.number.inj (Prod.mk.inj he).2
    decide +kernel
  · obtain rfl : v = stumpOne := LeafValue.number.inj (Prod.mk.inj he).2
    rfl

theorem stump_reads_back : ReadsBack exact .xgboost stump stumpDump :=
  (reads_back_iff stump_printed).mpr stump_readable

end DecisionTree
end Netsdb
