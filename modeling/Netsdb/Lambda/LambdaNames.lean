import Netsdb.Lambda.LambdaComputation

/-!
# The names in the text denote the lambdas of the map

* `NamesDenote`   every name of the text is a key of `extractLambdas`, which holds the node of the
                  statement there; no name is given twice;
* `equalsPaired`  the children of every `==` are two leaves or two `==`;
* `names_right`, `names_wrong`   below such a `==` the name told in advance is the one the node gets,
                  and `==` finds the names of its children; elsewhere one of these fails in a join;
* `namesDenote_iff`   so the names are right in every text but those of joins with another `==`.
-/

set_option linter.unusedSectionVars false

namespace Netsdb
open Label Lambda

namespace GenericLambdaObject

def isLeaf : GenericLambdaObject → Bool
  | leaf _ => true
  | _ => false

def isEquals : GenericLambdaObject → Bool
  | binary .EqualsLambda _ _ => true
  | _ => false

/-- the children of every `==` are both leaves or both `==` -/
def equalsPaired : GenericLambdaObject → Bool
  | leaf _ => true
  | DereferenceLambda input => input.equalsPaired
  | binary .AndLambda lhs rhs => lhs.equalsPaired && rhs.equalsPaired
  | binary .EqualsLambda lhs rhs =>
    (lhs.isLeaf && rhs.isLeaf || lhs.isEquals && rhs.isEquals) && lhs.equalsPaired && rhs.equalsPaired

variable {t lhs rhs : GenericLambdaObject} {n : Nat} {p : NodePath} {hash : LambdaMap} {inJoin : Bool}
  {u : String × NodePath}

theorem input_assigned (h : u ∈ t.assigned (0 :: p) n) : u ∈ (DereferenceLambda t).assigned p n :=
  List.mem_cons_of_mem _ h

theorem lhs_assigned {o : Binary} (h : u ∈ lhs.assigned (0 :: p) n) :
    u ∈ (binary o lhs rhs).assigned p n :=
  List.mem_cons_of_mem _ (List.mem_append_right _ h)

theorem rhs_assigned {o : Binary} (h : u ∈ rhs.assigned (1 :: p) (n + lhs.size)) :
    u ∈ (binary o lhs rhs).assigned p n :=
  List.mem_cons_of_mem _ (List.mem_append_left _ h)

/-- the name that a tree leaves is the name of one of its nodes -/
theorem lastName_assigned (t : GenericLambdaObject) (p : NodePath) (n : Nat) :
    ∃ q, (lastName t n, q) ∈ t.assigned p n := by
  induction t generalizing p n with
  | leaf o => exact ⟨p, List.mem_singleton.mpr rfl⟩
  | DereferenceLambda input ih => exact ⟨p, List.mem_cons_self⟩
  | binary o lhs rhs ihl ihr =>
    cases o with
    | EqualsLambda => exact ⟨p, List.mem_cons_self⟩
    | AndLambda =>
      obtain ⟨q, hq⟩ := ihr (1 :: p) (n + lhs.size)
      exact ⟨q, rhs_assigned hq⟩

/-- a leaf or `==` leaves its own name -/
theorem lastName_root (h : t.isLeaf = true ∨ t.isEquals = true) (p : NodePath) (n : Nat) :
    (lastName t n, p) ∈ t.assigned p n := by
  cases t with
  | leaf o => exact List.mem_singleton.mpr rfl
  | DereferenceLambda input => exact h.elim (fun h => nomatch h) (fun h => nomatch h)
  | binary o lhs rhs =>
    cases o with
    | EqualsLambda => exact List.mem_cons_self
    | AndLambda => exact h.elim (fun h => nomatch h) (fun h => nomatch h)

/-- `&&` leaves the name of a node below it -/
theorem lastName_and (lhs rhs : GenericLambdaObject) (n : Nat) :
    lastName (binary .AndLambda lhs rhs) n ≠ label "&&" (n + lhs.size + rhs.size) := by
  obtain ⟨q, hq⟩ := lastName_assigned rhs [] (n + lhs.size)
  exact ne_of_number hq le_rfl

/-- `==` gives no hash, so it does not use the name of its parent -/
theorem names_isEquals (h : t.isEquals = true) (inJoin : Bool) (n : Nat) (p : NodePath)
    (hash : LambdaMap) : names inJoin t n p hash = names inJoin t n p [] := by
  cases t with
  | leaf o => cases h
  | DereferenceLambda input => cases h
  | binary o lhs rhs =>
    cases o with
    | EqualsLambda => rfl
    | AndLambda => cases h

theorem size_isLeaf (h : t.isLeaf = true) : t.size = 1 := by
  cases t with
  | leaf o => rfl
  | DereferenceLambda input => cases h
  | binary o lhs rhs => cases h

/-- the names of the text are those of the map, apart from the name of the parent -/
theorem names_right (h : inJoin = true → t.equalsPaired = true)
    (hu : u ∈ names inJoin t n p hash) : u ∈ hash ∨ u ∈ t.assigned p n := by
  induction t generalizing n p hash with
  | leaf o =>
    rcases List.mem_cons.mp hu with rfl | hu
    · exact Or.inr (List.mem_singleton.mpr rfl)
    · exact Or.inl hu
  | DereferenceLambda input ih =>
    rcases List.mem_append.mp hu with hu | hu
    · have hin := (ih h hu).resolve_left List.not_mem_nil
      exact Or.inr (input_assigned hin)
    · rcases List.mem_cons.mp hu with rfl | hu
      · exact Or.inr List.mem_cons_self
      · exact Or.inl hu
  | binary o lhs rhs ihl ihr =>
    right
    cases o with
    | AndLambda =>
      have hpair (hj : inJoin = true) := Bool.and_eq_true_iff.mp (h hj)
      rcases List.mem_append.mp hu with hu | hu
      · exact lhs_assigned ((ihl (fun hj => (hpair hj).1) hu).resolve_left List.not_mem_nil)
      · exact rhs_assigned ((ihr (fun hj => (hpair hj).2) hu).resolve_left List.not_mem_nil)
    | EqualsLambda =>
      cases inJoin with
      | false =>
        simp only [names, Bool.false_eq_true, if_false, List.nil_append, List.mem_append,
          List.mem_singleton] at hu
        rcases hu with hu | hu | rfl
        · exact lhs_assigned ((ihl (fun hj => nomatch hj) hu).resolve_left List.not_mem_nil)
        · exact rhs_assigned ((ihr (fun hj => nomatch hj) hu).resolve_left List.not_mem_nil)
        · exact List.mem_cons_self
      | true =>
        have hpair := h rfl
        simp only [equalsPaired, Bool.and_eq_true, Bool.or_eq_true] at hpair
        obtain ⟨⟨hkind, hl⟩, hr⟩ := hpair
        -- where the children hand the predicted name on, it is the right one
        have hpred (hleaf : lhs.isLeaf = true ∧ rhs.isLeaf = true) :
            (label "==" (n + 2), p) ∈ (binary .EqualsLambda lhs rhs).assigned p n := by
          have hroot := root_assigned p (binary .EqualsLambda lhs rhs) n
          rwa [size, size_isLeaf hleaf.1, size_isLeaf hleaf.2] at hroot
        simp only [names, if_true, List.mem_append, List.mem_cons, List.not_mem_nil, or_false] at hu
        rcases hu with hu | hu | (rfl | rfl) | rfl
        · rcases hkind with hk | hk
          · rcases ihl (fun _ => hl) hu with hu | hu
            · rw [List.mem_singleton.mp hu]
              exact hpred hk
            · exact lhs_assigned hu
          · rw [names_isEquals hk.1] at hu
            exact lhs_assigned ((ihl (fun _ => hl) hu).resolve_left List.not_mem_nil)
        · rcases hkind with hk | hk
          · rcases ihr (fun _ => hr) hu with hu | hu
            · rw [List.mem_singleton.mp hu]
              exact hpred hk
            · exact rhs_assigned hu
          · rw [names_isEquals hk.2] at hu
            exact rhs_assigned ((ihr (fun _ => hr) hu).resolve_left List.not_mem_nil)
        · exact lhs_assigned (lastName_root (hkind.imp And.left And.left) _ n)
        · exact rhs_assigned (lastName_root (hkind.imp And.right And.right) _ _)
        · exact List.mem_cons_self

/-- a name of the text for a node that has another one in the map -/
def Wrong (t : GenericLambdaObject) (n : Nat) (p : NodePath) (u : String × NodePath) : Prop :=
  ∃ name, name ≠ u.1 ∧ (name, u.2) ∈ t.assigned p n

/-- a leaf or a dereference below `==` gives the hash the name of its parent -/
theorem hash_subset (h : t.isEquals = false) (hand : ∀ l r, t ≠ binary .AndLambda l r) :
    hash ⊆ names inJoin t n p hash := by
  intro u hu
  cases t with
  | leaf o => exact List.mem_cons_of_mem _ hu
  | DereferenceLambda input => exact List.mem_append_right _ (List.mem_cons_of_mem _ hu)
  | binary o lhs rhs =>
    cases o with
    | EqualsLambda => cases h
    | AndLambda => exact absurd rfl (hand lhs rhs)

/-- a predicted name that is handed on is wrong unless both children are leaves -/
theorem predicted_wrong (hs : lhs.size + rhs.size ≠ 2) :
    Wrong (binary .EqualsLambda lhs rhs) n p (label "==" (n + 2), p) := by
  refine ⟨label "==" (n + lhs.size + rhs.size), fun h => ?_, List.mem_cons_self⟩
  have := (label_inj h).2
  omega

theorem one_lt_size (h : t.isLeaf = false) : 1 < t.size := by
  cases t with
  | leaf o => cases h
  | DereferenceLambda input =>
    have := input.size_pos
    simp only [size]
    omega
  | binary o lhs rhs =>
    have := lhs.size_pos
    simp only [size]
    omega

/-- a `==` in a join whose children are of two kinds, or are `&&`, has a wrong name of its own -/
theorem equals_wrong (h : (lhs.isLeaf && rhs.isLeaf || lhs.isEquals && rhs.isEquals) = false) :
    ∃ u ∈ names true (binary .EqualsLambda lhs rhs) n p hash,
      Wrong (binary .EqualsLambda lhs rhs) n p u := by
  have hsize : lhs.isLeaf = false ∨ rhs.isLeaf = false → lhs.size + rhs.size ≠ 2 := by
    have := lhs.size_pos
    have := rhs.size_pos
    intro hk
    rcases hk with hk | hk <;> have := one_lt_size hk <;> omega
  have hboth : lhs.isLeaf = false ∨ rhs.isLeaf = false := by
    rw [← Bool.and_eq_false_iff]
    exact (Bool.or_eq_false_iff.mp h).1
  by_cases hl : ∃ l r, lhs = binary .AndLambda l r
  · -- the left side is extracted under the name that `&&` left
    obtain ⟨l, r, rfl⟩ := hl
    refine ⟨(lastName (binary .AndLambda l r) n, 0 :: p), ?_, label "&&" (n + l.size + r.size),
      (lastName_and l r n).symm, lhs_assigned List.mem_cons_self⟩
    simp only [names, if_true, List.mem_append, List.mem_cons, true_or, or_true]
  by_cases hr : ∃ l r, rhs = binary .AndLambda l r
  · obtain ⟨l, r, rfl⟩ := hr
    refine ⟨(lastName (binary .AndLambda l r) (n + lhs.size), 1 :: p), ?_,
      label "&&" (n + lhs.size + l.size + r.size), (lastName_and l r _).symm,
      rhs_assigned List.mem_cons_self⟩
    simp only [names, if_true, List.mem_append, List.mem_cons, true_or, or_true]
  -- one of the two hands the predicted name to the hash
  refine ⟨(label "==" (n + 2), p), ?_, predicted_wrong (hsize hboth)⟩
  simp only [names, if_true, List.mem_append]
  rcases Bool.and_eq_false_iff.mp (Bool.or_eq_false_iff.mp h).2 with he | he
  · exact Or.inl (hash_subset he (fun l r hlr => hl ⟨l, r, hlr⟩) List.mem_cons_self)
  · exact Or.inr (Or.inl (hash_subset he (fun l r hlr => hr ⟨l, r, hlr⟩) List.mem_cons_self))

theorem names_wrong (h : t.equalsPaired = false) (n : Nat) (p : NodePath) (hash : LambdaMap) :
    ∃ u ∈ names true t n p hash, Wrong t n p u := by
  induction t generalizing n p hash with
  | leaf o => cases h
  | DereferenceLambda input ih =>
    obtain ⟨u, hu, name, hne, hin⟩ := ih h n (0 :: p) []
    exact ⟨u, List.mem_append_left _ hu, name, hne, input_assigned hin⟩
  | binary o lhs rhs ihl ihr =>
    -- a wrong name below stays wrong
    have hleft (l : LambdaMap) (hx : lhs.equalsPaired = false) :
        ∃ u ∈ names true lhs n (0 :: p) l, Wrong (binary o lhs rhs) n p u := by
      obtain ⟨u, hu, name, hne, hin⟩ := ihl hx n (0 :: p) l
      exact ⟨u, hu, name, hne, lhs_assigned hin⟩
    have hright (l : LambdaMap) (hx : rhs.equalsPaired = false) :
        ∃ u ∈ names true rhs (n + lhs.size) (1 :: p) l, Wrong (binary o lhs rhs) n p u := by
      obtain ⟨u, hu, name, hne, hin⟩ := ihr hx (n + lhs.size) (1 :: p) l
      exact ⟨u, hu, name, hne, rhs_assigned hin⟩
    cases o with
    | AndLambda =>
      rcases Bool.and_eq_false_iff.mp h with hx | hx
      · obtain ⟨u, hu, hw⟩ := hleft [] hx
        exact ⟨u, List.mem_append_left _ hu, hw⟩
      · obtain ⟨u, hu, hw⟩ := hright [] hx
        exact ⟨u, List.mem_append_right _ hu, hw⟩
    | EqualsLambda =>
      rcases Bool.and_eq_false_iff.mp h with hx | hx
      · rcases Bool.and_eq_false_iff.mp hx with hk | hx
        · exact equals_wrong hk
        · obtain ⟨u, hu, hw⟩ := hleft [(label "==" (n + 2), p)] hx
          exact ⟨u, List.mem_append_left _ hu, hw⟩
      · obtain ⟨u, hu, hw⟩ := hright [(label "==" (n + 2), p)] hx
        exact ⟨u, List.mem_append_right _ (List.mem_append_left _ hu), hw⟩

end GenericLambdaObject

namespace LambdaComputation.Computation
open GenericLambdaObject
variable {x : Computation} {computationLabel : Nat} {inputs : List InputTupleSetSpecifier}
  {text : List Statement} {first second : GenericLambdaObject} {c : Naming}

/-- every lambda name of the text is a key of the map, which holds the node that the statement is for,
and no two nodes have one name -/
def NamesDenote (x : Computation) (text : List Statement) : Prop :=
  (∀ s ∈ text, s.lambdaNameAndLabel ≠ "" →
    x.extractLambdas.lookup s.lambdaNameAndLabel = some s.subject) ∧
  (x.extractLambdas.map Prod.fst).Nodup

instance (x : Computation) (text : List Statement) : Decidable (NamesDenote x text) :=
  inferInstanceAs (Decidable (_ ∧ _))

/-- only a join hands the name of a parent on; where it has a text, the children of every `==` are both
leaves or both `==` -/
def EqualsFit (x : Computation) (inputs : List InputTupleSetSpecifier) : Prop :=
  match x with
  | JoinComp numInputs selection projection =>
    inputs.length = numInputs → selection.equalsPaired = true ∧ projection.equalsPaired = true
  | _ => True

/-! ## The map -/

/-- the lambdas, the second one only where there is one -/
def lambdas : Computation → GenericLambdaObject × Option GenericLambdaObject
  | SelectionComp selection projection => (selection, some projection)
  | MultiSelectionComp selection projection => (selection, some projection)
  | AggregateComp key value => (key, some value)
  | ClusterAggregateComp key value => (key, some value)
  | PartitionComp projection => (projection, none)
  | JoinComp _ selection projection => (selection, some projection)

/-- the nodes of all lambdas with their names -/
def allAssigned (first : GenericLambdaObject) (second : Option GenericLambdaObject) : LambdaMap :=
  second.elim [] (·.assigned [1] first.size) ++ first.assigned [0] 0

theorem extractLambdas_eq (x : Computation) :
    x.extractLambdas = allAssigned x.lambdas.1 x.lambdas.2 := by
  have htwo (first second : GenericLambdaObject) :
      twoLambdasToMap first second = allAssigned first (some second) := by
    unfold twoLambdasToMap
    simp only [traverse_eq, List.append_nil, Nat.zero_add]
    rfl
  cases x with
  | PartitionComp projection =>
    show (projection.traverse [] [0] 0).1 = _
    rw [traverse_eq, List.append_nil]
    rfl
  | _ => exact htwo _ _

theorem allAssigned_oneToOne (first : GenericLambdaObject) (second : Option GenericLambdaObject) :
    OneToOne (allAssigned first second) := by
  cases second with
  | none => exact assigned_oneToOne [0] first 0
  | some second =>
    have h2 := assigned_oneToOne [1] second (0 + first.size)
    have h := OneToOne.children (i := 0) (j := 1) (by decide) (assigned_oneToOne [0] first 0) h2
    rwa [Nat.zero_add] at h

/-! ## The text -/

/-- the names of the text of all lambdas -/
def allNames (inJoin : Bool) (first : GenericLambdaObject) (second : Option GenericLambdaObject) :
    LambdaMap :=
  names inJoin first 0 [0] [] ++ second.elim [] fun t => names inJoin t first.size [1] []

theorem statement_use (c : Naming) (a : String) (b : List String) (op : String) (i : StatementInput) :
    (statement c a b op i).use = [] :=
  Statement.use_unnamed rfl

theorem filterAndProject_uses {input : InputTupleSetSpecifier} {out : LambdaText}
    (h : filterAndProject c first second input = some out) :
    uses out.text = allNames false first (some second) := by
  obtain ⟨sel, hs, h⟩ := Option.bind_eq_some_iff.mp h
  simp only at h
  split at h
  · cases h
  obtain ⟨proj, hp, h⟩ := Option.bind_eq_some_iff.mp h
  obtain rfl := Option.some.inj h
  obtain ⟨h1, h2, -⟩ := toTCAPString_names hs
  obtain ⟨h3, -⟩ := toTCAPString_names hp
  show uses (sel.text ++ [_] ++ proj.text) = _
  rw [uses_append, uses_append, h1, h3, h2, uses_cons, statement_use, Nat.zero_add]
  simp only [uses_nil, List.append_nil]
  rfl

theorem aggregate_uses {input : InputTupleSetSpecifier} {columns applied : LambdaText → List String}
    {a b : String} {f : Refs → String}
    (h : aggregate c first second input columns applied a b f = some text) :
    uses text = allNames false first (some second) := by
  obtain ⟨k, hk, h⟩ := Option.bind_eq_some_iff.mp h
  obtain ⟨v, hv, h⟩ := Option.bind_eq_some_iff.mp h
  obtain rfl := Option.some.inj h
  obtain ⟨h1, h2, -⟩ := toTCAPString_names hk
  obtain ⟨h3, -⟩ := toTCAPString_names hv
  rw [uses_append, uses_append, h1, h3, h2, uses_cons, statement_use, Nat.zero_add]
  simp only [uses_nil, List.append_nil]
  rfl

theorem JoinComp.toTCAPString_uses (h : JoinComp.toTCAPString c first second inputs = some text) :
    uses text = allNames true first (some second) := by
  obtain ⟨multiInputs, -, h⟩ := Option.bind_eq_some_iff.mp h
  obtain ⟨sel, hs, h⟩ := Option.bind_eq_some_iff.mp h
  obtain ⟨proj, hp, h⟩ := Option.bind_eq_some_iff.mp h
  obtain rfl := Option.some.inj h
  obtain ⟨h1, h2, h3⟩ := toTCAPString_names hs
  obtain ⟨h4, -⟩ := toTCAPString_names hp
  have hjoin : (sel.refs.multiInputsComp.map fun b =>
      (⟨b.inputs.map ({ · with inputColumns := [] })⟩ : MultiInputsBase)).isSome = true := by
    rw [Option.isSome_map, h3]
    rfl
  rw [uses_append, h1, h4, h2, hjoin, Nat.zero_add]
  rfl

/-- whether the inputs of a computation come through `MultiInputsBase` -/
def isJoin : Computation → Bool
  | JoinComp _ _ _ => true
  | _ => false

/-- whether the number of inputs is one that a text is generated for -/
def accepts (inputs : List InputTupleSetSpecifier) : Computation → Bool
  | JoinComp numInputs _ _ => inputs.length == numInputs
  | _ => !inputs.isEmpty

theorem toTCAPString_uses (h : x.toTCAPString computationLabel inputs = some text) :
    uses text = if x.accepts inputs then allNames x.isJoin x.lambdas.1 x.lambdas.2 else [] := by
  have hone {f : InputTupleSetSpecifier → Option (List Statement)} {l : LambdaMap}
      (hf : ∀ input, f input = some text → uses text = l)
      (hi : toTCAPString.oneInput inputs f = some text) :
      uses text = if !inputs.isEmpty then l else [] := by
    cases inputs with
    | nil =>
      obtain rfl := Option.some.inj hi
      rfl
    | cons input inputs => exact hf input hi
  cases x with
  | SelectionComp selection projection =>
    apply hone _ h
    intro input hi
    obtain ⟨out, ho, hi⟩ := Option.bind_eq_some_iff.mp hi
    obtain rfl := Option.some.inj hi
    exact filterAndProject_uses ho
  | MultiSelectionComp selection projection =>
    apply hone _ h
    intro input hi
    obtain ⟨out, ho, hi⟩ := Option.bind_eq_some_iff.mp hi
    obtain rfl := Option.some.inj hi
    rw [uses_append, filterAndProject_uses ho, uses_cons, statement_use]
    exact List.append_nil _
  | AggregateComp key value =>
    apply hone _ h
    intro input hi
    unfold AggregateComp.toTCAPString at hi
    exact aggregate_uses hi
  | ClusterAggregateComp key value =>
    apply hone _ h
    intro input hi
    unfold ClusterAggregateComp.toTCAPString at hi
    exact aggregate_uses hi
  | PartitionComp projection =>
    apply hone _ h
    intro input hi
    obtain ⟨proj, hp, hi⟩ := Option.bind_eq_some_iff.mp hi
    obtain ⟨column, -, hi⟩ := Option.bind_eq_some_iff.mp hi
    obtain rfl := Option.some.inj hi
    rw [uses_append, (toTCAPString_names hp).1, uses_cons, statement_use]
    rfl
  | JoinComp numInputs selection projection =>
    show uses text = if inputs.length == numInputs then _ else _
    simp only [toTCAPString] at h
    split at h
    · next hl =>
      rw [if_pos (beq_iff_eq.mpr hl)]
      exact JoinComp.toTCAPString_uses h
    · next hl =>
      rw [if_neg (fun hb => hl (beq_iff_eq.mp hb))]
      obtain rfl := Option.some.inj h
      rfl

/-! ## The claim about a text -/

theorem uses_mem {u : String × NodePath} :
    u ∈ uses text ↔ ∃ s ∈ text, s.lambdaNameAndLabel ≠ "" ∧ (s.lambdaNameAndLabel, s.subject) = u := by
  unfold uses
  rw [List.mem_flatMap]
  refine exists_congr fun s => and_congr_right fun _ => ?_
  unfold Statement.use
  split
  · next h => exact ⟨fun hu => (nomatch hu), fun hu => absurd h hu.1⟩
  · next h =>
    rw [List.mem_singleton]
    exact ⟨fun hu => ⟨h, hu.symm⟩, fun hu => hu.2.symm⟩

/-- the names of a map differ, so that the names of a text are right if all of them are in the map -/
theorem namesDenote_iff_subset (x : Computation) (text : List Statement) :
    NamesDenote x text ↔ uses text ⊆ x.extractLambdas := by
  have hone : OneToOne x.extractLambdas := by
    rw [extractLambdas_eq]
    exact allAssigned_oneToOne _ _
  constructor
  · rintro ⟨h, -⟩ u hu
    obtain ⟨s, hs, hne, rfl⟩ := uses_mem.mp hu
    exact hone.lookup_iff.mp (h s hs hne)
  · intro h
    refine ⟨fun s hs hne => hone.lookup_iff.mpr (h (uses_mem.mpr ⟨s, hs, hne, rfl⟩)), hone.names⟩

theorem allNames_right {second : Option GenericLambdaObject} {inJoin : Bool}
    (h1 : inJoin = true → first.equalsPaired = true)
    (h2 : inJoin = true → ∀ t ∈ second, t.equalsPaired = true) :
    allNames inJoin first second ⊆ allAssigned first second := by
  intro u hu
  rcases List.mem_append.mp hu with hu | hu
  · exact List.mem_append_right _ ((names_right h1 hu).resolve_left List.not_mem_nil)
  · cases second with
    | none => cases hu
    | some second =>
      have hr := names_right (fun hj => h2 hj second rfl) hu
      exact List.mem_append_left _ (hr.resolve_left List.not_mem_nil)

/-- a name that is wrong in its own tree is not in the map -/
theorem not_subset_of_wrong {second : Option GenericLambdaObject} {u : String × NodePath} {name : String}
    (hu : u ∈ allNames true first second) (hne : name ≠ u.1)
    (hin : (name, u.2) ∈ allAssigned first second) :
    ¬ allNames true first second ⊆ allAssigned first second := by
  intro hsub
  exact hne ((allAssigned_oneToOne first second).name_eq hin (hsub hu))

theorem allNames_wrong (h : first.equalsPaired = false ∨ second.equalsPaired = false) :
    ¬ allNames true first (some second) ⊆ allAssigned first (some second) := by
  rcases h with h | h
  · obtain ⟨u, hu, name, hne, hin⟩ := names_wrong h 0 [0] []
    exact not_subset_of_wrong (List.mem_append_left _ hu) hne (List.mem_append_right _ hin)
  · obtain ⟨u, hu, name, hne, hin⟩ := names_wrong h first.size [1] []
    exact not_subset_of_wrong (List.mem_append_right _ hu) hne (List.mem_append_left _ hin)

/-- the names in a text denote the right lambdas exactly where the `==` of a join have children of
one kind -/
theorem namesDenote_iff (h : x.toTCAPString computationLabel inputs = some text) :
    NamesDenote x text ↔ EqualsFit x inputs := by
  rw [namesDenote_iff_subset, toTCAPString_uses h, extractLambdas_eq]
  by_cases hacc : x.accepts inputs = true
  · rw [if_pos hacc]
    cases x with
    | JoinComp numInputs selection projection =>
      have hl : inputs.length = numInputs := beq_iff_eq.mp hacc
      constructor
      · intro hsub _
        by_contra hnot
        rw [not_and_or, Bool.not_eq_true, Bool.not_eq_true] at hnot
        exact allNames_wrong hnot hsub
      · intro hfit
        obtain ⟨h1, h2⟩ := hfit hl
        apply allNames_right (fun _ => h1)
        intro _ t ht
        rwa [Option.some.inj ht] at h2
    | _ =>
      exact iff_of_true (allNames_right (fun hj => nomatch hj) (fun hj => nomatch hj)) trivial
  · rw [if_neg hacc]
    refine iff_of_true (List.nil_subset _) ?_
    cases x with
    | JoinComp numInputs selection projection =>
      intro hl
      exact absurd (beq_iff_eq.mpr hl) hacc
    | _ => trivial

/-- the inputs of a join of two sets -/
def twoInputs : List InputTupleSetSpecifier := [⟨"A", ["in0"], ["in0"]⟩, ⟨"B", ["in1"], ["in1"]⟩]

/-- a join on `predicate` with a native lambda over both inputs as projection -/
def joinOn (predicate : GenericLambdaObject) : Computation :=
  JoinComp 2 predicate (leaf (.CPlusPlusLambda 0 [1]))

/-- `in0.a == in1.b` -/
def plainEquals : GenericLambdaObject :=
  binary .EqualsLambda (leaf (.AttAccessLambda "a" 0)) (leaf (.AttAccessLambda "b" 1))

/-- `in0.c == (in0.a == in1.b)` -/
def nestedEquals : GenericLambdaObject :=
  binary .EqualsLambda (leaf (.AttAccessLambda "c" 0)) plainEquals

theorem joinOn_plainEquals_some : ((joinOn plainEquals).toTCAPString 0 twoInputs).isSome = true := by
  decide

theorem joinOn_nestedEquals_some : ((joinOn nestedEquals).toTCAPString 0 twoInputs).isSome = true := by
  decide

theorem namesDenote_plainEquals :
    NamesDenote (joinOn plainEquals) (Option.get _ joinOn_plainEquals_some) ↔
      EqualsFit (joinOn plainEquals) twoInputs :=
  namesDenote_iff (Option.some_get joinOn_plainEquals_some).symm

/-- the hash of `in0.c` names `==_2`, and the map has `==_3` and `==_4` -/
theorem namesDenote_not_always :
    ∃ text, (joinOn nestedEquals).toTCAPString 0 twoInputs = some text ∧
      ¬ NamesDenote (joinOn nestedEquals) text := by
  refine ⟨Option.get _ joinOn_nestedEquals_some, (Option.some_get joinOn_nestedEquals_some).symm, ?_⟩
  decide

end LambdaComputation.Computation
end Netsdb
