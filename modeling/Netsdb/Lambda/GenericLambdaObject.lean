import Mathlib.Data.List.Nodup
import Netsdb.Lib.Label

/-!
# Lambda trees and the names of their nodes

A computation keeps its lambdas as trees.  A node is known by its path: the children to take, from
the node up to the root, and the number of the lambda last.

* `GenericLambdaObject`   the tree;
* `traverse`              post-order, every node under its type and number;
* `assigned`              what `traverse` writes to the map, in order;
* `OneToOne`              no name is given twice, and every node has one; then the map holds
                          exactly these names.
-/

set_option linter.unusedSectionVars false

namespace Netsdb
open Label

/-- the classes without children; a lambda over the inputs of a computation knows their indexes -/
inductive Leaf where
  | AttAccessLambda (attName : String) (inputIndex : Nat)
  | MethodCallLambda (methodName : String) (inputIndex : Nat)
  | SelfLambda (inputIndex : Nat)
  | CPlusPlusLambda (inputIndex : Nat) (otherIndexes : List Nat)
  deriving DecidableEq, Repr

/-- the classes with two children -/
inductive Binary where
  | EqualsLambda
  | AndLambda
  deriving DecidableEq, Repr

inductive GenericLambdaObject where
  | leaf (o : Leaf)
  | DereferenceLambda (input : GenericLambdaObject)
  | binary (o : Binary) (lhs rhs : GenericLambdaObject)
  deriving DecidableEq, Repr

def Leaf.getTypeOfLambda : Leaf → String
  | AttAccessLambda _ _ => "attAccess"
  | MethodCallLambda _ _ => "methodCall"
  | SelfLambda _ => "self"
  | CPlusPlusLambda _ _ => "native_lambda"

def Leaf.getInputIndexes : Leaf → List Nat
  | AttAccessLambda _ i => [i]
  | MethodCallLambda _ i => [i]
  | SelfLambda i => [i]
  | CPlusPlusLambda i is => i :: is

/-- `getInputIndex(0)` -/
def Leaf.getInputIndex : Leaf → Nat
  | AttAccessLambda _ i => i
  | MethodCallLambda _ i => i
  | SelfLambda i => i
  | CPlusPlusLambda i _ => i

def Binary.getTypeOfLambda : Binary → String
  | EqualsLambda => "=="
  | AndLambda => "&&"

namespace GenericLambdaObject
variable {t : GenericLambdaObject} {n : Nat}

def getTypeOfLambda : GenericLambdaObject → String
  | leaf o => o.getTypeOfLambda
  | DereferenceLambda _ => "deref"
  | binary o _ _ => o.getTypeOfLambda

/-- `getInputIndex(0)`: the constructors of `==` and `&&` copy it from the left child -/
def getInputIndex : GenericLambdaObject → Nat
  | leaf o => o.getInputIndex
  | DereferenceLambda input => input.getInputIndex
  | binary _ lhs _ => lhs.getInputIndex

def size : GenericLambdaObject → Nat
  | leaf _ => 1
  | DereferenceLambda input => input.size + 1
  | binary _ lhs rhs => lhs.size + rhs.size + 1

theorem size_pos (t : GenericLambdaObject) : 0 < t.size := by
  cases t <;> simp only [size] <;> omega

end GenericLambdaObject

abbrev NodePath := List Nat

/-- a `std::map` from names to nodes, the newest assignment first -/
abbrev LambdaMap := List (String × NodePath)

namespace GenericLambdaObject
variable {t : GenericLambdaObject} {n m : Nat} {p q : NodePath} {name : String}

def traverse (fillMe : LambdaMap) (path : NodePath) :
    GenericLambdaObject → Nat → LambdaMap × Nat
  | leaf o, startLabel => ((label o.getTypeOfLambda startLabel, path) :: fillMe, startLabel + 1)
  | DereferenceLambda input, startLabel =>
    let (fillMe, startLabel) := traverse fillMe (0 :: path) input startLabel
    ((label "deref" startLabel, path) :: fillMe, startLabel + 1)
  | binary o lhs rhs, startLabel =>
    let (fillMe, startLabel) := traverse fillMe (0 :: path) lhs startLabel
    let (fillMe, startLabel) := traverse fillMe (1 :: path) rhs startLabel
    ((label o.getTypeOfLambda startLabel, path) :: fillMe, startLabel + 1)

/-- the assignments of `traverse`, the newest first -/
def assigned (path : NodePath) : GenericLambdaObject → Nat → LambdaMap
  | leaf o, n => [(label o.getTypeOfLambda n, path)]
  | DereferenceLambda input, n =>
    (label "deref" (n + input.size), path) :: input.assigned (0 :: path) n
  | binary o lhs rhs, n =>
    (label o.getTypeOfLambda (n + lhs.size + rhs.size), path) ::
      (rhs.assigned (1 :: path) (n + lhs.size) ++ lhs.assigned (0 :: path) n)

theorem traverse_eq (fillMe : LambdaMap) (p : NodePath) (t : GenericLambdaObject) (n : Nat) :
    t.traverse fillMe p n = (t.assigned p n ++ fillMe, n + t.size) := by
  induction t generalizing fillMe p n with
  | leaf o => rfl
  | DereferenceLambda input ih =>
    show ((label "deref" (input.traverse fillMe (0 :: p) n).2, p) ::
      (input.traverse fillMe (0 :: p) n).1, (input.traverse fillMe (0 :: p) n).2 + 1) = _
    rw [ih]
    rfl
  | binary o lhs rhs ihl ihr =>
    simp only [traverse, assigned, ihl, ihr, size, List.cons_append, List.append_assoc,
      Nat.add_assoc]

/-- the root comes last and takes the last number -/
theorem root_assigned (p : NodePath) (t : GenericLambdaObject) (n : Nat) :
    (label t.getTypeOfLambda (n + t.size - 1), p) ∈ t.assigned p n := by
  cases t with
  | leaf o => exact List.mem_singleton.mpr rfl
  | DereferenceLambda input => exact List.mem_cons_self
  | binary o lhs rhs =>
    have hn : n + (binary o lhs rhs).size - 1 = n + lhs.size + rhs.size := by
      simp only [size]
      omega
    rw [hn]
    exact List.mem_cons_self

/-- the numbers of a tree are those from the first to the size -/
theorem label_of_assigned (h : (name, q) ∈ t.assigned p n) :
    ∃ type k, name = label type k ∧ n ≤ k ∧ k < n + t.size := by
  induction t generalizing p n with
  | leaf o =>
    obtain ⟨rfl, rfl⟩ := Prod.mk.inj (List.mem_singleton.mp h)
    exact ⟨_, n, rfl, le_rfl, Nat.lt_succ_self n⟩
  | DereferenceLambda input ih =>
    rcases List.mem_cons.mp h with h | h
    · obtain ⟨rfl, rfl⟩ := Prod.mk.inj h
      exact ⟨_, _, rfl, Nat.le_add_right _ _, by simp only [size]; omega⟩
    · obtain ⟨type, k, rfl, h1, h2⟩ := ih h
      exact ⟨type, k, rfl, h1, by simp only [size]; omega⟩
  | binary o lhs rhs ihl ihr =>
    rcases List.mem_cons.mp h with h | h
    · obtain ⟨rfl, rfl⟩ := Prod.mk.inj h
      exact ⟨_, _, rfl, by omega, by simp only [size]; omega⟩
    rcases List.mem_append.mp h with h | h
    · obtain ⟨type, k, rfl, h1, h2⟩ := ihr h
      exact ⟨type, k, rfl, by omega, by simp only [size]; omega⟩
    · obtain ⟨type, k, rfl, h1, h2⟩ := ihl h
      exact ⟨type, k, rfl, h1, by simp only [size]; omega⟩

/-- the nodes of a tree are at or below its root -/
theorem suffix_of_assigned (h : (name, q) ∈ t.assigned p n) : p <:+ q := by
  induction t generalizing p n with
  | leaf o =>
    obtain ⟨rfl, rfl⟩ := Prod.mk.inj (List.mem_singleton.mp h)
    exact List.suffix_rfl
  | DereferenceLambda input ih =>
    rcases List.mem_cons.mp h with h | h
    · obtain ⟨rfl, rfl⟩ := Prod.mk.inj h
      exact List.suffix_rfl
    · exact (List.suffix_cons 0 p).trans (ih h)
  | binary o lhs rhs ihl ihr =>
    rcases List.mem_cons.mp h with h | h
    · obtain ⟨rfl, rfl⟩ := Prod.mk.inj h
      exact List.suffix_rfl
    rcases List.mem_append.mp h with h | h
    · exact (List.suffix_cons 1 p).trans (ihr h)
    · exact (List.suffix_cons 0 p).trans (ihl h)

/-- no two nodes have one name, and no node has two -/
structure OneToOne (m : LambdaMap) : Prop where
  names : (m.map Prod.fst).Nodup
  nodes : (m.map Prod.snd).Nodup

theorem OneToOne.cons {m : LambdaMap} (h : OneToOne m) (hn : ∀ e ∈ m, e.1 ≠ name)
    (hp : ∀ e ∈ m, e.2 ≠ q) : OneToOne ((name, q) :: m) := by
  refine ⟨List.nodup_cons.mpr ⟨fun hm => ?_, h.names⟩, List.nodup_cons.mpr ⟨fun hm => ?_, h.nodes⟩⟩
  · obtain ⟨e, he, heq⟩ := List.mem_map.mp hm
    exact hn e he heq
  · obtain ⟨e, he, heq⟩ := List.mem_map.mp hm
    exact hp e he heq

theorem OneToOne.append {m m' : LambdaMap} (h : OneToOne m) (h' : OneToOne m')
    (hn : ∀ e ∈ m, ∀ e' ∈ m', e.1 ≠ e'.1) (hp : ∀ e ∈ m, ∀ e' ∈ m', e.2 ≠ e'.2) :
    OneToOne (m ++ m') := by
  refine ⟨?_, ?_⟩
  · rw [List.map_append, List.nodup_append]
    refine ⟨h.names, h'.names, fun a ha b hb => ?_⟩
    obtain ⟨e, he, rfl⟩ := List.mem_map.mp ha
    obtain ⟨e', he', rfl⟩ := List.mem_map.mp hb
    exact hn e he e' he'
  · rw [List.map_append, List.nodup_append]
    refine ⟨h.nodes, h'.nodes, fun a ha b hb => ?_⟩
    obtain ⟨e, he, rfl⟩ := List.mem_map.mp ha
    obtain ⟨e', he', rfl⟩ := List.mem_map.mp hb
    exact hp e he e' he'

/-- a node of a tree below `i` is not the root above -/
theorem ne_of_below {i : Nat} (h : (name, q) ∈ t.assigned (i :: p) n) : q ≠ p := by
  intro hq
  have hl := (suffix_of_assigned h).length_le
  rw [hq, List.length_cons] at hl
  omega

/-- a number from the size of the tree on is not used in it -/
theorem ne_of_number {type : String} {k : Nat} (h : (name, q) ∈ t.assigned p n)
    (hk : n + t.size ≤ k) : name ≠ label type k := by
  intro hname
  obtain ⟨type', k', rfl, -, hlt⟩ := label_of_assigned h
  have := (label_inj hname).2
  omega

/-- two trees that are numbered one after the other, below different children -/
theorem OneToOne.children {l r : GenericLambdaObject} {i j : Nat} (hij : i ≠ j)
    (hl : OneToOne (l.assigned (i :: p) n)) (hr : OneToOne (r.assigned (j :: p) (n + l.size))) :
    OneToOne (r.assigned (j :: p) (n + l.size) ++ l.assigned (i :: p) n) := by
  apply hr.append hl
  · intro e he e' he' hname
    obtain ⟨type, k, hk, hle, -⟩ := label_of_assigned he
    rw [hk] at hname
    exact ne_of_number he' hle hname.symm
  · intro e he e' he' hnode
    have h1 := suffix_of_assigned he
    have h2 := suffix_of_assigned he'
    rw [← hnode] at h2
    have hs := (List.suffix_of_suffix_length_le h2 h1 (by simp only [List.length_cons, le_rfl]))
    have heq := hs.eq_of_length (by simp only [List.length_cons])
    exact hij (List.cons.inj heq).1

theorem assigned_oneToOne (p : NodePath) (t : GenericLambdaObject) (n : Nat) :
    OneToOne (t.assigned p n) := by
  induction t generalizing p n with
  | leaf o => exact ⟨List.nodup_singleton _, List.nodup_singleton _⟩
  | DereferenceLambda input ih =>
    apply (ih (0 :: p) n).cons
    · exact fun e he => ne_of_number he le_rfl
    · exact fun e he => ne_of_below he
  | binary o lhs rhs ihl ihr =>
    apply OneToOne.cons (OneToOne.children (by decide) (ihl (0 :: p) n) (ihr (1 :: p) _))
    · intro e he
      rcases List.mem_append.mp he with he | he
      · exact ne_of_number he (by omega)
      · exact ne_of_number he (by omega)
    · intro e he
      rcases List.mem_append.mp he with he | he
      · exact ne_of_below he
      · exact ne_of_below he

/-- where the names differ, the map holds what was assigned -/
theorem OneToOne.lookup_iff {m : LambdaMap} (h : OneToOne m) :
    m.lookup name = some q ↔ (name, q) ∈ m := by
  induction m with
  | nil => exact ⟨fun hq => (nomatch hq), fun hq => (nomatch hq)⟩
  | cons e m ih =>
    obtain ⟨hn, hm⟩ := List.nodup_cons.mp h.names
    have ih' := ih ⟨hm, (List.nodup_cons.mp h.nodes).2⟩
    obtain ⟨name', q'⟩ := e
    by_cases heq : name = name'
    · subst heq
      rw [List.lookup_cons_self]
      constructor
      · intro hq
        rw [Option.some.inj hq]
        exact List.mem_cons_self
      · intro hq
        rcases List.mem_cons.mp hq with hq | hq
        · rw [(Prod.mk.inj hq).2]
        · exact absurd (List.mem_map_of_mem hq) hn
    · rw [List.lookup_cons, beq_false_of_ne heq, ih', List.mem_cons]
      exact ⟨Or.inr, fun hq => hq.resolve_left fun he => heq (Prod.mk.inj he).1⟩

/-- a node has one name -/
theorem OneToOne.name_eq {m : LambdaMap} {name' : String} (h : OneToOne m) (h1 : (name, q) ∈ m)
    (h2 : (name', q) ∈ m) : name = name' :=
  congrArg Prod.fst (List.inj_on_of_nodup_map h.nodes h1 h2 rfl)

end GenericLambdaObject
end Netsdb
