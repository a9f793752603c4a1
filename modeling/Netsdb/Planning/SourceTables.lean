import Netsdb.Planning.TCAPAnalyzer
import Netsdb.Lib.Stepwise

/-!
# The tables of the sources that are left

The planner knows a source by the name of its set, and keeps the names, the sets, the source nodes of a
set and the number of their consumers that are done in four tables.

* `SourceTables.removeSource`, `updateSourceSets`   what changes them, with what is returned;
* `SourceTables.Of`         these are the tables of the analyzer's model;
* `SourceTables.Right`      the tables have the same names, and each removal returned whether it removed;
* `PlannerCall.Sound`       a set comes in with a name that is not there, and its last node does not go;
* `right_iff`               a run is right all along just if each of its calls is of this kind.
-/

set_option linter.unusedSectionVars false

namespace Netsdb

/-- a call of `removeSource`: has it removed a source node, and what does it return; `none`: a variable
that has not been set -/
structure Removal where
  removed : Bool
  ret : Option Bool
deriving DecidableEq

structure SourceTables where
  curSourceSetNames : List String
  curSourceSets : String → Option SetIdentifier
  curSourceNodes : String → Option (List AtomicComputation)
  curProcessedConsumers : String → Option Nat
  penalizedSourceSets : List String
  /-- the calls of `removeSource` so far -/
  removals : List Removal

namespace SourceTables

/-! ## The two functions -/

/-- the first source node of a set -/
def popNode (t : SourceTables) (oldSetName : String) : SourceTables :=
  match t.curSourceNodes oldSetName with
  | some (_ :: nodes) =>
    { t with
      curSourceNodes := Function.update t.curSourceNodes oldSetName (some nodes)
      curProcessedConsumers := Function.update t.curProcessedConsumers oldSetName (some 0) }
  | _ => t

def dropSource (t : SourceTables) (oldSetName : String) : SourceTables :=
  { t with
    curSourceNodes := Function.update t.curSourceNodes oldSetName none
    curSourceSetNames := t.curSourceSetNames.erase oldSetName
    penalizedSourceSets := t.penalizedSourceSets.erase oldSetName
    curSourceSets := Function.update t.curSourceSets oldSetName none
    curProcessedConsumers := Function.update t.curProcessedConsumers oldSetName none }

/-- `ret` is set only where a name is missing -/
def removeSource (t : SourceTables) (oldSetName : String) : SourceTables × Option Bool :=
  let t := t.popNode oldSetName
  match t.curSourceNodes oldSetName with
  | some (_ :: _) => (t, some true)
  | _ =>
    (t.dropSource oldSetName,
      if (t.curSourceSets oldSetName).isSome ∧ (t.curProcessedConsumers oldSetName).isSome then none
      else some false)

/-- the source nodes of a set -/
def pending (t : SourceTables) (name : String) : List AtomicComputation :=
  (t.curSourceNodes name).getD []

/-- a call of `removeSource`, noted -/
def callRemoveSource (t : SourceTables) (oldSetName : String) : SourceTables :=
  let (t', ret) := t.removeSource oldSetName
  let removed := decide ((t'.pending oldSetName).length < (t.pending oldSetName).length)
  { t' with removals := t.removals ++ [{ removed, ret }] }

def addSource (t : SourceTables) (newSet : SetIdentifier) (newNode : AtomicComputation) :
    SourceTables :=
  { t with
    curSourceSetNames := t.curSourceSetNames ++ [newSet.name]
    curSourceSets := Function.update t.curSourceSets newSet.name (some newSet)
    curSourceNodes := Function.update t.curSourceNodes newSet.name
      (some ((t.curSourceNodes newSet.name).getD [] ++ [newNode]))
    curProcessedConsumers := Function.update t.curProcessedConsumers newSet.name
      (some ((t.curProcessedConsumers newSet.name).getD 0)) }

def addNew (t : SourceTables) (new : Option (SetIdentifier × AtomicComputation)) : SourceTables :=
  new.elim t fun (newSet, newNode) => t.addSource newSet newNode

/-- `map[name]` leaves an entry -/
def touchConsumers (t : SourceTables) (name : String) : SourceTables :=
  { t with
    curProcessedConsumers := Function.update t.curProcessedConsumers name
      (some ((t.curProcessedConsumers name).getD 0)) }

/-- `none`: there is no first node -/
def updateSourceSets (plan : List AtomicComputation) (t : SourceTables) (oldSet : SetIdentifier)
    (new : Option (SetIdentifier × AtomicComputation)) : Option (SourceTables × Bool) :=
  let t := t.addNew new
  match t.curSourceNodes oldSet.name with
  | none => some (t, false)
  | some [] => none
  | some (oldNode :: _) =>
    let t := t.touchConsumers oldSet.name
    if some (consumers plan oldNode.outputName).length = t.curProcessedConsumers oldSet.name then
      some (t.callRemoveSource oldSet.name, true)
    else some (t, true)

def incrementConsumerIndex (t : SourceTables) (name : String) : SourceTables :=
  { t with
    curProcessedConsumers := Function.update t.curProcessedConsumers name
      (some ((t.curProcessedConsumers name).getD 0 + 1)) }

/-- one round of the constructor's loop over the scans: a set that is there gets one more node -/
def addScan (t : SourceTables) (set : SetIdentifier) (node : AtomicComputation) : SourceTables :=
  if set.name ∈ t.curSourceSetNames then
    { t with
      curSourceNodes := Function.update t.curSourceNodes set.name
        (some ((t.curSourceNodes set.name).getD [] ++ [node])) }
  else
    { t with
      curSourceSetNames := t.curSourceSetNames ++ [set.name]
      curSourceSets := Function.update t.curSourceSets set.name (some set)
      curSourceNodes := Function.update t.curSourceNodes set.name
        (some ((t.curSourceNodes set.name).getD [] ++ [node]))
      curProcessedConsumers := Function.update t.curProcessedConsumers set.name (some 0) }

/-- the constructor -/
def ofSources (sources : List (SetIdentifier × AtomicComputation)) : SourceTables :=
  sources.foldl (fun t (set, node) => t.addScan set node)
    { curSourceSetNames := [], curSourceSets := fun _ => none, curSourceNodes := fun _ => none
      curProcessedConsumers := fun _ => none, penalizedSourceSets := [], removals := [] }

end SourceTables

/-- what the planner does with the tables -/
inductive PlannerCall
  | updateSourceSets (oldSet : SetIdentifier) (new : Option (SetIdentifier × AtomicComputation))
  | removeSource (name : String)
  | incrementConsumerIndex (name : String)

def PlannerCall.run (plan : List AtomicComputation) (t : SourceTables) :
    PlannerCall → Option SourceTables
  | updateSourceSets oldSet new => (t.updateSourceSets plan oldSet new).map Prod.fst
  | removeSource name => some (t.callRemoveSource name)
  | incrementConsumerIndex name => some (t.incrementConsumerIndex name)

namespace SourceTables

/-! ## The analyzer's tables -/

/-- these are the analyzer's tables -/
structure Of (t : SourceTables) (s : TCAPAnalyzer) : Prop where
  names : t.curSourceSetNames = s.curSourceSetNames
  sets : t.curSourceSets = s.curSourceSets
  nodes : t.curSourceNodes = s.curSourceNodes
  processed : ∀ name, (t.curProcessedConsumers name).getD 0 = s.curProcessedConsumers name
  penalized : t.penalizedSourceSets = s.penalizedSourceSets

section
variable {t : SourceTables} {s : TCAPAnalyzer} {name : String}

theorem pop_two {node next : AtomicComputation} {nodes : List AtomicComputation}
    (h : t.curSourceNodes name = some (node :: next :: nodes)) :
    t.removeSource name = ({ t with
      curSourceNodes := Function.update t.curSourceNodes name (some (next :: nodes))
      curProcessedConsumers := Function.update t.curProcessedConsumers name (some 0) }, some true) := by
  simp only [SourceTables.removeSource, popNode, h, Function.update_self]

theorem pop_one {node : AtomicComputation} (h : t.curSourceNodes name = some [node]) :
    t.removeSource name =
      (t.dropSource name, if (t.curSourceSets name).isSome then none else some false) := by
  simp only [SourceTables.removeSource, popNode, dropSource, h, Function.update_self,
    Function.update_idem, Option.isSome_some, and_true]

theorem pop_none (h : t.curSourceNodes name = none ∨ t.curSourceNodes name = some []) :
    t.removeSource name = (t.dropSource name,
      if (t.curSourceSets name).isSome ∧ (t.curProcessedConsumers name).isSome then none
      else some false) := by
  rcases h with h | h <;> simp only [SourceTables.removeSource, popNode, h]

/-- no node, an empty list of nodes, one node, more -/
theorem nodes_cases (t : SourceTables) (name : String) :
    (t.curSourceNodes name = none ∨ t.curSourceNodes name = some []) ∨
      (∃ node, t.curSourceNodes name = some [node]) ∨
      ∃ node next nodes, t.curSourceNodes name = some (node :: next :: nodes) := by
  rcases t.curSourceNodes name with - | - | ⟨node, - | ⟨next, nodes⟩⟩
  · exact .inl (.inl rfl)
  · exact .inl (.inr rfl)
  · exact .inr (.inl ⟨node, rfl⟩)
  · exact .inr (.inr ⟨node, next, nodes, rfl⟩)

theorem Of.processed_update (h : t.Of s) {v : Option ℕ} {n : ℕ} (hv : v.getD 0 = n) (k : String) :
    (Function.update t.curProcessedConsumers name v k).getD 0 =
      Function.update s.curProcessedConsumers name n k := by
  by_cases hk : k = name
  · subst hk
    rw [Function.update_self, Function.update_self, hv]
  · rw [Function.update_of_ne hk, Function.update_of_ne hk, h.processed]

theorem dropSource_of (h : t.Of s) (hn : ((t.curSourceNodes name).getD []).tail = []) :
    (t.dropSource name).Of (s.removeSource name) := by
  have hs : s.removeSource name = { s with
      curProcessedConsumers := Function.update s.curProcessedConsumers name 0
      curSourceNodes := Function.update s.curSourceNodes name none
      curSourceSetNames := s.curSourceSetNames.erase name
      penalizedSourceSets := s.penalizedSourceSets.erase name
      curSourceSets := Function.update s.curSourceSets name none } := by
    rw [h.nodes] at hn
    simp only [TCAPAnalyzer.removeSource, hn]
  rw [hs]
  refine ⟨?_, ?_, ?_, fun k => ?_, ?_⟩
  · show t.curSourceSetNames.erase name = _
    rw [h.names]
  · show Function.update t.curSourceSets name none = _
    rw [h.sets]
  · show Function.update t.curSourceNodes name none = _
    rw [h.nodes]
  · exact h.processed_update rfl k
  · show t.penalizedSourceSets.erase name = _
    rw [h.penalized]

theorem Of.removeSource (h : t.Of s) : (t.callRemoveSource name).Of (s.removeSource name) := by
  have hout : (t.removeSource name).1.Of (s.removeSource name) := by
    rcases t.nodes_cases name with hn | ⟨node, hn⟩ | ⟨node, next, nodes, hn⟩
    · rw [pop_none hn]
      refine dropSource_of h ?_
      rcases hn with hn | hn <;> rw [hn] <;> rfl
    · rw [pop_one hn]
      refine dropSource_of h ?_
      rw [hn]
      rfl
    · rw [pop_two hn]
      have hs : s.removeSource name = { s with
          curProcessedConsumers := Function.update s.curProcessedConsumers name 0
          curSourceNodes := Function.update s.curSourceNodes name (some (next :: nodes)) } := by
        rw [h.nodes] at hn
        simp only [TCAPAnalyzer.removeSource, hn, Option.getD_some, List.tail_cons]
      rw [hs]
      refine ⟨h.names, h.sets, ?_, fun k => ?_, h.penalized⟩
      · show Function.update t.curSourceNodes name _ = _
        rw [h.nodes]
      · exact h.processed_update rfl k
  exact ⟨hout.names, hout.sets, hout.nodes, hout.processed, hout.penalized⟩

theorem Of.touchConsumers (h : t.Of s) (name : String) : (t.touchConsumers name).Of s := by
  refine ⟨h.names, h.sets, h.nodes, fun k => ?_, h.penalized⟩
  show (Function.update t.curProcessedConsumers name _ k).getD 0 = _
  rw [h.processed_update (Option.getD_some ..), h.processed, Function.update_eq_self]

theorem Of.addNew (h : t.Of s) (new : Option (SetIdentifier × AtomicComputation)) :
    (t.addNew new).Of (new.elim s fun (newSet, newNode) => s.addSource newSet newNode) := by
  rcases new with - | ⟨newSet, newNode⟩
  · exact h
  · refine ⟨?_, ?_, ?_, fun k => ?_, h.penalized⟩
    · show t.curSourceSetNames ++ _ = s.curSourceSetNames ++ _
      rw [h.names]
    · show Function.update t.curSourceSets _ _ = Function.update s.curSourceSets _ _
      rw [h.sets]
    · show Function.update t.curSourceNodes _ _ = Function.update s.curSourceNodes _ _
      rw [h.nodes]
    · show (Function.update t.curProcessedConsumers _ _ k).getD 0 = s.curProcessedConsumers k
      rw [h.processed_update (Option.getD_some ..), h.processed, Function.update_eq_self]

/-- where the code has a result, the analyzer's model has this one -/
theorem Of.updateSourceSets {q : Query} {oldSet : SetIdentifier}
    {new : Option (SetIdentifier × AtomicComputation)} {t' : SourceTables} {ret : Bool} (h : t.Of s)
    (hrun : t.updateSourceSets q.plan oldSet new = some (t', ret)) :
    t'.Of (s.updateSourceSets q oldSet new) := by
  have hnew := h.addNew new
  have hnodes := hnew.nodes
  rw [SourceTables.updateSourceSets] at hrun
  unfold TCAPAnalyzer.updateSourceSets
  generalize t.addNew new = u at hrun hnew hnodes
  revert hnew hnodes
  generalize (new.elim s fun (newSet, newNode) => s.addSource newSet newNode) = w
  intro hnew hnodes
  show t'.Of (match w.curSourceNodes oldSet.name with
    | some (oldNode :: _) => _
    | _ => w)
  rw [← hnodes]
  rcases hn : u.curSourceNodes oldSet.name with - | - | ⟨oldNode, nodes⟩
  · simp only [hn] at hrun
    cases hrun
    exact hnew
  · simp only [hn] at hrun
    cases hrun
  · simp only [hn] at hrun
    have htouch := hnew.touchConsumers oldSet.name
    have hcount : (u.touchConsumers oldSet.name).curProcessedConsumers oldSet.name =
        some (w.curProcessedConsumers oldSet.name) := by
      show Function.update u.curProcessedConsumers _ _ _ = _
      rw [Function.update_self, hnew.processed]
    rw [hcount] at hrun
    show t'.Of (if _ then _ else _)
    split
    · next hc =>
      rw [if_pos (congrArg some hc)] at hrun
      cases hrun
      exact htouch.removeSource
    · next hc =>
      rw [if_neg fun he => hc (Option.some.inj he)] at hrun
      cases hrun
      exact htouch

end
/-! ## Four tables of the same sources -/

/-- a set is in each table just if it has a source node -/
structure ListedAt (t : SourceTables) (name : String) : Prop where
  names : name ∈ t.curSourceSetNames ↔ t.pending name ≠ []
  sets : (t.curSourceSets name).isSome ↔ t.pending name ≠ []
  nodes : (t.curSourceNodes name).isSome ↔ t.pending name ≠ []
  processed : (t.curProcessedConsumers name).isSome ↔ t.pending name ≠ []
  named : ∀ set, t.curSourceSets name = some set → set.name = name

structure Consistent (t : SourceTables) : Prop where
  nodup : t.curSourceSetNames.Nodup
  listed : ∀ name, t.ListedAt name

/-- and every `removeSource` has said whether it removed a source -/
structure Right (t : SourceTables) : Prop extends Consistent t where
  results : ∀ r ∈ t.removals, r.ret = some r.removed

section
variable {t t' : SourceTables} {name : String}

theorem ListedAt.congr (h : t.ListedAt name)
    (hnames : name ∈ t'.curSourceSetNames ↔ name ∈ t.curSourceSetNames)
    (hsets : t'.curSourceSets name = t.curSourceSets name)
    (hnodes : t'.curSourceNodes name = t.curSourceNodes name)
    (hprocessed : t'.curProcessedConsumers name = t.curProcessedConsumers name) :
    t'.ListedAt name := by
  have hp : t'.pending name = t.pending name := congrArg (Option.getD · []) hnodes
  refine ⟨?_, ?_, ?_, ?_, ?_⟩
  · rw [hnames, hp, h.names]
  · rw [hsets, hp, h.sets]
  · rw [hnodes, hp, h.nodes]
  · rw [hprocessed, hp, h.processed]
  · rw [hsets]
    exact h.named

theorem ListedAt.nodes_none (h : t.ListedAt name) (hp : t.pending name = []) :
    t.curSourceNodes name = none :=
  Option.not_isSome_iff_eq_none.mp fun hs => h.nodes.mp hs hp

theorem ListedAt.nodes_some (h : t.ListedAt name) (hp : t.pending name ≠ []) :
    t.curSourceNodes name = some (t.pending name) := by
  obtain ⟨nodes, hn⟩ := Option.isSome_iff_exists.mp (h.nodes.mpr hp)
  rw [pending, hn]
  rfl

theorem listedAt_absent (hnames : name ∉ t.curSourceSetNames) (hsets : t.curSourceSets name = none)
    (hnodes : t.curSourceNodes name = none) (hprocessed : t.curProcessedConsumers name = none) :
    t.ListedAt name := by
  have hno : ¬ t.pending name ≠ [] := by
    rw [pending, hnodes]
    exact fun hne => hne rfl
  refine ⟨iff_of_false hnames hno, ?_, ?_, ?_, ?_⟩
  · rw [hsets]
    exact iff_of_false Bool.false_ne_true hno
  · rw [hnodes]
    exact iff_of_false Bool.false_ne_true hno
  · rw [hprocessed]
    exact iff_of_false Bool.false_ne_true hno
  · rw [hsets]
    exact fun set hset => nomatch hset

theorem listedAt_present {set : SetIdentifier} {nodes : List AtomicComputation} {n : ℕ}
    (hnames : name ∈ t.curSourceSetNames) (hsets : t.curSourceSets name = some set)
    (hset : set.name = name) (hnodes : t.curSourceNodes name = some nodes) (hne : nodes ≠ [])
    (hprocessed : t.curProcessedConsumers name = some n) : t.ListedAt name := by
  have hp : t.pending name ≠ [] := by
    rw [pending, hnodes]
    exact hne
  refine ⟨iff_of_true hnames hp, ?_, ?_, ?_, ?_⟩
  · rw [hsets]
    exact iff_of_true rfl hp
  · rw [hnodes]
    exact iff_of_true rfl hp
  · rw [hprocessed]
    exact iff_of_true rfl hp
  · rw [hsets]
    exact fun set' hset' => Option.some.inj hset' ▸ hset

/-- what is known of a set with a source node -/
theorem ListedAt.present (h : t.ListedAt name) (hp : t.pending name ≠ []) :
    name ∈ t.curSourceSetNames ∧ (∃ set, t.curSourceSets name = some set ∧ set.name = name) ∧
      t.curSourceNodes name = some (t.pending name) ∧ ∃ n, t.curProcessedConsumers name = some n := by
  obtain ⟨set, hset⟩ := Option.isSome_iff_exists.mp (h.sets.mpr hp)
  exact ⟨h.names.mpr hp, ⟨set, hset, h.named set hset⟩, h.nodes_some hp,
    Option.isSome_iff_exists.mp (h.processed.mpr hp)⟩

theorem Consistent.dropSource (h : t.Consistent) (name : String) :
    (t.dropSource name).Consistent := by
  refine ⟨h.nodup.erase name, fun k => ?_⟩
  by_cases hk : k = name
  · subst hk
    exact listedAt_absent h.nodup.not_mem_erase (Function.update_self ..) (Function.update_self ..)
      (Function.update_self ..)
  · exact (h.listed k).congr (List.mem_erase_of_ne hk) (Function.update_of_ne hk ..)
      (Function.update_of_ne hk ..) (Function.update_of_ne hk ..)

/-- the number of the consumers of a source that are done -/
theorem Consistent.setProcessed (h : t.Consistent) (hp : t.pending name ≠ []) (n : ℕ) :
    Consistent { t with
      curProcessedConsumers := Function.update t.curProcessedConsumers name (some n) } := by
  refine ⟨h.nodup, fun k => ?_⟩
  by_cases hk : k = name
  · subst hk
    obtain ⟨hname, ⟨set, hset, heq⟩, hnodes, -⟩ := (h.listed k).present hp
    exact listedAt_present hname hset heq hnodes hp (Function.update_self ..)
  · exact (h.listed k).congr Iff.rfl rfl rfl (Function.update_of_ne hk ..)

theorem Consistent.addSource (h : t.Consistent) {newSet : SetIdentifier}
    (hnew : newSet.name ∉ t.curSourceSetNames) (newNode : AtomicComputation) :
    (t.addSource newSet newNode).Consistent := by
  refine ⟨?_, fun k => ?_⟩
  · show (t.curSourceSetNames ++ [newSet.name]).Nodup
    rw [List.nodup_append_comm]
    exact List.nodup_cons.mpr ⟨hnew, h.nodup⟩
  · by_cases hk : k = newSet.name
    · subst hk
      exact listedAt_present (List.mem_append_right _ List.mem_cons_self) (Function.update_self ..) rfl
        (Function.update_self ..) (List.append_ne_nil_of_right_ne_nil _ (List.cons_ne_nil _ _))
        (Function.update_self ..)
    · refine (h.listed k).congr ?_ (Function.update_of_ne hk ..) (Function.update_of_ne hk ..)
        (Function.update_of_ne hk ..)
      show k ∈ t.curSourceSetNames ++ _ ↔ _
      rw [List.mem_append, List.mem_singleton, or_iff_left hk]

/-! ## Removal -/

/-- the tables stay in step -/
theorem Consistent.removeSource (h : t.Consistent) (name : String) :
    (t.removeSource name).1.Consistent := by
  rcases t.nodes_cases name with hn | ⟨node, hn⟩ | ⟨node, next, nodes, hn⟩
  · rw [pop_none hn]
    exact h.dropSource name
  · rw [pop_one hn]
    exact h.dropSource name
  · rw [pop_two hn]
    refine ⟨h.nodup, fun k => ?_⟩
    by_cases hk : k = name
    · subst hk
      have hp : t.pending k ≠ [] := by
        rw [pending, hn]
        exact List.cons_ne_nil _ _
      obtain ⟨hname, ⟨set, hset, heq⟩, -, -⟩ := (h.listed k).present hp
      exact listedAt_present hname hset heq (Function.update_self ..) (List.cons_ne_nil _ _)
        (Function.update_self ..)
    · exact (h.listed k).congr Iff.rfl rfl (Function.update_of_ne hk ..) (Function.update_of_ne hk ..)

/-- what is returned where the tables are in step -/
theorem Consistent.removeSource_result (h : t.Consistent) (name : String) :
    (t.removeSource name).2 = match t.pending name with
      | [] => some false
      | [_] => none
      | _ => some true := by
  rcases hp : t.pending name with - | ⟨node, - | ⟨next, nodes⟩⟩
  · have hnone := (h.listed name).nodes_none hp
    rw [pop_none (.inl hnone)]
    exact if_neg fun hs => (h.listed name).sets.mp hs.1 hp
  · have hsome := (h.listed name).nodes_some (hp ▸ List.cons_ne_nil _ _)
    rw [hp] at hsome
    rw [pop_one hsome]
    exact if_pos ((h.listed name).sets.mpr (hp ▸ List.cons_ne_nil _ _))
  · have hsome := (h.listed name).nodes_some (hp ▸ List.cons_ne_nil _ _)
    rw [hp] at hsome
    rw [pop_two hsome]

/-- one node fewer, if there is one -/
theorem pending_removeSource (t : SourceTables) (name : String) :
    (t.removeSource name).1.pending name = (t.pending name).tail := by
  rcases t.nodes_cases name with hn | ⟨node, hn⟩ | ⟨node, next, nodes, hn⟩
  · rw [pop_none hn]
    show (Function.update t.curSourceNodes name none name).getD [] = _
    rw [Function.update_self, pending]
    rcases hn with hn | hn <;> rw [hn] <;> rfl
  · rw [pop_one hn]
    show (Function.update t.curSourceNodes name none name).getD [] = _
    rw [Function.update_self, pending, hn]
    rfl
  · rw [pop_two hn]
    show (Function.update t.curSourceNodes name (some (next :: nodes)) name).getD [] = _
    rw [Function.update_self, pending, hn]
    rfl

theorem Consistent.callRemoveSource (h : t.Consistent) (name : String) :
    (t.callRemoveSource name).Consistent := by
  have hc := h.removeSource name
  exact ⟨hc.nodup, fun k => (hc.listed k).congr Iff.rfl rfl rfl rfl⟩

/-- the last node goes without a result -/
theorem Right.callRemoveSource_iff (h : t.Right) (name : String) :
    (t.callRemoveSource name).Right ↔ ∀ node, t.pending name ≠ [node] := by
  have hres : (t.removeSource name).2 = some (decide (((t.removeSource name).1.pending name).length <
      (t.pending name).length)) ↔ ∀ node, t.pending name ≠ [node] := by
    rw [h.removeSource_result name, pending_removeSource]
    rcases t.pending name with - | ⟨node, - | ⟨next, nodes⟩⟩
    · exact iff_of_true rfl fun node hn => nomatch hn
    · exact iff_of_false (fun hn => nomatch hn) fun hn => hn node rfl
    · refine iff_of_true ?_ fun node hn => nomatch hn
      simp
  rw [← hres]
  constructor
  · intro hr
    exact hr.results _ (List.mem_append_right _ List.mem_cons_self)
  · intro heq
    refine ⟨h.toConsistent.callRemoveSource name, fun r hr => ?_⟩
    rcases List.mem_append.mp hr with hr | hr
    · exact h.results r hr
    · rw [List.mem_singleton.mp hr]
      exact heq

end
end SourceTables

/-! ## Runs -/

/-- a set comes in with a name that is not there, the last source node of a set is not removed, and
only the consumers of a source are counted -/
def PlannerCall.Sound (plan : List AtomicComputation) (t : SourceTables) : PlannerCall → Prop
  | updateSourceSets oldSet new =>
    (∀ p ∈ new, p.1.name ∉ t.curSourceSetNames) ∧
      ∀ node, (t.addNew new).pending oldSet.name = [node] →
        (t.addNew new).curProcessedConsumers oldSet.name ≠
          some (consumers plan node.outputName).length
  | removeSource name => ∀ node, t.pending name ≠ [node]
  | incrementConsumerIndex name => name ∈ t.curSourceSetNames

namespace SourceTables
variable {t t' : SourceTables} {name : String} {plan : List AtomicComputation} {oldSet : SetIdentifier}
  {new : Option (SetIdentifier × AtomicComputation)}

theorem Right.addNew (h : t.Right) (hnew : ∀ p ∈ new, p.1.name ∉ t.curSourceSetNames) :
    (t.addNew new).Right := by
  rcases new with - | ⟨newSet, newNode⟩
  · exact h
  · exact ⟨h.addSource (hnew _ rfl) newNode, h.results⟩

theorem touchConsumers_eq {n : ℕ} (h : t.curProcessedConsumers name = some n) :
    t.touchConsumers name = t := by
  rw [touchConsumers, h]
  show { t with curProcessedConsumers := Function.update _ name (some n) } = t
  rw [← h, Function.update_eq_self]

/-- where the new set has been entered into tables that are in step -/
theorem Consistent.updateSourceSets_eq (h : (t.addNew new).Consistent) :
    t.updateSourceSets plan oldSet new = match (t.addNew new).pending oldSet.name with
      | [] => some (t.addNew new, false)
      | oldNode :: _ =>
        if some (consumers plan oldNode.outputName).length =
            (t.addNew new).curProcessedConsumers oldSet.name then
          some ((t.addNew new).callRemoveSource oldSet.name, true)
        else some (t.addNew new, true) := by
  rw [updateSourceSets]
  generalize t.addNew new = u at h
  rcases hp : u.pending oldSet.name with - | ⟨oldNode, nodes⟩
  · simp only [(h.listed _).nodes_none hp]
  · obtain ⟨-, -, hn, n, hcount⟩ := (h.listed oldSet.name).present (hp ▸ List.cons_ne_nil _ _)
    rw [hp] at hn
    simp only [hn, touchConsumers_eq hcount]

theorem Right.updateSourceSets (h : t.Right)
    (hs : (PlannerCall.updateSourceSets oldSet new).Sound plan t) :
    ∃ t', (PlannerCall.updateSourceSets oldSet new).run plan t = some t' ∧ t'.Right := by
  have hadd := h.addNew hs.1
  show ∃ t', (t.updateSourceSets plan oldSet new).map Prod.fst = some t' ∧ _
  rw [hadd.updateSourceSets_eq]
  rcases hp : (t.addNew new).pending oldSet.name with - | ⟨oldNode, nodes⟩
  · exact ⟨_, rfl, hadd⟩
  · dsimp only
    split
    · next hc =>
      refine ⟨_, rfl, (hadd.callRemoveSource_iff _).mpr fun node hn => ?_⟩
      have heq : oldNode = node := (List.cons.inj (hp.symm.trans hn)).1
      exact hs.2 node hn (heq ▸ hc.symm)
    · exact ⟨_, rfl, hadd⟩

/-- the names that are listed, of a set that is not the last one removed -/
theorem count_removeSource {x : String} (h : x ≠ name ∨ 2 ≤ (t.pending name).length) :
    (t.removeSource name).1.curSourceSetNames.count x = t.curSourceSetNames.count x := by
  have hdrop : (t.pending name).length < 2 →
      (t.dropSource name).curSourceSetNames.count x = t.curSourceSetNames.count x := fun hlt =>
    List.count_erase_of_ne (h.resolve_right (Nat.not_le.mpr hlt))
  rcases t.nodes_cases name with hn | ⟨node, hn⟩ | ⟨node, next, nodes, hn⟩
  · rw [pop_none hn]
    refine hdrop ?_
    rw [pending]
    rcases hn with hn | hn <;> rw [hn] <;> exact Nat.zero_lt_two
  · rw [pop_one hn]
    refine hdrop ?_
    rw [pending, hn]
    exact Nat.one_lt_two
  · rw [pop_two hn]

/-- a set that is there is listed a second time, and stays so -/
theorem Right.twice (h : t.Right) {newSet : SetIdentifier} {newNode : AtomicComputation}
    (hthere : newSet.name ∈ t.curSourceSetNames)
    (hrun : (PlannerCall.updateSourceSets oldSet (some (newSet, newNode))).run plan t = some t') :
    ¬ t'.Right := by
  intro hr
  have hone := List.nodup_iff_count_le_one.mp hr.nodup newSet.name
  have htwo : (t.addSource newSet newNode).curSourceSetNames.count newSet.name = 2 := by
    show (t.curSourceSetNames ++ [newSet.name]).count newSet.name = 2
    rw [List.count_append, List.count_eq_one_of_mem h.nodup hthere, List.count_singleton_self]
  have hlen : 2 ≤ ((t.addSource newSet newNode).pending newSet.name).length := by
    show 2 ≤ ((Function.update t.curSourceNodes newSet.name _ newSet.name).getD []).length
    rw [Function.update_self]
    show 2 ≤ (t.pending newSet.name ++ [newNode]).length
    have hpos := List.length_pos_iff.mpr ((h.listed _).names.mp hthere)
    rw [List.length_append]
    exact Nat.succ_le_succ hpos
  change (t.updateSourceSets plan oldSet (some (newSet, newNode))).map Prod.fst = some t' at hrun
  obtain ⟨⟨u, ret⟩, hcall, rfl⟩ := Option.map_eq_some_iff.mp hrun
  simp only [SourceTables.updateSourceSets, SourceTables.addNew, Option.elim_some] at hcall
  split at hcall
  · cases hcall
    exact absurd htwo (Nat.ne_of_lt (Nat.lt_succ_of_le hone))
  · cases hcall
  · rcases ite_eq_iff.mp hcall with ⟨-, hout⟩ | ⟨-, hout⟩
    · cases hout
      have hcount : ((((t.addSource newSet newNode).touchConsumers oldSet.name).removeSource
          oldSet.name).1.curSourceSetNames).count newSet.name = 2 := by
        rw [count_removeSource]
        · exact htwo
        · by_cases heq : newSet.name = oldSet.name
          · exact .inr (heq ▸ hlen)
          · exact .inl heq
      exact absurd hcount (Nat.ne_of_lt (Nat.lt_succ_of_le hone))
    · cases hout
      exact absurd htwo (Nat.ne_of_lt (Nat.lt_succ_of_le hone))

/-- the last source node of a set goes -/
theorem Right.last (h : t.Right) (hnew : ∀ p ∈ new, p.1.name ∉ t.curSourceSetNames)
    {node : AtomicComputation} (hp : (t.addNew new).pending oldSet.name = [node])
    (hc : (t.addNew new).curProcessedConsumers oldSet.name =
      some (consumers plan node.outputName).length)
    (hrun : (PlannerCall.updateSourceSets oldSet new).run plan t = some t') : ¬ t'.Right := by
  have hadd := h.addNew hnew
  change (t.updateSourceSets plan oldSet new).map Prod.fst = some t' at hrun
  rw [hadd.updateSourceSets_eq, hp] at hrun
  dsimp only at hrun
  rw [if_pos hc.symm] at hrun
  cases hrun
  exact fun hr => (hadd.callRemoveSource_iff _).mp hr node hp

theorem Right.increment_iff (h : t.Right) :
    (t.incrementConsumerIndex name).Right ↔ name ∈ t.curSourceSetNames := by
  rw [(h.listed name).names]
  constructor
  · intro hr
    refine (hr.listed name).processed.mp ?_
    show (Function.update t.curProcessedConsumers name _ name).isSome
    rw [Function.update_self]
    rfl
  · intro hp
    exact ⟨h.setProcessed hp _, h.results⟩

theorem right_stepwise (plan : List AtomicComputation) :
    Stepwise (PlannerCall.run plan) (fun _ _ => ()) (fun t _ => t.Right) (fun t _ => t.Right)
      (PlannerCall.Sound plan) fun _ => True where
  agrees h := h
  allows := by
    rintro t - (⟨oldSet, new⟩ | name | name) - h hs
    · exact h.updateSourceSets hs
    · exact ⟨_, rfl, (h.callRemoveSource_iff name).mpr hs⟩
    · exact ⟨_, rfl, h.increment_iff.mpr hs⟩
  not_allows := by
    rintro t - (⟨oldSet, new⟩ | name | name) t' - h hs hrun
    · by_cases hnew : ∀ p ∈ new, p.1.name ∉ t.curSourceSetNames
      · have hlast : ¬ ∀ node, (t.addNew new).pending oldSet.name = [node] → _ := fun hall =>
          hs ⟨hnew, hall⟩
        simp only [not_forall, not_not] at hlast
        obtain ⟨node, hp, hc⟩ := hlast
        exact h.last hnew hp hc hrun
      · rcases new with - | ⟨newSet, newNode⟩
        · exact absurd (fun p hp => nomatch hp) hnew
        · refine h.twice ?_ hrun
          by_contra hno
          exact hnew fun p hp => Option.some.inj hp ▸ hno
    · cases hrun
      exact fun hr => hs ((h.callRemoveSource_iff name).mp hr)
    · cases hrun
      exact fun hr => hs (h.increment_iff.mp hr)

/-- one more scan -/
theorem Right.addScan (h : t.Right) (set : SetIdentifier) (node : AtomicComputation) :
    (t.addScan set node).Right := by
  unfold SourceTables.addScan
  split
  · next hthere =>
    refine ⟨⟨h.nodup, fun k => ?_⟩, h.results⟩
    by_cases hk : k = set.name
    · subst hk
      obtain ⟨hname, ⟨set', hset, heq⟩, -, n, hcount⟩ :=
        (h.listed _).present ((h.listed _).names.mp hthere)
      exact listedAt_present hname hset heq (Function.update_self ..)
        (List.append_ne_nil_of_right_ne_nil _ (List.cons_ne_nil _ _)) hcount
    · exact (h.listed k).congr Iff.rfl rfl (Function.update_of_ne hk ..) rfl
  · next hnew =>
    have hadd := h.addSource hnew node
    have hcount : t.curProcessedConsumers set.name = none := by
      rw [← Option.not_isSome_iff_eq_none, (h.listed _).processed, ← (h.listed _).names]
      exact hnew
    rw [SourceTables.addSource, hcount] at hadd
    exact ⟨hadd, h.results⟩

/-- the tables that the constructor fills -/
theorem right_ofSources (sources : List (SetIdentifier × AtomicComputation)) :
    (ofSources sources).Right := by
  have hrun : ∀ l (t : SourceTables), t.Right →
      (List.foldl (fun t (set, node) => addScan t set node) t l).Right := by
    intro l
    induction l with
    | nil => exact fun t h => h
    | cons e l ih => exact fun t h => ih _ (h.addScan e.1 e.2)
  refine hrun sources _ ⟨⟨List.nodup_nil, fun name => ?_⟩, fun r hr => nomatch hr⟩
  exact listedAt_absent List.not_mem_nil rfl rfl rfl

/-- **The four tables are in step and every removal has its result, along a run from any sources, just
if every call of the run is sound.** -/
theorem right_iff (plan : List AtomicComputation) (sources : List (SetIdentifier × AtomicComputation))
    (calls : List PlannerCall) :
    (∀ pre, pre <+: calls → ∃ t, pre.foldlM (PlannerCall.run plan) (ofSources sources) = some t ∧
        t.Right) ↔
      ∀ pre call, pre ++ [call] <+: calls → ∀ t,
        pre.foldlM (PlannerCall.run plan) (ofSources sources) = some t → call.Sound plan t :=
  @Stepwise.iff _ _ Unit _ _ _ _ _ _ _ () _ (right_stepwise plan) (right_ofSources sources)
    fun _ _ => trivial

/-- two aggregations that are materialized as one set: its name is listed twice, and the second time for
nothing when both have been planned -/
theorem right_not_always :
    ¬ ∀ pre, pre <+: [PlannerCall.updateSourceSets { database := "db", setName := "a" }
          (some ({ database := "db", setName := "c" }, ⟨.aggregate, "x", "X", "A", ""⟩)),
        .updateSourceSets { database := "db", setName := "b" }
          (some ({ database := "db", setName := "c" }, ⟨.aggregate, "y", "Y", "B", ""⟩))] →
      ∃ t, pre.foldlM (PlannerCall.run
          [⟨.scan, "a", "A", "", ""⟩, ⟨.aggregate, "x", "X", "A", ""⟩, ⟨.writeSet, "v", "V", "X", ""⟩,
            ⟨.scan, "b", "B", "", ""⟩, ⟨.aggregate, "y", "Y", "B", ""⟩, ⟨.writeSet, "w", "W", "Y", ""⟩])
        (ofSources [({ database := "db", setName := "a" }, ⟨.scan, "a", "A", "", ""⟩),
          ({ database := "db", setName := "b" }, ⟨.scan, "b", "B", "", ""⟩)]) = some t ∧ t.Right := by
  intro h
  obtain ⟨t, hrun, hr⟩ := h _ (List.prefix_rfl)
  have hnames := congrArg (Option.map curSourceSetNames) hrun
  rw [show Option.map curSourceSetNames _ = some ["db:a", "db:b", "db:c", "db:c"] by
    decide +kernel] at hnames
  have hnodup := hr.nodup
  rw [← Option.some.inj hnames] at hnodup
  exact absurd hnodup (by decide +kernel)

end SourceTables
end Netsdb
