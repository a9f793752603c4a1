import Netsdb.ObjectModel.Allocator

/-!
# Logical plans (`AtomicComputationClasses.h`, `AtomicComputationList.cc`, `Computation.h`)

* `AtomicComputation`  a node of the plan: it makes one tuple set from one, a join from two;
* `consumers`          the nodes that read a tuple set, in the order of the plan, a join that reads it
                       from both sides twice;
* `Acyclic`            a consumer comes after what it consumes.
-/

namespace Netsdb

/-- `getComputationType`; the analyzer tells no others apart -/
inductive ComputationType
  | scanUserSet | scanSet | clusterAggregationComp | selectionComp | multiSelectionComp
  | partitionComp | writeUserSet | joinComp | other
deriving DecidableEq

/-- `getAtomicComputationType` -/
inductive AtomicComputationType
  | scan | apply | hashLeft | hashRight | hashOne | flatten | filter | aggregate | joinSets | partition
  | writeSet
deriving DecidableEq

inductive JoinType
  | HashPartitionedJoin
  | BroadcastJoin
  | LocalJoin
  | CrossProduct
  | UnknownJoin
deriving DecidableEq, Repr

/-- a node is known by the tuple set that it makes -/
structure AtomicComputation where
  type : AtomicComputationType
  computationName : String
  outputName : String
  inputName : String
  /-- of a join -/
  rightInputName : String
deriving DecidableEq

structure Computation where
  type : ComputationType
  allocatorPolicy : AllocatorPolicy
  outputType : String
  databaseName : String
  setName : String
  materializeOutput : Bool
  /-- of an aggregation -/
  usingCombiner : Bool
  collectAsMap : Bool
  numNodesToCollect : Nat
  /-- of a join: its type, and the sets that its inputs are scanned from -/
  joinType : JoinType
  sources : List (String × String)
  /-- of a scan -/
  followedByLocalJoin : Bool

/-- a computation that cannot be materialized ignores it -/
def Computation.setOutput (c : Computation) (databaseName setName : String) : Computation :=
  match c.type with
  | .selectionComp | .multiSelectionComp | .partitionComp | .clusterAggregationComp =>
    { c with materializeOutput := true, databaseName, setName }
  | _ => c

/-- the nodes that read a tuple set -/
def consumers (plan : List AtomicComputation) (name : String) : List AtomicComputation :=
  plan.flatMap fun a =>
    (if a.inputName = name then [a] else []) ++
      if a.type = .joinSets ∧ a.rightInputName = name then [a] else []

/-- `getAllScanSets` -/
def scans (plan : List AtomicComputation) : List AtomicComputation :=
  plan.filter fun a => a.type = .scan

/-- the nodes can be numbered so that a consumer comes after what it consumes -/
def Acyclic (plan : List AtomicComputation) : Prop :=
  ∃ rank : String → Nat, (∀ name, rank name ≤ plan.length) ∧
    ∀ a ∈ plan, ∀ c ∈ consumers plan a.outputName, rank a.outputName < rank c.outputName

/-- a computation with no settings of its own, with a set in the database `db` -/
def Computation.ofType (type : ComputationType) (setName : String) : Computation :=
  { type, allocatorPolicy := .defaultAllocator, outputType := "", databaseName := "db", setName
    materializeOutput := false, usingCombiner := false, collectAsMap := false
    numNodesToCollect := 0, joinType := .UnknownJoin, sources := [], followedByLocalJoin := false }

section
variable {plan : List AtomicComputation} {name : String} {a : AtomicComputation}

theorem mem_consumers : a ∈ consumers plan name ↔ a ∈ plan ∧
    (a.inputName = name ∨ (a.type = .joinSets ∧ a.rightInputName = name)) := by
  unfold consumers
  rw [List.mem_flatMap]
  constructor
  · rintro ⟨b, hb, hm⟩
    obtain hm | hm := List.mem_append.mp hm
    · split at hm
      · next h =>
        obtain rfl := List.mem_singleton.mp hm
        exact ⟨hb, .inl h⟩
      · cases hm
    · split at hm
      · next h =>
        obtain rfl := List.mem_singleton.mp hm
        exact ⟨hb, .inr h⟩
      · cases hm
  · rintro ⟨hb, h | h⟩
    · exact ⟨a, hb, List.mem_append_left _ (by rw [if_pos h]; exact List.mem_singleton.mpr rfl)⟩
    · exact ⟨a, hb, List.mem_append_right _ (by rw [if_pos h]; exact List.mem_singleton.mpr rfl)⟩

end
end Netsdb
