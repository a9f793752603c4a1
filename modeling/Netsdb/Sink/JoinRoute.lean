import Netsdb.Sink.JoinSink

/-!
# The route of a hash through a partitioned join (`JoinTuple.h`)

* `PartitionedJoin`   the numbers that the sinks, the iterators, the mergers and the probes share;
* `written`, `sent`   the container of a sink, and the vector of maps that a node gets from it;
* `inputTables`       the tables that the mergers of a node build;
* `scan`, `searched`  what an iterator takes from the vectors, and the table in which a probe looks;
* `routesAgree_iff`   all five agree about a hash just if the number that the sink divides and the
                      hash that the maps keep are congruent modulo the partitions of a node.
-/

set_option linter.unusedSectionVars false

namespace Netsdb

/-- a `JoinMap`, with the pairs that a loop over it reads -/
structure PartitionMap (V : Type*) where
  partitionId : Nat
  numPartitions : Nat
  rows : List (JoinRow V)

namespace PartitionMap
variable {V : Type*}

/-- `push`: the reserved hash is replaced -/
def push (m : PartitionMap V) (e : JoinRow V) : PartitionMap V :=
  { m with rows := m.rows ++ [(hashValOf e.1, e.2)] }

end PartitionMap

/-- a hash-partitioned join, compiled with or without `NO_MOD_PARTITION` -/
structure PartitionedJoin extends PartitionedJoinSink where
  noModPartition : Bool
  hashPartitioned : partitionedJoinType ≠ .CrossProduct

/-- the value of `curPartitionId` in a call of `writeOut`, and the rows of the call -/
abbrev SinkCall (V : Type*) := Nat × List (JoinRow V)

namespace PartitionedJoin
variable {V : Type*} (k : PartitionedJoin)

/-- the partitions of all nodes -/
def all : Nat := k.numPartitionsPerNode * k.numNodes

/-- what the sink reduces modulo the number of partitions -/
def routed (key : Nat) : Nat := if k.noModPartition then key / k.all else key

/-- the index in `PartitionedJoinSink::writeOut` -/
def index (curPartitionId key : Nat) : Nat :=
  if k.partitionedJoinType ≠ .CrossProduct then k.routed key % k.all else curPartitionId % k.all

def createNewOutputContainer : List (List (PartitionMap V)) :=
  (List.range k.numNodes).map fun i =>
    (List.range k.numPartitionsPerNode).map fun j =>
      ⟨i * k.numPartitionsPerNode + j, k.numPartitionsPerNode, []⟩

/-- the body of the loop of `PartitionedJoinSink::writeOut` -/
def writeRow (cur : Nat) (writeMe : List (List (PartitionMap V))) (e : JoinRow V) :
    List (List (PartitionMap V)) :=
  writeMe.modify (k.index cur e.1 / k.numPartitionsPerNode) fun v =>
    v.modify (k.index cur e.1 % k.numPartitionsPerNode) fun myMap => myMap.push e

def writeOut (writeMe : List (List (PartitionMap V))) (call : SinkCall V) :
    List (List (PartitionMap V)) :=
  call.2.foldl (k.writeRow call.1) writeMe

/-- a container, after some calls of `writeOut` -/
def written (calls : List (SinkCall V)) : List (List (PartitionMap V)) :=
  calls.foldl k.writeOut k.createNewOutputContainer

/-- the maps for a node; `JoinSinkShuffler::writeOut` keeps their numbers and their pairs -/
def sent (calls : List (SinkCall V)) (node : Nat) : List (PartitionMap V) :=
  ((k.written calls)[node]?).getD []

/-- `JoinSinkMerger::writeVectorOut`, for all vectors that come to a node -/
def merge (partitionId : Nat) (theOtherMaps : List (PartitionMap V)) : List (JoinRow V) :=
  (theOtherMaps.filter fun m => m.partitionId = partitionId).flatMap fun m => m.rows

/-- the pages of the hash set of a node: the merger of thread `i` gets `nodeId * numPartitions + i` -/
def inputTables (builds : List (List (SinkCall V))) (node : Nat) : List (List (JoinRow V)) :=
  (List.range k.numPartitionsPerNode).map fun i =>
    merge (node * k.numPartitionsPerNode + i) (builds.flatMap fun calls => k.sent calls node)

/-- the test of `PartitionedJoinMapTupleSetIterator::getNextTupleSet` -/
def takes (myPartitionId : Nat) (m : PartitionMap V) : Prop :=
  0 < m.numPartitions ∧ (m.partitionId % m.numPartitions = myPartitionId ∨
    k.partitionedJoinType = .CrossProduct)

instance (myPartitionId : Nat) : DecidablePred (k.takes (V := V) myPartitionId) :=
  fun m => inferInstanceAs (Decidable (0 < m.numPartitions ∧
    (m.partitionId % m.numPartitions = myPartitionId ∨ k.partitionedJoinType = .CrossProduct)))

/-- the hashes and the values that the iterator of a thread returns -/
def scan (probes : List (List (SinkCall V))) (node myPartitionId : Nat) : List (JoinRow V) :=
  ((probes.flatMap fun calls => k.sent calls node).filter fun m => k.takes myPartitionId m).flatMap
    fun m => m.rows

/-- the index of the table in `PartitionedJoinProbe::process` -/
def searched (threadId value : Nat) : Nat :=
  if k.partitionedJoinType ≠ .CrossProduct then value % k.all % k.numPartitionsPerNode else threadId

/-! ## What is asked of a hash -/

/-- the node and the partition of a hash -/
def node (h : Nat) : Nat := k.routed h % k.all / k.numPartitionsPerNode

def partition (h : Nat) : Nat := k.routed h % k.all % k.numPartitionsPerNode

/-- the rows of the calls that have the hash -/
def rowsOf (h : Nat) (calls : List (List (SinkCall V))) : List (JoinRow V) :=
  (calls.flatten.flatMap fun call => call.2).filter fun e => e.1 = h

variable (V) in
structure RoutesAgree (h : Nat) : Prop where
  /-- the sink, and the stamp of the map in which it puts the row -/
  stored : ∀ cur : Nat, k.index cur h = k.node h * k.numPartitionsPerNode + k.partition h ∧
    ∃ m : PartitionMap V, Grid.getAt k.createNewOutputContainer
        (k.index cur h / k.numPartitionsPerNode) (k.index cur h % k.numPartitionsPerNode) = some m ∧
      m.partitionId = k.index cur h ∧ m.numPartitions = k.numPartitionsPerNode
  /-- the merger that takes such a map -/
  merged : ∀ n i cur : Nat, i < k.numPartitionsPerNode →
    (n * k.numPartitionsPerNode + i = k.index cur h ↔ n = k.node h ∧ i = k.partition h)
  /-- the iterator that takes such a map -/
  iterated : ∀ (i cur : Nat) (rows : List (JoinRow V)),
    k.takes i ⟨k.index cur h, k.numPartitionsPerNode, rows⟩ ↔ i = k.partition h
  /-- every row comes out of its iterator, and finds in the table all rows of the other side -/
  joined : ∀ (builds probes : List (List (SinkCall V))),
    ((rowsOf h probes).map fun e => (hashValOf e.1, e.2)).Sublist
        (k.scan probes (k.node h) (k.partition h)) ∧
      ∃ table, (k.inputTables builds (k.node h))[k.searched (k.partition h) (hashValOf h)]? = some table ∧
        ((rowsOf h builds).map fun e => (hashValOf e.1, e.2)).Sublist table
  /-- the table is the one that the merger of the partition has built -/
  searched_eq : k.searched (k.partition h) (hashValOf h) = k.partition h

/-! ## The containers -/

variable {k} {calls : List (SinkCall V)} {cur h i j n : Nat}

theorem all_pos : 0 < k.all := Nat.mul_pos k.partitions_pos k.nodes_pos

theorem index_eq : k.index cur h = k.routed h % k.all := if_pos k.hashPartitioned

/-- without `NO_MOD_PARTITION` this is the sink whose containers `PartitionedJoinSink.sink` fills -/
theorem index_of_mod (hk : k.noModPartition = false) :
    k.index cur h = k.toPartitionedJoinSink.index cur h := by
  unfold index routed PartitionedJoinSink.index
  rw [hk]
  split
  · rfl
  · rfl

theorem index_div : k.index cur h / k.numPartitionsPerNode = k.node h := by
  rw [index_eq]
  rfl

theorem index_mod : k.index cur h % k.numPartitionsPerNode = k.partition h := by
  rw [index_eq]
  rfl

theorem index_parts : k.index cur h = k.node h * k.numPartitionsPerNode + k.partition h := by
  rw [index_eq, Nat.mul_comm]
  exact (Nat.div_add_mod _ _).symm

theorem node_lt : k.node h < k.numNodes := by
  apply Nat.div_lt_of_lt_mul
  exact Nat.mod_lt _ all_pos

theorem partition_lt : k.partition h < k.numPartitionsPerNode := Nat.mod_lt _ k.partitions_pos

/-- the container whose map `j` for node `i` has the rows `f i j` -/
def filled (k : PartitionedJoin) (f : Nat → Nat → List (JoinRow V)) : List (List (PartitionMap V)) :=
  (List.range k.numNodes).map fun i =>
    (List.range k.numPartitionsPerNode).map fun j =>
      ⟨i * k.numPartitionsPerNode + j, k.numPartitionsPerNode, f i j⟩

theorem modify_map_range {α : Type*} (f : Nat → α) (g : α → α) (n i : Nat) :
    ((List.range n).map f).modify i g = (List.range n).map fun m => if m = i then g (f m) else f m := by
  apply List.ext_getElem
  · simp
  · intro m h₁ h₂
    simp only [List.getElem_modify, List.getElem_map, List.getElem_range]
    by_cases hm : i = m
    · rw [if_pos hm, if_pos hm.symm]
    · rw [if_neg hm, if_neg fun e => hm e.symm]

theorem writeRow_filled (f : Nat → Nat → List (JoinRow V)) (e : JoinRow V) :
    k.writeRow cur (k.filled f) e = k.filled fun i j =>
      if k.node e.1 = i ∧ k.partition e.1 = j then f i j ++ [(hashValOf e.1, e.2)] else f i j := by
  unfold writeRow filled
  rw [index_div, index_mod, modify_map_range]
  apply List.map_congr_left
  intro i _
  by_cases hi : i = k.node e.1
  · subst hi
    rw [if_pos rfl, modify_map_range]
    apply List.map_congr_left
    intro j _
    by_cases hj : j = k.partition e.1
    · subst hj
      dsimp only
      rw [if_pos rfl, if_pos ⟨rfl, rfl⟩]
      rfl
    · dsimp only
      rw [if_neg hj, if_neg fun hc => hj hc.2.symm]
  · rw [if_neg hi]
    apply List.map_congr_left
    intro j _
    dsimp only
    rw [if_neg fun hc => hi hc.1.symm]

/-- the pairs that the rows of a partition become -/
def rowsAt (k : PartitionedJoin) (i j : Nat) (rows : List (JoinRow V)) : List (JoinRow V) :=
  (rows.filter fun e => k.node e.1 = i ∧ k.partition e.1 = j).map fun e => (hashValOf e.1, e.2)

theorem rowsAt_append (rows rows' : List (JoinRow V)) :
    k.rowsAt i j (rows ++ rows') = k.rowsAt i j rows ++ k.rowsAt i j rows' := by
  unfold rowsAt
  rw [List.filter_append, List.map_append]

theorem writeRows_filled (rows : List (JoinRow V)) (f : Nat → Nat → List (JoinRow V)) :
    rows.foldl (k.writeRow cur) (k.filled f) = k.filled fun i j => f i j ++ k.rowsAt i j rows := by
  induction rows generalizing f with
  | nil => simp [rowsAt]
  | cons e rows ih =>
    rw [List.foldl_cons, writeRow_filled, ih]
    congr 1
    funext i j
    show _ = f i j ++ k.rowsAt i j ([e] ++ rows)
    rw [rowsAt_append, ← List.append_assoc]
    congr 1
    by_cases hc : k.node e.1 = i ∧ k.partition e.1 = j
    · rw [if_pos hc]
      simp [rowsAt, hc]
    · rw [if_neg hc]
      simp [rowsAt, hc]

/-- **The map of a partition has just the rows of that partition.** -/
theorem written_eq (calls : List (SinkCall V)) :
    k.written calls = k.filled fun i j => k.rowsAt i j (calls.flatMap fun call => call.2) := by
  have hrun : ∀ f : Nat → Nat → List (JoinRow V), calls.foldl k.writeOut (k.filled f) =
      k.filled fun i j => f i j ++ k.rowsAt i j (calls.flatMap fun call => call.2) := by
    induction calls with
    | nil =>
      intro f
      simp [rowsAt]
    | cons call calls ih =>
      intro f
      rw [List.foldl_cons]
      show calls.foldl k.writeOut (call.2.foldl (k.writeRow call.1) (k.filled f)) = _
      rw [writeRows_filled, ih]
      congr 1
      funext i j
      rw [List.flatMap_cons, rowsAt_append, List.append_assoc]
  exact hrun fun _ _ => []

theorem sent_eq (hn : n < k.numNodes) :
    k.sent calls n = (List.range k.numPartitionsPerNode).map fun j =>
      ⟨n * k.numPartitionsPerNode + j, k.numPartitionsPerNode,
        k.rowsAt n j (calls.flatMap fun call => call.2)⟩ := by
  unfold sent
  rw [written_eq]
  unfold filled
  rw [List.getElem?_map, List.getElem?_range hn]
  rfl

/-! ## Mergers and iterators -/

/-- a test that one map for a node passes -/
theorem filter_sent (hn : n < k.numNodes) (hi : i < k.numPartitionsPerNode)
    {p : PartitionMap V → Bool}
    (hp : ∀ j rows, j < k.numPartitionsPerNode →
      (p ⟨n * k.numPartitionsPerNode + j, k.numPartitionsPerNode, rows⟩ = true ↔ j = i)) :
    (((k.sent calls n).filter p).flatMap fun m => m.rows) =
      k.rowsAt n i (calls.flatMap fun call => call.2) := by
  rw [sent_eq hn, List.filter_map]
  have hone : (List.range k.numPartitionsPerNode).filter (p ∘ fun j =>
      ⟨n * k.numPartitionsPerNode + j, k.numPartitionsPerNode,
        k.rowsAt n j (calls.flatMap fun call => call.2)⟩) = [i] := by
    rw [← List.filter_congr (p := fun j => j == i)]
    · rw [List.filter_beq, List.count_eq_one_of_mem List.nodup_range (List.mem_range.mpr hi)]
      rfl
    · intro j hj
      rw [Bool.eq_iff_iff, beq_iff_eq]
      exact (hp j _ (List.mem_range.mp hj)).symm
  rw [hone]
  simp

theorem filter_sents (hn : n < k.numNodes) (hi : i < k.numPartitionsPerNode)
    {p : PartitionMap V → Bool}
    (hp : ∀ j rows, j < k.numPartitionsPerNode →
      (p ⟨n * k.numPartitionsPerNode + j, k.numPartitionsPerNode, rows⟩ = true ↔ j = i))
    (sides : List (List (SinkCall V))) :
    (((sides.flatMap fun calls => k.sent calls n).filter p).flatMap fun m => m.rows) =
      k.rowsAt n i (sides.flatten.flatMap fun call => call.2) := by
  induction sides with
  | nil => rfl
  | cons calls sides ih =>
    rw [List.flatMap_cons, List.filter_append, List.flatMap_append, ih, filter_sent hn hi hp,
      ← rowsAt_append, List.flatten_cons, List.flatMap_append]

theorem merged_iff (hj : j < k.numPartitionsPerNode) (hi : i < k.numPartitionsPerNode) {m : Nat} :
    n * k.numPartitionsPerNode + i = m * k.numPartitionsPerNode + j ↔ n = m ∧ i = j := by
  constructor
  · intro h
    have hdiv := congrArg (fun x => x / k.numPartitionsPerNode) h
    have hmod := congrArg (fun x => x % k.numPartitionsPerNode) h
    simp only [Nat.mul_comm _ k.numPartitionsPerNode, Nat.mul_add_div k.partitions_pos,
      Nat.mul_add_mod, Nat.div_eq_of_lt hi, Nat.div_eq_of_lt hj, Nat.mod_eq_of_lt hi,
      Nat.mod_eq_of_lt hj] at hdiv hmod
    omega
  · rintro ⟨rfl, rfl⟩
    rfl

theorem takes_iff (hj : j < k.numPartitionsPerNode) (rows : List (JoinRow V)) :
    k.takes i ⟨n * k.numPartitionsPerNode + j, k.numPartitionsPerNode, rows⟩ ↔ j = i := by
  have hmod : (n * k.numPartitionsPerNode + j) % k.numPartitionsPerNode = j := by
    rw [Nat.mul_comm, Nat.mul_add_mod, Nat.mod_eq_of_lt hj]
  constructor
  · intro hk
    obtain h | h := hk.2
    · exact hmod.symm.trans h
    · exact absurd h k.hashPartitioned
  · intro e
    exact ⟨k.partitions_pos, .inl (hmod.trans e)⟩

theorem inputTables_getElem? (builds : List (List (SinkCall V))) (hn : n < k.numNodes)
    (hi : i < k.numPartitionsPerNode) :
    (k.inputTables builds n)[i]? = some (k.rowsAt n i (builds.flatten.flatMap fun call => call.2)) := by
  unfold inputTables
  rw [List.getElem?_map, List.getElem?_range hi]
  refine congrArg some (filter_sents hn hi (fun j rows hj => ?_) builds)
  rw [decide_eq_true_iff, merged_iff hi hj]
  exact ⟨fun h => h.2, fun h => ⟨rfl, h⟩⟩

theorem scan_eq (probes : List (List (SinkCall V))) (hn : n < k.numNodes)
    (hi : i < k.numPartitionsPerNode) :
    k.scan probes n i = k.rowsAt n i (probes.flatten.flatMap fun call => call.2) := by
  refine filter_sents hn hi (fun j rows hj => ?_) probes
  rw [decide_eq_true_iff]
  exact takes_iff hj rows

/-- the rows of a hash are among those of its partition -/
theorem rowsOf_sublist (sides : List (List (SinkCall V))) :
    ((rowsOf h sides).map fun e => (hashValOf e.1, e.2)).Sublist
      (k.rowsAt (k.node h) (k.partition h) (sides.flatten.flatMap fun call => call.2)) := by
  apply List.Sublist.map
  apply List.monotone_filter_right
  intro e he
  obtain rfl := of_decide_eq_true he
  exact decide_eq_true ⟨rfl, rfl⟩

/-! ## The tables that probes search -/

theorem searched_eq {threadId value : Nat} :
    k.searched threadId value = value % k.numPartitionsPerNode := by
  show (if k.partitionedJoinType ≠ .CrossProduct then
    value % k.all % k.numPartitionsPerNode else threadId) = _
  rw [if_pos k.hashPartitioned]
  exact Nat.mod_mod_of_dvd _ (Nat.dvd_mul_right _ _)

theorem partition_eq : k.partition h = k.routed h % k.numPartitionsPerNode :=
  Nat.mod_mod_of_dvd _ (Nat.dvd_mul_right _ _)

theorem created (cur : Nat) : Grid.getAt (k.createNewOutputContainer (V := V))
    (k.index cur h / k.numPartitionsPerNode) (k.index cur h % k.numPartitionsPerNode) =
      some ⟨k.index cur h, k.numPartitionsPerNode, []⟩ := by
  rw [index_div, index_mod]
  have hrow : (k.createNewOutputContainer (V := V))[k.node h]? =
      some ((List.range k.numPartitionsPerNode).map fun j =>
        ⟨k.node h * k.numPartitionsPerNode + j, k.numPartitionsPerNode, []⟩) := by
    unfold createNewOutputContainer
    rw [List.getElem?_map, List.getElem?_range node_lt]
    rfl
  refine Grid.getAt_eq.mpr ⟨_, hrow, ?_⟩
  rw [List.getElem?_map, List.getElem?_range partition_lt, index_parts]
  rfl

variable (V) in
theorem routesAgree_iff (k : PartitionedJoin) (h : Nat) :
    k.RoutesAgree V h ↔
      k.routed h % k.numPartitionsPerNode = hashValOf h % k.numPartitionsPerNode := by
  constructor
  · intro hagree
    have hs := hagree.searched_eq
    rw [searched_eq, partition_eq] at hs
    exact hs.symm
  · intro hmod
    have hs : ∀ threadId, k.searched threadId (hashValOf h) = k.partition h := by
      intro threadId
      rw [searched_eq, partition_eq, hmod]
    refine ⟨fun cur => ⟨index_parts, _, created cur, rfl, rfl⟩, fun n i cur hi => ?_,
      fun i cur rows => ?_, fun builds probes => ⟨?_, _, ?_, rowsOf_sublist (k := k) builds⟩, hs _⟩
    · rw [index_parts]
      exact merged_iff partition_lt hi
    · rw [index_parts, takes_iff partition_lt, eq_comm]
    · rw [scan_eq probes node_lt partition_lt]
      exact rowsOf_sublist probes
    · rw [hs]
      exact inputTables_getElem? builds node_lt partition_lt

/-- without `NO_MOD_PARTITION` only the reserved hash can go astray -/
theorem routesAgree_of_mod (hk : k.noModPartition = false) (hh : h ≠ JM_UNUSED) :
    k.RoutesAgree V h := by
  apply (routesAgree_iff V k h).mpr
  unfold routed hashValOf
  rw [hk, if_neg hh]
  rfl

/-- a hash that the maps replace, on one node with three partitions -/
theorem three_pos : 0 < 3 := by decide

def threePartitions : PartitionedJoin :=
  ⟨⟨3, 1, .HashPartitionedJoin, three_pos, Nat.one_pos⟩, false, by decide⟩

theorem routesAgree_not_always : ¬ ∀ (k : PartitionedJoin) (h : Nat), k.RoutesAgree Nat h := by
  intro hall
  have hs := (hall threePartitions JM_UNUSED).searched_eq
  exact absurd hs (by decide)

end PartitionedJoin
end Netsdb
