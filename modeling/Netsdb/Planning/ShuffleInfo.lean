import Mathlib.Algebra.BigOperators.Group.List.Basic
import Mathlib.Algebra.Order.BigOperators.Group.List
import Mathlib.Tactic.Linarith

/-!
# The hash partitions of a cluster (`ShuffleInfo.h`)

* `ShuffleInfo.create`     the partitions of every node, by its number of cores;
* `combinedRoute`, `joinRoute`, `hashPartitionNode`   where the sinks send a hash: they divide the
                           number of partitions by the number of nodes;
* `Cluster.Routed`         a hash goes to a partition that its node has, and one worker takes it;
* `routed_iff`             this holds of every hash just if all nodes have equally many partitions.
-/

namespace Netsdb

structure ShuffleInfo where
  numNodes : Nat
  numHashPartitions : Int
  partitionIds : List (List Nat)

/-- the cores of the nodes, and `(int)((double) cores * partitionToCoreRatio)` -/
structure Cluster where
  cores : List Int
  scaled : Int → Int

namespace ShuffleInfo

/-- the ids from `id` on -/
def fill : Nat → List Int → List (List Nat)
  | _, [] => []
  | id, n :: counts => List.range' id n.toNat :: fill (id + n.toNat) counts

end ShuffleInfo

namespace Cluster
variable (s : Cluster)

/-- of a node: at least one, unless the product is negative -/
def numCoresForHashing (cores : Int) : Int := if s.scaled cores = 0 then 1 else s.scaled cores

def counts : List Int := s.cores.map s.numCoresForHashing

def shuffleInfo : ShuffleInfo := ⟨s.cores.length, s.counts.sum, ShuffleInfo.fill 0 s.counts⟩

/-- the scheduler computes the number of a node's partitions again, for the stages that consume -/
def numNodePartitions (node : Nat) : Int := (s.counts[node]?).getD 0

/-- the partitions that a node has -/
def localPartitions (node : Nat) : Nat := ((s.shuffleInfo.partitionIds[node]?).getD []).length

/-- `numPartitions / numNodes` -/
def partitionsPerNode : Int := s.shuffleInfo.numHashPartitions.tdiv s.shuffleInfo.numNodes

/-! ## producers -/

/-- the node, and the local partition; `none`: `getComputeSink` gives no sink -/
def combinedRoute (hash : Nat) : Option (Nat × Nat) :=
  if s.shuffleInfo.numNodes = 0 ∨ s.shuffleInfo.numHashPartitions < s.shuffleInfo.numNodes then none
  else
    let perNode := s.partitionsPerNode.toNat
    let index := hash % (s.shuffleInfo.numNodes * perNode)
    some (index / perNode, index % perNode)

/-- `none`: a division by zero, or a negative number of partitions -/
def joinRoute (hash : Nat) : Option (Nat × Nat) :=
  if s.partitionsPerNode ≤ 0 then none
  else
    let perNode := s.partitionsPerNode.toNat
    let index := hash % (perNode * s.shuffleInfo.numNodes)
    some (index / perNode, index % perNode)

/-- the `partitionId` of the map at a place of the container of `PartitionedJoinSink` -/
def joinMapId (node partition : Nat) : Nat := node * s.partitionsPerNode.toNat + partition

def hashPartitionNode (hash : Nat) : Option Nat :=
  if s.partitionsPerNode ≤ 0 then none
  else some (hash % s.shuffleInfo.numHashPartitions.toNat / s.partitionsPerNode.toNat)

/-! ## consumers -/

/-- the aggregation worker `id`: the map of a local partition has its number -/
def aggregationTakes (id partition : Nat) : Prop := partition = id

/-- the join merger `i` of a node -/
def mergerTakes (node i partitionId : Nat) : Prop :=
  (partitionId : Int) = node * s.numNodePartitions node + i

/-- the partitioned scan of join maps, by worker `i` -/
def mapScanTakes (i partitionId : Nat) : Prop := partitionId % s.partitionsPerNode.toNat = i

/-- the partitioned scan of vectors, by worker `i` -/
def vectorScanTakes (i hash : Nat) : Prop :=
  hash % (s.partitionsPerNode.toNat * s.shuffleInfo.numNodes) % s.partitionsPerNode.toNat = i

/-! ## what is asked of a hash -/

/-- exactly one of `n` workers -/
def OneOf (n : Nat) (takes : Nat → Prop) : Prop := ∃! i, i < n ∧ takes i

structure Routed (hash : Nat) : Prop where
  aggregation : ∃ node partition, s.combinedRoute hash = some (node, partition) ∧
    node < s.shuffleInfo.numNodes ∧ partition < s.localPartitions node ∧
    OneOf (s.numNodePartitions node).toNat fun id => aggregationTakes id partition
  join : ∃ node partition, s.joinRoute hash = some (node, partition) ∧
    node < s.shuffleInfo.numNodes ∧ partition < s.localPartitions node ∧
    OneOf (s.numNodePartitions node).toNat (fun i => s.mergerTakes node i (s.joinMapId node partition)) ∧
    OneOf s.partitionsPerNode.toNat fun i => s.mapScanTakes i (s.joinMapId node partition)
  hashPartition : ∃ node, s.hashPartitionNode hash = some node ∧ node < s.shuffleInfo.numNodes ∧
    OneOf s.partitionsPerNode.toNat (fun i => s.vectorScanTakes i hash) ∧
    ∀ i, s.vectorScanTakes i hash → i < s.localPartitions node

variable {s : Cluster}

theorem fill_getElem? (counts : List Int) : ∀ (id node : Nat),
    (((ShuffleInfo.fill id counts)[node]?).getD []).length = ((counts[node]?).getD 0).toNat := by
  induction counts with
  | nil => exact fun id node => rfl
  | cons n counts ih =>
    intro id node
    cases node with
    | zero =>
      show (List.range' id n.toNat).length = n.toNat
      rw [List.length_range']
    | succ node => exact ih _ node

theorem localPartitions_eq (node : Nat) :
    s.localPartitions node = (s.numNodePartitions node).toNat := fill_getElem? _ _ _

theorem counts_length : s.counts.length = s.shuffleInfo.numNodes := List.length_map _

theorem oneOf_eq {n j : Nat} (hj : j < n) : OneOf n fun i => j = i :=
  ⟨j, ⟨hj, rfl⟩, fun _ h => h.2.symm⟩

/-! ## equally many partitions on all nodes -/

/-- every node has `c` partitions -/
structure Uniform (s : Cluster) (c : Nat) : Prop where
  nodes : s.cores ≠ []
  pos : 0 < c
  eq : ∀ n ∈ s.counts, n = c

theorem sum_const {counts : List Int} {c : Int} (h : ∀ n ∈ counts, n = c) :
    counts.sum = counts.length * c := by
  rw [List.eq_replicate_of_mem h, List.sum_replicate, List.length_replicate]
  simp

namespace Uniform
variable {c : Nat} {node : Nat}

theorem numNodes_pos (h : s.Uniform c) : 0 < s.shuffleInfo.numNodes := List.length_pos_iff.mpr h.nodes

theorem numHashPartitions (h : s.Uniform c) :
    s.shuffleInfo.numHashPartitions = (s.shuffleInfo.numNodes * c : Nat) := by
  show s.counts.sum = _
  rw [sum_const h.eq, counts_length]
  push_cast
  rfl

theorem partitionsPerNode (h : s.Uniform c) : s.partitionsPerNode = c := by
  have hpos := h.numNodes_pos
  rw [Cluster.partitionsPerNode, h.numHashPartitions]
  push_cast
  exact Int.mul_tdiv_cancel_left _ (by omega)

theorem numNodePartitions (h : s.Uniform c) (hn : node < s.shuffleInfo.numNodes) :
    s.numNodePartitions node = c := by
  have hlt : node < s.counts.length := by rw [counts_length]; exact hn
  rw [Cluster.numNodePartitions, List.getElem?_eq_getElem hlt]
  exact h.eq _ (List.getElem_mem hlt)

theorem localPartitions (h : s.Uniform c) (hn : node < s.shuffleInfo.numNodes) :
    s.localPartitions node = c := by
  rw [localPartitions_eq, h.numNodePartitions hn, Int.toNat_natCast]

/-- the place of a hash, the same for all sinks -/
theorem place (h : s.Uniform c) (hash : Nat) : ∃ node partition,
    node < s.shuffleInfo.numNodes ∧ partition < c ∧
      hash % (s.shuffleInfo.numNodes * c) / c = node ∧
      hash % (s.shuffleInfo.numNodes * c) % c = partition := by
  refine ⟨_, _, ?_, Nat.mod_lt _ h.pos, rfl, rfl⟩
  rw [Nat.div_lt_iff_lt_mul h.pos]
  exact Nat.mod_lt _ (Nat.mul_pos h.numNodes_pos h.pos)

theorem routed (h : s.Uniform c) (hash : Nat) : s.Routed hash := by
  obtain ⟨node, partition, hnode, hpart, hn, hp⟩ := h.place hash
  have hq := h.partitionsPerNode
  have hT := h.numHashPartitions
  have hpos := h.pos
  have hlocal := h.localPartitions hnode
  have hworkers := h.numNodePartitions hnode
  refine ⟨⟨node, partition, ?_, hnode, ?_, ?_⟩, ⟨node, partition, ?_, hnode, ?_, ?_, ?_⟩,
    ⟨node, ?_, hnode, ?_, ?_⟩⟩
  · have hle : s.shuffleInfo.numNodes ≤ s.shuffleInfo.numNodes * c := Nat.le_mul_of_pos_right _ hpos
    have hnpos := h.numNodes_pos
    rw [combinedRoute, if_neg (by rw [hT]; omega), hq, Int.toNat_natCast]
    simp only [hn, hp]
  · rw [hlocal]
    exact hpart
  · rw [hworkers, Int.toNat_natCast]
    exact oneOf_eq hpart
  · rw [joinRoute, hq, if_neg (by omega), Int.toNat_natCast]
    simp only [Nat.mul_comm c, hn, hp]
  · rw [hlocal]
    exact hpart
  · rw [hworkers, Int.toNat_natCast]
    have htakes : (fun i => s.mergerTakes node i (s.joinMapId node partition)) =
        fun i => partition = i := by
      funext i
      rw [mergerTakes, joinMapId, hworkers, hq, Int.toNat_natCast]
      push_cast
      rw [add_right_inj, Nat.cast_inj]
    rw [htakes]
    exact oneOf_eq hpart
  · have htakes : (fun i => s.mapScanTakes i (s.joinMapId node partition)) =
        fun i => partition = i := by
      funext i
      rw [mapScanTakes, joinMapId, hq, Int.toNat_natCast, Nat.mul_add_mod_of_lt hpart]
    rw [hq, Int.toNat_natCast, htakes]
    exact oneOf_eq hpart
  · rw [hashPartitionNode, hq, if_neg (by omega), hT, Int.toNat_natCast, Int.toNat_natCast, hn]
  · have htakes : (fun i => s.vectorScanTakes i hash) = fun i => partition = i := by
      funext i
      rw [vectorScanTakes, hq, Int.toNat_natCast, Nat.mul_comm, hp]
    rw [hq, Int.toNat_natCast, htakes]
    exact oneOf_eq hpart
  · intro i hi
    rw [vectorScanTakes, hq, Int.toNat_natCast, Nat.mul_comm, hp] at hi
    rw [hlocal, ← hi]
    exact hpart

end Uniform

/-! ## every hash is routed -/

/-- numbers that are at least `q` each, and `q` on the average -/
theorem eq_of_sum_le {q : Int} : ∀ {counts : List Int}, (∀ n ∈ counts, q ≤ n) →
    counts.sum ≤ counts.length * q → ∀ n ∈ counts, n = q := by
  intro counts
  induction counts with
  | nil => exact fun _ _ n hn => absurd hn List.not_mem_nil
  | cons m counts ih =>
    intro hge hsum n hn
    have hm := hge m List.mem_cons_self
    have hge' : ∀ n ∈ counts, q ≤ n := fun n hn => hge n (List.mem_cons_of_mem m hn)
    have hlow := List.card_nsmul_le_sum counts q hge'
    rw [nsmul_eq_mul] at hlow
    rw [List.sum_cons, List.length_cons] at hsum
    push_cast at hsum
    rw [add_mul, one_mul] at hsum
    rcases List.mem_cons.mp hn with rfl | hn
    · linarith
    · exact ih hge' (by linarith) n hn

/-- the last local partition of a node is there -/
theorem le_of_routed (h : ∀ hash, s.Routed hash) {node : Nat} (hn : node < s.shuffleInfo.numNodes) :
    s.partitionsPerNode ≤ s.numNodePartitions node := by
  by_cases hq : s.partitionsPerNode ≤ 0
  · obtain ⟨n, p, hr, -⟩ := (h 0).join
    rw [joinRoute, if_pos hq] at hr
    cases hr
  · obtain ⟨q, hqq⟩ : ∃ q : Nat, s.partitionsPerNode = q := ⟨_, (Int.toNat_of_nonneg (by omega)).symm⟩
    have hpos : 0 < q := by omega
    obtain ⟨n, p, hr, -, hp, -⟩ := (h (q * node + (q - 1))).join
    have hlt : q * node + (q - 1) < q * s.shuffleInfo.numNodes := by
      have := Nat.mul_le_mul_left q hn
      rw [Nat.mul_succ] at this
      omega
    rw [joinRoute, if_neg hq, hqq, Int.toNat_natCast] at hr
    simp only [Nat.mod_eq_of_lt hlt, Option.some.injEq, Prod.mk.injEq] at hr
    obtain ⟨hn', hp'⟩ := hr
    rw [Nat.mul_add_div hpos, Nat.div_eq_of_lt (by omega), Nat.add_zero] at hn'
    rw [Nat.mul_add_mod, Nat.mod_eq_of_lt (by omega)] at hp'
    rw [localPartitions_eq, ← hn', ← hp'] at hp
    omega

/-- `numNodes` divides the number of partitions -/
theorem sum_le_of_routed (h : ∀ hash, s.Routed hash) :
    s.shuffleInfo.numHashPartitions ≤ s.shuffleInfo.numNodes * s.partitionsPerNode := by
  by_cases hT : s.shuffleInfo.numHashPartitions ≤ 0
  · by_cases hq : s.partitionsPerNode ≤ 0
    · obtain ⟨n, p, hr, -⟩ := (h 0).join
      rw [joinRoute, if_pos hq] at hr
      cases hr
    · have := Int.mul_nonneg (Int.natCast_nonneg s.shuffleInfo.numNodes) (show 0 ≤ s.partitionsPerNode by omega)
      omega
  · obtain ⟨t, ht⟩ : ∃ t : Nat, s.shuffleInfo.numHashPartitions = t :=
      ⟨_, (Int.toNat_of_nonneg (by omega)).symm⟩
    -- the largest remainder
    obtain ⟨n, hr, hn, -⟩ := (h (t - 1)).hashPartition
    by_cases hq : s.partitionsPerNode ≤ 0
    · rw [hashPartitionNode, if_pos hq] at hr
      cases hr
    · obtain ⟨q, hqq⟩ : ∃ q : Nat, s.partitionsPerNode = q :=
        ⟨_, (Int.toNat_of_nonneg (by omega)).symm⟩
      have hpos : 0 < q := by omega
      rw [hashPartitionNode, if_neg hq, ht, hqq, Int.toNat_natCast, Int.toNat_natCast,
        Nat.mod_eq_of_lt (by omega), Option.some.injEq] at hr
      rw [← hr, Nat.div_lt_iff_lt_mul hpos] at hn
      rw [ht, hqq]
      have : t ≤ s.shuffleInfo.numNodes * q := by omega
      exact_mod_cast this

/-- **The partition map is total and consistent just if all nodes have equally many partitions.** -/
theorem routed_iff (s : Cluster) : (∀ hash, s.Routed hash) ↔ ∃ c, s.Uniform c := by
  refine ⟨fun h => ?_, fun ⟨c, hc⟩ hash => hc.routed hash⟩
  obtain ⟨node, _, hr, hnode, -⟩ := (h 0).join
  have hq : ¬ s.partitionsPerNode ≤ 0 := fun hq => by
    rw [joinRoute, if_pos hq] at hr
    cases hr
  obtain ⟨q, hqq⟩ : ∃ q : Nat, s.partitionsPerNode = q := ⟨_, (Int.toNat_of_nonneg (by omega)).symm⟩
  refine ⟨q, List.length_pos_iff.mp (Nat.lt_of_le_of_lt (Nat.zero_le _) hnode), by omega, ?_⟩
  rw [← hqq]
  refine eq_of_sum_le (fun n hn => ?_) ?_
  · obtain ⟨i, hi⟩ := List.mem_iff_getElem?.mp hn
    have hlt := (List.getElem?_eq_some_iff.mp hi).1
    rw [counts_length] at hlt
    have hle := le_of_routed h hlt
    rwa [numNodePartitions, hi, Option.getD_some] at hle
  · rw [counts_length]
    exact sum_le_of_routed h

/-- a node with one core and a node with three: the second local partition of the first node is not
there -/
theorem routed_not_always : ¬ ∀ s : Cluster, s.cores ≠ [] → (∀ n ∈ s.cores, 0 < n) →
    ∀ hash, s.Routed hash := by
  intro h
  obtain ⟨node, p, hr, -, hp, -⟩ := (h ⟨[1, 3], id⟩ (by decide) (by decide) 1).aggregation
  have hroute : (⟨[1, 3], id⟩ : Cluster).combinedRoute 1 = some (0, 1) := by decide
  rw [hroute, Option.some.injEq, Prod.mk.injEq] at hr
  obtain ⟨rfl, rfl⟩ := hr
  exact absurd hp (by decide)

end Cluster

end Netsdb
