import Netsdb.Sink.JoinRecord
import Netsdb.Sink.Pipeline
import Netsdb.Lib.Grid
import Netsdb.Planning.LogicalPlan

/-!
# The sinks that build the hash tables of a join (`JoinTuple.h`)

* `JoinSink`               one `JoinMap` a page;
* `PartitionedJoinSink`    a `JoinMap` for every partition of every node;
* `joinSinks_exact`        every run in which no push of a hash that is there runs out of space has
                           on its pages just the rows that came in.
-/

set_option linter.unusedSectionVars false

namespace Netsdb
open Machine

/-- a row: the hash, and the record that `pack` makes of its columns -/
abbrev JoinRow (V : Type*) := Nat × V

/-- what fails in a call of `writeOut`: in row `i` of the tuple set -/
abbrev RowFails (V : Type*) := Nat → JoinMap.RecordFail V

def RowFails.tail {V : Type*} (fail : RowFails V) : RowFails V := fun i => fail (i + 1)

/-- the pairs that a map has of the rows: the reserved hash is replaced -/
def stored {V : Type*} (rows : List (JoinRow V)) : Multiset (Nat × V) :=
  ↑(rows.map fun e => (hashValOf e.1, e.2))

namespace JoinSink
variable {V : Type*} [Inhabited V]

/-- the loop of `writeOut`; the handlers erase the rows in front of the one that failed -/
def writeRows : RowFails V → JoinMap V → List (JoinRow V) →
    Written Unit (JoinMap V) (List (JoinRow V))
  | _, myMap, [] => .done () myMap
  | fail, myMap, e :: rows =>
    match myMap.writeRecord (fail 0) e.1 e.2 with
    | .ret myMap' _ => writeRows fail.tail myMap' rows
    | .notEnoughSpace myMap' => .notEnoughSpace () myMap' (e :: rows)
    | .fatal => .fatal

/-- `p` and `n`: what is in the memory of the members that the constructor of the map leaves -/
def sink (l : JoinLayouts) (p : Nat) (n : Int) :
    ComputeSink Unit (JoinMap V) (List (JoinRow V)) (RowFails V) :=
  ⟨JoinMap.create l 2 p n, fun fail _ myMap rows => writeRows fail myMap rows⟩

/-- the condition on a call: every row meets the condition on a record, when its turn comes -/
def RowsFine : RowFails V → JoinMap V → List (JoinRow V) → Prop
  | _, _, [] => True
  | fail, myMap, e :: rows => JoinMap.RecordFine (fail 0) myMap e.1 ∧
    match myMap.writeRecord (fail 0) e.1 e.2 with
    | .ret myMap' _ => RowsFine fail.tail myMap' rows
    | _ => True

end JoinSink

structure PartitionedJoinSink where
  numPartitionsPerNode : Nat
  numNodes : Nat
  partitionedJoinType : JoinType
  partitions_pos : 0 < numPartitionsPerNode
  nodes_pos : 0 < numNodes

namespace PartitionedJoinSink
variable {V : Type*} [Inhabited V]

/-- the index of the map for a key -/
def index (k : PartitionedJoinSink) (curPartitionId key : Nat) : Nat :=
  (if k.partitionedJoinType ≠ .CrossProduct then key else curPartitionId) %
    (k.numPartitionsPerNode * k.numNodes)

def createNewOutputContainer (k : PartitionedJoinSink) (l : JoinLayouts) :
    Option (List (List (JoinMap V))) :=
  Grid.make k.numNodes k.numPartitionsPerNode fun i j =>
    JoinMap.create l 2 (i * k.numPartitionsPerNode + j) k.numPartitionsPerNode

/-- the loop of `writeOut` -/
def writeRows (k : PartitionedJoinSink) (cur : Nat) : RowFails V → List (List (JoinMap V)) →
    List (JoinRow V) → Written Nat (List (List (JoinMap V))) (List (JoinRow V))
  | _, writeMe, [] => .done cur writeMe
  | fail, writeMe, e :: rows =>
    let nodeIndex := k.index cur e.1 / k.numPartitionsPerNode
    let partitionIndex := k.index cur e.1 % k.numPartitionsPerNode
    match Grid.getAt writeMe nodeIndex partitionIndex with
    | some myMap =>
      match myMap.writeRecord (fail 0) e.1 e.2 with
      | .ret myMap' _ =>
        writeRows k cur fail.tail (Grid.setAt writeMe nodeIndex partitionIndex myMap') rows
      | .notEnoughSpace myMap' =>
        .notEnoughSpace cur (Grid.setAt writeMe nodeIndex partitionIndex myMap') (e :: rows)
      | .fatal => .fatal
    | none => .fatal

/-- `curPartitionId++`, an `int` -/
def nextPartition (k : PartitionedJoinSink) (cur : Nat) : Nat :=
  if k.partitionedJoinType = .CrossProduct then cur + 1 else cur

def sink (k : PartitionedJoinSink) (l : JoinLayouts) :
    ComputeSink Nat (List (List (JoinMap V))) (List (JoinRow V)) (RowFails V) :=
  ⟨k.createNewOutputContainer l, fun fail cur writeMe rows =>
    if k.nextPartition cur < 2^31 then k.writeRows (k.nextPartition cur) fail writeMe rows
    else .fatal⟩

/-- the condition on a call -/
def RowsFine (k : PartitionedJoinSink) (cur : Nat) : RowFails V → List (List (JoinMap V)) →
    List (JoinRow V) → Prop
  | _, _, [] => True
  | fail, writeMe, e :: rows =>
    match Grid.getAt writeMe (k.index cur e.1 / k.numPartitionsPerNode)
      (k.index cur e.1 % k.numPartitionsPerNode) with
    | some myMap => JoinMap.RecordFine (fail 0) myMap e.1 ∧
      match myMap.writeRecord (fail 0) e.1 e.2 with
      | .ret myMap' _ => RowsFine k cur fail.tail
        (Grid.setAt writeMe (k.index cur e.1 / k.numPartitionsPerNode)
          (k.index cur e.1 % k.numPartitionsPerNode) myMap') rows
      | _ => True
    | none => True

end PartitionedJoinSink

/-! ## a call of `writeOut` -/

section
variable {V : Type*} [Inhabited V]

theorem stored_cons (e : JoinRow V) (rows : List (JoinRow V)) :
    stored (e :: rows) = {(hashValOf e.1, e.2)} + stored rows := rfl

theorem stored_append (rows rows' : List (JoinRow V)) :
    stored (rows ++ rows') = stored rows + stored rows' := by
  rw [stored, List.map_append]
  rfl

theorem stored_flatten (fed : List (List (JoinRow V))) : (fed.map stored).sum = stored fed.flatten := by
  induction fed with
  | nil => rfl
  | cons rows fed ih => rw [List.map_cons, List.sum_cons, ih, List.flatten_cons, stored_append]

/-- what a sink with one map keeps -/
def JoinSink.ledger : Ledger Unit (JoinMap V) (List (JoinRow V)) (Multiset (Nat × V)) where
  good := JoinMap.Good
  valid := fun _ => True
  ready := fun _ => True
  busy := fun _ _ => True
  amount := JoinMap.contents
  worth := stored
  pending := fun _ => stored

/-- **`JoinSink::writeOut`.** -/
theorem JoinSink.writeRows_spec (rows : List (JoinRow V)) : ∀ (fail : RowFails V) (m : JoinMap V),
    m.Good → RowsFine fail m rows →
    (∃ m', writeRows fail m rows = .done () m' ∧ m'.Good ∧
        m'.contents = m.contents + stored rows) ∨
      ∃ m' rest, writeRows fail m rows = .notEnoughSpace () m' rest ∧
        m'.contents + stored rest = m.contents + stored rows := by
  induction rows with
  | nil => exact fun fail m hm _ => Or.inl ⟨m, rfl, hm, (add_zero _).symm⟩
  | cons e rows ih =>
    intro fail m hm hf
    obtain ⟨hrec, hrest⟩ := hf
    obtain ⟨m', hw, hp⟩ | ⟨m', hw, hread, -, hr⟩ := JoinMap.writeRecord_spec hm hrec e.2
    · rw [hw] at hrest
      have hc := JoinMap.Pushed.contents hm hp
      simp only [writeRows, hw]
      rw [stored_cons, ← add_assoc, ← hc]
      exact ih fail.tail m' hp.good hrest
    · refine Or.inr ⟨m', e :: rows, by simp only [writeRows, hw], ?_⟩
      rw [JoinMap.contents_congr hm.sound.readable hread hr]

theorem JoinSink.conserves {l : JoinLayouts} (hf : PairArray.TableFits l.table 2)
    (ho : l.outer.Fits 1) (p : Nat) (n : Int) : (JoinSink.sink (V := V) l p n).Conserves ledger
      fun fail _ m rows => RowsFine fail m rows := by
  refine ⟨?_, fun _ _ _ _ => ⟨trivial, rfl⟩, fun fail _ m rows hm _ hfine => ?_⟩
  · obtain ⟨m, hm, hg, hr, -⟩ := JoinMap.create_spec (V := V) (p := p) (k := n) (Nat.le_refl 2) hf ho
    exact ⟨m, hm, JoinMap.contents_empty hg.sound.readable hr, hg⟩
  · obtain ⟨m', hw, hg, hc⟩ | ⟨m', rest, hw, hc⟩ := writeRows_spec rows fail m hm hfine
    · exact Or.inl ⟨(), m', hw, hg, trivial, hc⟩
    · exact Or.inr ⟨(), m', rest, hw, trivial, hc⟩

end

namespace PartitionedJoinSink
variable {V : Type*} [Inhabited V] {k : PartitionedJoinSink}

/-- the maps of a container -/
def GoodMaps (k : PartitionedJoinSink) (c : List (List (JoinMap V))) : Prop :=
  Grid.Shaped k.numNodes k.numPartitionsPerNode (fun _ _ m => m.Good) c

def contents (c : List (List (JoinMap V))) : Multiset (Nat × V) := Grid.nest JoinMap.contents c

theorem index_lt (k : PartitionedJoinSink) (cur key : Nat) :
    k.index cur key / k.numPartitionsPerNode < k.numNodes ∧
      k.index cur key % k.numPartitionsPerNode < k.numPartitionsPerNode := by
  have hpos := k.partitions_pos
  refine ⟨?_, Nat.mod_lt _ hpos⟩
  rw [Nat.div_lt_iff_lt_mul hpos, Nat.mul_comm]
  exact Nat.mod_lt _ (Nat.mul_pos hpos k.nodes_pos)

def ledger (k : PartitionedJoinSink) :
    Ledger Nat (List (List (JoinMap V))) (List (JoinRow V)) (Multiset (Nat × V)) where
  good := k.GoodMaps
  valid := fun _ => True
  ready := fun _ => True
  busy := fun _ _ => True
  amount := contents
  worth := stored
  pending := fun _ => stored

/-- **`PartitionedJoinSink::writeOut`.** -/
theorem writeRows_spec (cur : Nat) (rows : List (JoinRow V)) : ∀ (fail : RowFails V)
    (c : List (List (JoinMap V))), k.GoodMaps c → k.RowsFine cur fail c rows →
    (∃ c', k.writeRows cur fail c rows = .done cur c' ∧ k.GoodMaps c' ∧
        contents c' = contents c + stored rows) ∨
      ∃ c' rest, k.writeRows cur fail c rows = .notEnoughSpace cur c' rest ∧
        contents c' + stored rest = contents c + stored rows := by
  induction rows with
  | nil => exact fun fail c hc _ => Or.inl ⟨c, rfl, hc, (add_zero _).symm⟩
  | cons e rows ih =>
    intro fail c hc hf
    obtain ⟨hi, hj⟩ := k.index_lt cur e.1
    obtain ⟨m, hm, hgood⟩ := hc.getAt hi hj
    rw [RowsFine, hm] at hf
    obtain ⟨hrec, hrest⟩ := hf
    obtain ⟨m', hw, hp⟩ | ⟨m', hw, hread, -, hr⟩ := JoinMap.writeRecord_spec hgood hrec e.2
    · rw [hw] at hrest
      have hsum : contents (Grid.setAt c (k.index cur e.1 / k.numPartitionsPerNode)
          (k.index cur e.1 % k.numPartitionsPerNode) m') =
          contents c + {(hashValOf e.1, e.2)} :=
        Grid.nest_setAt hm (JoinMap.Pushed.contents hgood hp)
      simp only [writeRows, hm, hw]
      rw [stored_cons, ← add_assoc, ← hsum]
      exact ih fail.tail _ (hc.setAt hp.good) hrest
    · have hsum : contents (Grid.setAt c (k.index cur e.1 / k.numPartitionsPerNode)
          (k.index cur e.1 % k.numPartitionsPerNode) m') = contents c + 0 :=
        Grid.nest_setAt hm (by
          rw [add_zero, JoinMap.contents_congr hgood.sound.readable hread hr])
      refine Or.inr ⟨Grid.setAt c (k.index cur e.1 / k.numPartitionsPerNode)
        (k.index cur e.1 % k.numPartitionsPerNode) m', e :: rows,
        by simp only [writeRows, hm, hw], ?_⟩
      rw [hsum, add_zero]

/-- the condition on a call: no overflow of `curPartitionId`, and every row meets its condition -/
def CallFine (k : PartitionedJoinSink) (fail : RowFails V) (cur : Nat) (c : List (List (JoinMap V)))
    (rows : List (JoinRow V)) : Prop :=
  k.nextPartition cur < 2^31 ∧ k.RowsFine (k.nextPartition cur) fail c rows

theorem conserves {l : JoinLayouts} (hf : PairArray.TableFits l.table 2) (ho : l.outer.Fits 1) :
    (k.sink (V := V) l).Conserves k.ledger k.CallFine := by
  refine ⟨?_, fun _ _ _ _ => ⟨trivial, rfl⟩, fun fail cur c rows hc _ hfine => ?_⟩
  · obtain ⟨c, hc, hshaped⟩ := @Grid.make_spec _ k.numNodes k.numPartitionsPerNode
      (fun _ _ (m : JoinMap V) => m.Good ∧ m.contents = 0)
      (fun i j => JoinMap.create l 2 (i * k.numPartitionsPerNode + j) k.numPartitionsPerNode)
      fun i _ j _ => by
        obtain ⟨m, hm, hg, hr, -⟩ := JoinMap.create_spec (V := V)
          (p := i * k.numPartitionsPerNode + j) (k := k.numPartitionsPerNode) (Nat.le_refl 2) hf ho
        exact ⟨m, hm, hg, JoinMap.contents_empty hg.sound.readable hr⟩
    exact ⟨c, hc, Grid.nest_zero fun i j m hm => (hshaped.entry i j m hm).2,
      hshaped.rows, hshaped.cols, fun i j m hm => (hshaped.entry i j m hm).1⟩
  · obtain ⟨hlt, hrows⟩ := hfine
    simp only [sink, if_pos hlt]
    obtain ⟨c', hw, hg, hsum⟩ | ⟨c', rest, hw, hsum⟩ :=
      writeRows_spec (k.nextPartition cur) rows fail c hc hrows
    · exact Or.inl ⟨_, c', hw, hg, trivial, hsum⟩
    · exact Or.inr ⟨_, c', rest, hw, trivial, hsum⟩

end PartitionedJoinSink

/-! ## runs -/

section
variable {V : Type*} [Inhabited V]

theorem stored_pending {σ C : Type*} {L : Ledger σ C (List (JoinRow V)) (Multiset (Nat × V))}
    (hL : L.pending = fun _ => stored) (s : Pipeline σ C (List (JoinRow V))) :
    s.pending L = stored (s.curChunk.getD []) := by
  unfold Pipeline.pending
  rw [hL]
  cases s.curChunk with
  | none => rfl
  | some rows => rfl

/-- **No row is lost or duplicated**, as long as no push of a hash that is there runs out of
space. -/
theorem joinSinks_exact {l : JoinLayouts} (hf : PairArray.TableFits l.table 2)
    (ho : l.outer.Fits 1) :
    (∀ p n, ∃ c₀, (JoinSink.sink (V := V) l p n).createNewOutputContainer = some c₀ ∧ ∀ s fed,
      Reach (Pipeline.fedStep (JoinSink.sink l p n))
        (fun x op => x.1.Fine (JoinSink.sink l p n) (fun _ => True)
          (fun fail _ myMap rows => JoinSink.RowsFine fail myMap rows) op)
        (Pipeline.start c₀ (), []) (s, fed) →
      s.total JoinMap.contents + stored (s.curChunk.getD []) = stored fed.flatten) ∧
    (∀ k : PartitionedJoinSink, ∃ c₀, (k.sink (V := V) l).createNewOutputContainer = some c₀ ∧
      ∀ s fed, Reach (Pipeline.fedStep (k.sink l))
        (fun x op => x.1.Fine (k.sink l) (fun _ => True) k.CallFine op)
        (Pipeline.start c₀ 0, []) (s, fed) →
      s.total PartitionedJoinSink.contents + stored (s.curChunk.getD []) = stored fed.flatten) := by
  refine ⟨fun p n => ?_, fun k => ?_⟩
  · obtain ⟨c₀, hc₀, h⟩ := Pipeline.conserved_of_reach (JoinSink.conserves (V := V) hf ho p n)
      (t := ()) trivial
    refine ⟨c₀, hc₀, fun s fed hreach => ?_⟩
    have hbal := (h s fed hreach).balance
    rw [stored_pending rfl, show (fed.map JoinSink.ledger.worth).sum = _ from stored_flatten fed]
      at hbal
    exact hbal
  · obtain ⟨c₀, hc₀, h⟩ := Pipeline.conserved_of_reach
      (PartitionedJoinSink.conserves (V := V) (k := k) hf ho) (t := 0) trivial
    refine ⟨c₀, hc₀, fun s fed hreach => ?_⟩
    have hbal := (h s fed hreach).balance
    rw [stored_pending rfl, show (fed.map k.ledger.worth).sum = _ from stored_flatten fed] at hbal
    exact hbal

instance JoinSink.decidableRowsFine (fail : RowFails V) (myMap : JoinMap V) :
    ∀ rows, Decidable (JoinSink.RowsFine fail myMap rows)
  | [] => .isTrue trivial
  | e :: rows =>
    have : Decidable (match myMap.writeRecord (fail 0) e.1 e.2 with
        | .ret myMap' _ => RowsFine fail.tail myMap' rows
        | _ => True) := by
      cases myMap.writeRecord (fail 0) e.1 e.2 with
      | ret myMap' _ => exact JoinSink.decidableRowsFine fail.tail myMap' rows
      | notEnoughSpace _ => exact .isTrue trivial
      | fatal => exact .isTrue trivial
    inferInstanceAs (Decidable (_ ∧ _))

end

/-- nothing fails -/
def noFails : RowFails Nat := fun _ => ⟨[], none⟩

/-- these steps of the push of row `i` fail, and the copy into it -/
def failsAt (i : Nat) (push : List JoinSite) (pack : Option Nat) : RowFails Nat := fun j =>
  if j = i then ⟨push, pack⟩ else ⟨[], none⟩

/-- two calls fail: in the copy into a second value, and in the push of a new hash -/
theorem joinSinks_exact_retry : ∃ s : Pipeline Unit (JoinMap Nat) (List (JoinRow Nat)),
    s.unwrittenPages.length = 2 ∧ s.curChunk = none ∧
      s.total JoinMap.contents = {(1, 10), (1, 20), (858931273, 30)} := by
  obtain ⟨hjoin, -⟩ := joinSinks_exact (V := Nat) (l := smallLayouts) (by decide) (by decide)
  obtain ⟨c₀, hc₀, hreach⟩ := hjoin 0 1
  have hrun : ((JoinMap.create (V := Nat) smallLayouts 2 0 1).bind fun c =>
      run (guarded (Pipeline.fedStep (JoinSink.sink smallLayouts 0 1)) fun x op =>
        x.1.Fine (JoinSink.sink smallLayouts 0 1) (fun _ => True)
          (fun fail _ myMap rows => JoinSink.RowsFine fail myMap rows) op) (Pipeline.start c (), [])
        [.chunk [(1, 10), (1, 20), (493295393, 30)], .writeOut (failsAt 1 [] (some 7)),
          .writeOut (failsAt 1 [.value] none), .writeOut noFails]).map
      (fun x => (x.1.unwrittenPages.length, x.1.curChunk.isNone, x.2)) =
      some (2, true, [[(1, 10), (1, 20), (493295393, 30)]]) := by
    decide
  have hc₀' : JoinMap.create smallLayouts 2 0 1 = some c₀ := hc₀
  rw [hc₀', Option.bind_some] at hrun
  obtain ⟨⟨s, fed⟩, hs, hobs⟩ := Option.map_eq_some_iff.mp hrun
  simp only [Prod.mk.injEq] at hobs
  obtain ⟨hpages, hnone, hfed⟩ := hobs
  have hnone' : s.curChunk = none := Option.isNone_iff_eq_none.mp hnone
  have hsum := hreach s fed (Reach.of_run _ hs)
  rw [hnone', hfed] at hsum
  exact ⟨s, hpages, hnone', (add_zero _).symm.trans hsum⟩

/-- the second value of a hash does not fit on the page: the handler takes the first value away -/
theorem joinSinks_not_always : ¬ ∀ c₀, JoinMap.create (V := Nat) smallLayouts 2 0 1 = some c₀ →
    ∀ s fed, Reach (Pipeline.fedStep (JoinSink.sink smallLayouts 0 1)) (fun _ _ => True)
      (Pipeline.start c₀ (), []) (s, fed) →
    s.total JoinMap.contents + stored (s.curChunk.getD []) = stored fed.flatten := by
  intro h
  have hrun : ((JoinMap.create (V := Nat) smallLayouts 2 0 1).bind fun c =>
      run (guarded (Pipeline.fedStep (JoinSink.sink smallLayouts 0 1)) fun _ _ => True)
        (Pipeline.start c (), [])
        [.chunk [(1, 10), (1, 20)], .writeOut (failsAt 1 [.temp] none), .writeOut noFails]).map
      (fun x => (x.1.pages.map fun page => page.elim [] fun m =>
        m.iterate.flatMap fun e => e.2.map fun v => (e.1, v), x.1.curChunk.isNone, x.2)) =
      some ([[], [(1, 20)]], true, [[(1, 10), (1, 20)]]) := by
    decide
  obtain ⟨c₀, hc₀⟩ : ∃ c₀, JoinMap.create (V := Nat) smallLayouts 2 0 1 = some c₀ := ⟨_, rfl⟩
  rw [hc₀, Option.bind_some] at hrun
  obtain ⟨⟨s, fed⟩, hs, hobs⟩ := Option.map_eq_some_iff.mp hrun
  simp only [Prod.mk.injEq] at hobs
  obtain ⟨hpages, hnone, hfed⟩ := hobs
  have hsum := h c₀ hc₀ s fed (Reach.of_run _ hs)
  have htotal : s.total JoinMap.contents = {(1, 20)} := by
    have hmap : s.pages.map (Pipeline.pageAmount JoinMap.contents) =
        (s.pages.map fun page => page.elim [] fun m =>
          m.iterate.flatMap fun e => e.2.map fun v => (e.1, v)).map
            fun pairs : List (Nat × Nat) => (↑pairs : Multiset (Nat × Nat)) := by
      rw [List.map_map]
      refine List.map_congr_left fun page _ => ?_
      cases page <;> rfl
    rw [Pipeline.total, hmap, hpages]
    rfl
  rw [htotal, Option.isNone_iff_eq_none.mp hnone, hfed] at hsum
  exact absurd (congrArg Multiset.card hsum) (by decide)

end Netsdb
