import Netsdb.Sink.Aggregate
import Netsdb.Sink.Pipeline
import Netsdb.Lib.Grid
import Mathlib.Algebra.Group.Pi.Basic

/-!
# The sinks of an aggregation (`HashSink.h`, `ShuffleSink.h`, `CombinedShuffleSink.h`)

They differ in the maps that a container has, and in how the map of a key is found.

* `AggregateSink`      the maps of a container, and the loop of `writeOut` over them;
* `hashSink`, `shuffleSink`, `combinedShuffleSink`   the three;
* `writeRows_spec`     a call adds the rows that it takes out of the tuple set;
* `sinks_exact`        every run has on its pages, in the map of a key, what the rows of the key add up to,
                       as long as no exception that leaves the handlers comes behind a row of its call.
-/

set_option linter.unusedSectionVars false

namespace Netsdb
open Machine

/-- what fails in a call of `writeOut`: in row `i` of the tuple set -/
abbrev RowsFail (V : Type*) := Nat → AggregateFail V

/-- `slot`: where the map of a key is -/
structure AggregateSink (K V C S : Type*) [BEq K] where
  slot : K → S
  getMap : C → S → Option (PDBMap K V)
  setMap : C → S → PDBMap K V → C
  createNewOutputContainer : Option C
  slot_congr : ∀ k k', (k == k') = true → slot k = slot k'
  get_set : ∀ c s m m', getMap c s = some m → getMap (setMap c s m') s = some m'
  get_set_ne : ∀ c s s' m', s ≠ s' → getMap (setMap c s m') s' = getMap c s'

namespace AggregateSink
variable {K V C S : Type*} [BEq K] [Hashable K] [Inhabited K] [Inhabited V]

section
variable [AddSemigroup V]

/-- the loop of `writeOut`; the handlers erase the rows in front of the one that failed, and an exception
that leaves them leaves `all` rows -/
def writeRows (k : AggregateSink K V C S) (all : List (K × V)) : RowsFail V → C → List (K × V) →
    Written Unit C (List (K × V))
  | _, writeMe, [] => .done () writeMe
  | fail, writeMe, e :: rows =>
    match k.getMap writeMe (k.slot e.1) with
    | some myMap =>
      match myMap.aggregate (fail 0) e.1 e.2 with
      | .done m => writeRows k all (fun i => fail (i + 1)) (k.setMap writeMe (k.slot e.1) m) rows
      | .caught m => .notEnoughSpace () (k.setMap writeMe (k.slot e.1) m) (e :: rows)
      | .uncaught m => .notEnoughSpace () (k.setMap writeMe (k.slot e.1) m) all
      | .fatal => .fatal
    | none => .fatal

def sink (k : AggregateSink K V C S) : ComputeSink Unit C (List (K × V)) (RowsFail V) :=
  ⟨k.createNewOutputContainer, fun fail _ writeMe rows => k.writeRows rows fail writeMe rows⟩

/-- the condition on a call: every row meets its condition when its turn comes, and only for the first one
an exception leaves the handlers -/
def RowsFine (k : AggregateSink K V C S) (first : Bool) : RowsFail V → C → List (K × V) → Prop
  | _, _, [] => True
  | fail, writeMe, e :: rows =>
    match k.getMap writeMe (k.slot e.1) with
    | some myMap => PDBMap.AggregateFine (fail 0) myMap e.1 ∧
      match myMap.aggregate (fail 0) e.1 e.2 with
      | .done m => RowsFine k false (fun i => fail (i + 1)) (k.setMap writeMe (k.slot e.1) m) rows
      | .uncaught _ => first = true
      | _ => True
    | none => True

end

/-! ## a call -/

section
variable [AddCommSemigroup V] [EquivBEq K] [LawfulHashable K] [DecidableEq S]
  {k : AggregateSink K V C S} {c : C}

/-- what the maps have for a key, slot by slot -/
def amount (k : AggregateSink K V C S) (c : C) : S → K → WithZero V := fun s key =>
  (k.getMap c s).elim 0 fun m => m.total key

/-- what rows add up to, which belongs to one slot -/
def worth (k : AggregateSink K V C S) (rows : List (K × V)) : S → K → WithZero V := fun s key =>
  if k.slot key = s then FiniteMap.keySum key rows else 0

theorem worth_apply (k : AggregateSink K V C S) (rows : List (K × V)) (s : S) (key : K) :
    k.worth rows s key = if k.slot key = s then FiniteMap.keySum key rows else 0 := rfl

/-- each key has its map -/
def Good (k : AggregateSink K V C S) (c : C) : Prop :=
  ∀ key, ∃ m, k.getMap c (k.slot key) = some m ∧ m.Good

theorem worth_nil (k : AggregateSink K V C S) : k.worth [] = 0 := by
  funext s key
  exact ite_self (0 : WithZero V)

theorem worth_append (k : AggregateSink K V C S) (rows rows' : List (K × V)) :
    k.worth (rows ++ rows') = k.worth rows + k.worth rows' := by
  funext s key
  rw [Pi.add_apply, Pi.add_apply, worth_apply, worth_apply, worth_apply]
  split
  · exact FiniteMap.keySum_append key rows rows'
  · exact (add_zero 0).symm

theorem worth_flatten (k : AggregateSink K V C S) (fed : List (List (K × V))) :
    (fed.map k.worth).sum = k.worth fed.flatten := by
  induction fed with
  | nil => exact (worth_nil k).symm
  | cons rows fed ih => rw [List.map_cons, List.sum_cons, ih, List.flatten_cons, worth_append]

/-- a row belongs to the slot of its key, and to that of an equal key, which is the same -/
theorem worth_singleton (k : AggregateSink K V C S) (e : K × V) (s : S) (key : K) :
    k.worth [e] s key = if k.slot e.1 = s then FiniteMap.single key e else 0 := by
  rw [worth_apply, FiniteMap.keySum_singleton]
  by_cases hkey : (e.1 == key) = true
  · rw [k.slot_congr e.1 key hkey]
  · rw [FiniteMap.single_of_ne hkey, ite_self, ite_self]

/-- a map grows -/
theorem amount_set {s : S} {m m' : PDBMap K V} (hm : k.getMap c s = some m) (d : S → K → WithZero V)
    (hd : ∀ key, m'.total key = m.total key + d s key) (hother : ∀ s', s ≠ s' → d s' = 0) :
    k.amount (k.setMap c s m') = k.amount c + d := by
  funext s' key
  show (k.getMap (k.setMap c s m') s').elim 0 _ = (k.getMap c s').elim 0 _ + d s' key
  by_cases hs : s = s'
  · subst hs
    rw [k.get_set c s m m' hm, hm]
    exact hd key
  · rw [k.get_set_ne c s s' m' hs, hother s' hs]
    exact (add_zero _).symm

theorem good_set (h : k.Good c) {s : S} {m m' : PDBMap K V} (hm : k.getMap c s = some m) (hg : m'.Good) :
    k.Good (k.setMap c s m') := by
  intro key
  by_cases hs : s = k.slot key
  · subst hs
    exact ⟨m', k.get_set c _ m m' hm, hg⟩
  · rw [k.get_set_ne c s _ m' hs]
    exact h key

/-- a value comes into the map of its key -/
theorem amount_added {key : K} {value : V} {m m' : PDBMap K V}
    (hm : k.getMap c (k.slot key) = some m) (ha : PDBMap.Added m key value m') :
    k.amount (k.setMap c (k.slot key) m') = k.amount c + k.worth [(key, value)] := by
  refine amount_set hm _ (fun key' => ?_) fun s hs => ?_
  · rw [ha.total, worth_singleton, if_pos rfl]
  · funext key'
    rw [worth_singleton, if_neg hs]
    rfl

/-- a call that fails in a row leaves every key what it had -/
theorem amount_kept {s : S} {m m' : PDBMap K V} (hm : k.getMap c s = some m)
    (h : ∀ key, m'.total key = m.total key) : k.amount (k.setMap c s m') = k.amount c := by
  have hzero : k.amount (k.setMap c s m') = k.amount c + 0 :=
    amount_set hm 0 (fun key => (h key).trans (add_zero _).symm) fun _ _ => rfl
  rw [hzero, add_zero]

/-- **`writeOut`.** -/
theorem writeRows_spec (rows : List (K × V)) : ∀ (first : Bool) (all : List (K × V)) (fail : RowsFail V)
    (c : C), k.Good c → k.RowsFine first fail c rows → (first = true → all = rows) →
    (∃ c', k.writeRows all fail c rows = .done () c' ∧ k.Good c' ∧
        k.amount c' = k.amount c + k.worth rows) ∨
      ∃ c' rest, k.writeRows all fail c rows = .notEnoughSpace () c' rest ∧
        k.amount c' + k.worth rest = k.amount c + k.worth rows := by
  induction rows with
  | nil =>
    intro first all fail c hc _ _
    refine .inl ⟨c, rfl, hc, ?_⟩
    rw [worth_nil, add_zero]
  | cons e rows ih =>
    intro first all fail c hc hf hall
    obtain ⟨m, hm, hgood⟩ := hc e.1
    rw [RowsFine, hm] at hf
    obtain ⟨hfine, hrest⟩ := hf
    rcases PDBMap.aggregate_spec hgood hfine e.2 with ⟨m', hdone, hadd⟩ | ⟨m', hfail, htotal⟩
    · rw [hdone] at hrest
      simp only [writeRows, hm, hdone]
      rw [← List.singleton_append, worth_append, ← add_assoc, ← amount_added hm hadd]
      exact ih false all _ _ (good_set hc hm hadd.good) hrest fun h => (Bool.false_ne_true h).elim
    · rcases hfail with hcaught | huncaught
      · refine .inr ⟨k.setMap c (k.slot e.1) m', e :: rows, by simp only [writeRows, hm, hcaught], ?_⟩
        rw [amount_kept hm htotal]
      · rw [huncaught] at hrest
        refine .inr ⟨k.setMap c (k.slot e.1) m', all, by simp only [writeRows, hm, huncaught], ?_⟩
        rw [amount_kept hm htotal, hall hrest]

def ledger (k : AggregateSink K V C S) : Ledger Unit C (List (K × V)) (S → K → WithZero V) where
  good := k.Good
  valid := fun _ => True
  ready := fun _ => True
  busy := fun _ _ => True
  amount := k.amount
  worth := k.worth
  pending := fun _ => k.worth

/-- an empty container can be made -/
def Creates (k : AggregateSink K V C S) : Prop :=
  ∃ c, k.createNewOutputContainer = some c ∧ k.Good c ∧
    ∀ s m, k.getMap c s = some m → ∀ key, m.total key = 0

theorem conserves (hcreate : k.Creates) :
    k.sink.Conserves k.ledger fun fail _ c rows => k.RowsFine true fail c rows := by
  refine ⟨?_, fun _ _ _ _ => ⟨trivial, rfl⟩, fun fail _ c rows hc _ hfine => ?_⟩
  · obtain ⟨c, hc, hgood, hempty⟩ := hcreate
    refine ⟨c, hc, ?_, hgood⟩
    funext s key
    show (k.getMap c s).elim 0 _ = 0
    cases hm : k.getMap c s with
    | none => rfl
    | some m => exact hempty s m hm key
  · rcases writeRows_spec rows true rows fail c hc hfine fun _ => rfl with
      ⟨c', hw, hg, ha⟩ | ⟨c', rest, hw, ha⟩
    · exact .inl ⟨(), c', hw, hg, trivial, ha⟩
    · exact .inr ⟨(), c', rest, hw, trivial, ha⟩

/-- the runs of the pipeline with a sink, as long as calls meet their condition -/
def Runs (k : AggregateSink K V C S) (c₀ : C) (s : Pipeline Unit C (List (K × V)))
    (fed : List (List (K × V))) : Prop :=
  Reach (Pipeline.fedStep k.sink) (fun x op => x.1.Fine k.sink (fun _ => True)
    (fun fail _ c rows => k.RowsFine true fail c rows) op) (Pipeline.start c₀ (), []) (s, fed)

/-- what the pages have for a key, and what the tuple set still has, is what came in, in its slot -/
def Exact (k : AggregateSink K V C S) : Prop :=
  ∃ c₀, k.createNewOutputContainer = some c₀ ∧ ∀ s fed, k.Runs c₀ s fed → ∀ slot key,
    s.total k.amount slot key + k.worth (s.curChunk.getD []) slot key =
      if k.slot key = slot then FiniteMap.keySum key fed.flatten else 0

theorem exact_of_creates (hcreate : k.Creates) : k.Exact := by
  obtain ⟨c₀, hc₀, h⟩ := Pipeline.conserved_of_reach (conserves hcreate) (t := ()) trivial
  refine ⟨c₀, hc₀, fun s fed hreach slot key => ?_⟩
  have hbal := (h s fed hreach).balance
  rw [show (fed.map k.ledger.worth).sum = _ from worth_flatten k fed] at hbal
  have hpending : s.pending k.ledger = k.worth (s.curChunk.getD []) := by
    rw [Pipeline.pending]
    cases s.curChunk with
    | none => exact (worth_nil k).symm
    | some rows => rfl
  rw [hpending] at hbal
  exact congrFun (congrFun hbal slot) key

end

end AggregateSink

/-! ## the three sinks -/

section
variable {K V : Type*} [BEq K] [Hashable K] [Inhabited K] [Inhabited V] [EquivBEq K] [LawfulHashable K]

/-- one map -/
def hashSink (l : ArrayLayout) : AggregateSink K V (PDBMap K V) Unit where
  slot _ := ()
  getMap writeMe _ := some writeMe
  setMap _ _ myMap := myMap
  createNewOutputContainer := PDBMap.create l 2
  slot_congr _ _ _ := rfl
  get_set _ _ _ _ _ := rfl
  get_set_ne _ s s' _ h := absurd (Subsingleton.elim s s') h

/-- a map for each partition -/
def shuffleSink (l : ArrayLayout) (numPartitions : Nat) : AggregateSink K V (List (PDBMap K V)) Nat where
  slot key := (hash key).toNat % numPartitions
  getMap writeMe i := writeMe[i]?
  setMap writeMe i myMap := writeMe.set i myMap
  createNewOutputContainer := (List.range numPartitions).mapM fun _ => PDBMap.create l 4
  slot_congr key key' h := by rw [LawfulHashable.hash_eq key key' h]
  get_set writeMe i myMap m h := by
    rw [List.getElem?_set_self (List.getElem?_eq_some_iff.mp h).1]
  get_set_ne writeMe i i' m h := List.getElem?_set_ne h

/-- the place of a hash among the maps of the nodes -/
def nodeSlot (numPartitionsPerNode myHashID : Nat) : Nat × Nat :=
  (myHashID / numPartitionsPerNode, myHashID % numPartitionsPerNode)

/-- a map for each partition of each node -/
def combinedShuffleSink (l : ArrayLayout) (numNodes numPartitionsPerNode : Nat) :
    AggregateSink K V (List (List (PDBMap K V))) (Nat × Nat) where
  slot key := nodeSlot numPartitionsPerNode ((hash key).toNat % (numNodes * numPartitionsPerNode))
  getMap writeMe s := Grid.getAt writeMe s.1 s.2
  setMap writeMe s myMap := Grid.setAt writeMe s.1 s.2 myMap
  createNewOutputContainer := Grid.make numNodes numPartitionsPerNode fun _ _ => PDBMap.create l 64
  slot_congr key key' h := by rw [LawfulHashable.hash_eq key key' h]
  get_set writeMe s myMap m h := Grid.getAt_setAt_self h
  get_set_ne writeMe s s' m h := Grid.getAt_setAt_ne h

end

namespace AggregateSink
section
variable {K V : Type*} [BEq K] [Hashable K] [Inhabited K] [Inhabited V] [EquivBEq K] [LawfulHashable K]
  [AddCommSemigroup V] {l : ArrayLayout} {n : Nat}

/-- a map that has just been made -/
theorem new_map (h2 : 2 ≤ n) (hf : PairArray.TableFits l n) :
    ∃ m : PDBMap K V, PDBMap.create l n = some m ∧ m.Good ∧ ∀ key, m.total key = 0 := by
  obtain ⟨m, hm, hg, he⟩ := PDBMap.create_spec (K := K) (V := V) h2 hf
  refine ⟨m, hm, hg, fun key => ?_⟩
  rw [PDBMap.total_eq, he, FiniteMap.keySum_nil]

theorem hashSink_creates (hf : PairArray.TableFits l 2) : (hashSink (K := K) (V := V) l).Creates := by
  obtain ⟨m, hm, hg, hzero⟩ := new_map (K := K) (V := V) (Nat.le_refl 2) hf
  refine ⟨m, hm, fun key => ⟨m, rfl, hg⟩, fun s m' hm' => ?_⟩
  obtain rfl := Option.some.inj hm'
  exact hzero

theorem shuffleSink_creates {numPartitions : Nat} (hpos : 0 < numPartitions)
    (hf : PairArray.TableFits l 4) : (shuffleSink (K := K) (V := V) l numPartitions).Creates := by
  obtain ⟨m, hm, hg, hzero⟩ := new_map (K := K) (V := V) (n := 4) (by omega) hf
  obtain ⟨c, hc, hall⟩ := Grid.mapM_spec (Q := fun _ m' => m' = m) (l := List.range numPartitions)
    (f := fun _ => PDBMap.create l 4) fun i _ => ⟨m, hm, rfl⟩
  obtain ⟨hlen, hmaps⟩ := Grid.range_forall₂ hall
  refine ⟨c, hc, fun key => ?_, fun i m' hm' => ?_⟩
  · have hlt : (hash key).toNat % numPartitions < c.length := by
      rw [hlen]
      exact Nat.mod_lt _ hpos
    have hget := List.getElem?_eq_getElem hlt
    exact ⟨_, hget, (hmaps _ _ hget).symm ▸ hg⟩
  · rw [hmaps i m' hm']
    exact hzero

theorem combinedShuffleSink_creates {numNodes numPartitionsPerNode : Nat} (hnodes : 0 < numNodes)
    (hparts : 0 < numPartitionsPerNode) (hf : PairArray.TableFits l 64) :
    (combinedShuffleSink (K := K) (V := V) l numNodes numPartitionsPerNode).Creates := by
  obtain ⟨m, hm, hg, hzero⟩ := new_map (K := K) (V := V) (n := 64) (by omega) hf
  obtain ⟨c, hc, hshaped⟩ := @Grid.make_spec _ numNodes numPartitionsPerNode (fun _ _ m' => m' = m)
    (fun _ _ => PDBMap.create l 64) fun i _ j _ => ⟨m, hm, rfl⟩
  refine ⟨c, hc, fun key => ?_, fun s m' hm' => ?_⟩
  · have hrow : (hash key).toNat % (numNodes * numPartitionsPerNode) / numPartitionsPerNode < numNodes := by
      rw [Nat.div_lt_iff_lt_mul hparts]
      exact Nat.mod_lt _ (Nat.mul_pos hnodes hparts)
    obtain ⟨m', hm', rfl⟩ := hshaped.getAt hrow
      (Nat.mod_lt ((hash key).toNat % (numNodes * numPartitionsPerNode)) hparts)
    exact ⟨_, hm', hg⟩
  · rw [hshaped.entry s.1 s.2 m' hm']
    exact hzero

/-- **No row is lost or added twice**: in every run of a pipeline with one of the sinks, whatever runs out
of space and however rows come in chunks, the pages have for each key, in the map of its hash only, what
the values of its rows add up to, as long as an exception that no handler catches comes in the first row
of its call -/
theorem sinks_exact :
    (PairArray.TableFits l 2 → (hashSink (K := K) (V := V) l).Exact) ∧
      (∀ numPartitions, 0 < numPartitions → PairArray.TableFits l 4 →
        (shuffleSink (K := K) (V := V) l numPartitions).Exact) ∧
      ∀ numNodes numPartitionsPerNode, 0 < numNodes → 0 < numPartitionsPerNode →
        PairArray.TableFits l 64 →
        (combinedShuffleSink (K := K) (V := V) l numNodes numPartitionsPerNode).Exact :=
  ⟨fun hf => exact_of_creates (hashSink_creates hf),
    fun _ hpos hf => exact_of_creates (shuffleSink_creates hpos hf),
    fun _ _ hnodes hparts hf => exact_of_creates (combinedShuffleSink_creates hnodes hparts hf)⟩

end

/-! ### space runs out behind a row and in front of one -/

instance decidableRowsFine {K V C S : Type*} [BEq K] [Hashable K] [Inhabited K] [Inhabited V]
    [AddSemigroup V] [DecidableEq V] (k : AggregateSink K V C S) (first : Bool) (fail : RowsFail V) (c : C) :
    ∀ rows, Decidable (k.RowsFine first fail c rows)
  | [] => .isTrue trivial
  | e :: rows =>
    match hm : k.getMap c (k.slot e.1) with
    | none => .isTrue (by rw [RowsFine, hm]; trivial)
    | some m =>
      match ha : m.aggregate (fail 0) e.1 e.2 with
      | .done m' =>
        have := decidableRowsFine k false (fun i => fail (i + 1)) (k.setMap c (k.slot e.1) m') rows
        decidable_of_iff (PDBMap.AggregateFine (fail 0) m e.1 ∧
          k.RowsFine false (fun i => fail (i + 1)) (k.setMap c (k.slot e.1) m') rows)
          (by rw [RowsFine, hm]; simp only [ha])
      | .uncaught _ =>
        decidable_of_iff (PDBMap.AggregateFine (fail 0) m e.1 ∧ first = true)
          (by rw [RowsFine, hm]; simp only [ha])
      | .caught _ =>
        decidable_of_iff (PDBMap.AggregateFine (fail 0) m e.1) (by rw [RowsFine, hm]; simp only [ha, and_true])
      | .fatal =>
        decidable_of_iff (PDBMap.AggregateFine (fail 0) m e.1) (by rw [RowsFine, hm]; simp only [ha, and_true])

def sinkLayout : ArrayLayout := ⟨24, 64, 8, ArrayLayout.threeWords_pos⟩

/-- nothing fails -/
def quietRows : RowsFail Nat := fun _ => ⟨[], none, false, none, none⟩

/-- the copy of the key in the second row fails -/
def keyFails : RowsFail Nat := fun i => if i = 1 then ⟨[.copyKey], none, false, none, none⟩ else quietRows i

/-- `ValueType copy = temp` fails in the first row -/
def copyFails : RowsFail Nat := fun i => if i = 0 then ⟨[], none, true, none, none⟩ else quietRows i

theorem sinks_exact_retry : ∃ s : Pipeline Unit (PDBMap UInt64 Nat) (List (UInt64 × Nat)),
    s.unwrittenPages.length = 2 ∧ s.total (hashSink sinkLayout).amount () 1 = WithZero.coe 37 := by
  obtain ⟨hhash, -⟩ := sinks_exact (K := UInt64) (V := Nat) (l := sinkLayout)
  obtain ⟨c₀, hc₀, hreach⟩ := hhash (by decide)
  have hrun : ((PDBMap.create sinkLayout 2).bind fun c =>
      run (guarded (Pipeline.fedStep (hashSink (K := UInt64) (V := Nat) sinkLayout).sink) fun x op =>
        x.1.Fine (hashSink sinkLayout).sink (fun _ => True)
          (fun fail _ c rows => (hashSink sinkLayout).RowsFine true fail c rows) op) (Pipeline.start c (), [])
        [.chunk [(1, 10), (2, 5), (1, 20)], .writeOut keyFails, .writeOut quietRows, .chunk [(1, 7)],
          .writeOut copyFails, .writeOut quietRows]).map
      (fun x => (x.1.unwrittenPages.length, x.1.curChunk.isNone, x.2)) =
      some (2, true, [[(1, 10), (2, 5), (1, 20)], [(1, 7)]]) := by
    decide +kernel
  have hc₀' : PDBMap.create sinkLayout 2 = some c₀ := hc₀
  rw [hc₀', Option.bind_some] at hrun
  obtain ⟨⟨s, fed⟩, hs, hobs⟩ := Option.map_eq_some_iff.mp hrun
  obtain ⟨hpages, hobs⟩ := Prod.mk.inj hobs
  obtain ⟨hnone, rfl⟩ := Prod.mk.inj hobs
  have hsum := hreach s _ (Reach.of_run _ hs) () 1
  rw [Option.isNone_iff_eq_none.mp hnone] at hsum
  refine ⟨s, hpages, (add_zero _).symm.trans (hsum.trans ?_)⟩
  rfl

end AggregateSink

end Netsdb
