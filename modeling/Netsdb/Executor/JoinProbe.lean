import Netsdb.BuiltIn.JoinUndo
import Netsdb.Executor.ExecutorChain

/-!
# Probing a join's hash table (`JoinTuple.h`)

A record of the hash table has one field for each attribute of its side of the join. Each of these
attributes is a column of the output that is made once, and overwritten from its first row on for
every input.

* `unpack`, `eraseEnd`         a record into the columns, and the end of the columns cut off;
* `JoinProbe.process`, `PartitionedJoinProbe.process`   an input;
* `joinRows`                    the rows of the join;
* `join_computes`               every input of a probe gives its join;
* `join_not_always`             2^31 rows.
-/

set_option linter.unusedSectionVars false

namespace Netsdb
open TupleSet

variable {α : Type} [Inhabited α] {k : ℕ}

/-- the fields, from `myData` on through `myOtherData` -/
abbrev JoinTuple (α : Type) (k : ℕ) := Vector α k

def field (w : ℕ) (x : JoinTuple α k) : Value α := .obj (x.toList.getD w default)

def copyTo (m : Memory α) (input whichPos : ℕ) (myData : α) : Option (Memory α) := do
  let me ← m.cell input
  if me.rows.length ≤ whichPos then m.store input { me with rows := me.rows ++ [.obj myData] }
  else m.store input { me with rows := me.rows.set whichPos (.obj myData) }

/-- one field into each of the vectors `us` -/
def unpack : List α → ℕ → List ℕ → Memory α → Option (Memory α)
  | [], _, _, m => some m
  | _ :: _, _, [], _ => none
  | myData :: myOtherData, whichPosInTupleSet, u :: us, m => do
    let m ← copyTo m u whichPosInTupleSet myData
    unpack myOtherData whichPosInTupleSet us m

def eraseEnd (i : ℕ) : List ℕ → Memory α → Option (Memory α)
  | [], m => some m
  | u :: us, m => do
    let valColumn ← m.cell u
    let m ← m.store u (valColumn.resize i)
    eraseEnd i us m

/-- the matches of a row; the counter is an `int` -/
def unpackHits (us : List ℕ) : List (JoinTuple α k) → ℕ → Memory α → Option (Memory α × ℕ)
  | [], overallCounter, m => some (m, overallCounter)
  | x :: a, overallCounter, m =>
    if overallCounter + 1 < 2 ^ 31 then do
      let m ← unpack x.toList overallCounter us m
      unpackHits us a (overallCounter + 1) m
    else none

/-- the number of matches is an `int`, and kept as a `uint32_t` -/
def probeRow (inputTable : JoinMap (JoinTuple α k)) (us : List ℕ) (hash overallCounter : ℕ)
    (m : Memory α) : Option (Memory α × ℕ × ℕ) :=
  let numHits := inputTable.count hash
  if 0 < numHits then do
    let a ← inputTable.lookup hash
    let numHits := if numHits ≠ a.length then JoinPairArray.toInt a.length else numHits
    let (m, overallCounter) ← unpackHits us (a.take numHits.toNat) overallCounter m
    return (m, overallCounter, (numHits % 2 ^ 32).toNat)
  else some (m, overallCounter, (numHits % 2 ^ 32).toNat)

/-- `pick` finds the hash table of a row -/
def probeRows (pick : ℕ → Option (JoinMap (JoinTuple α k))) (us : List ℕ) :
    List ℕ → ℕ → Memory α → Option (Memory α × ℕ × List ℕ)
  | [], overallCounter, m => some (m, overallCounter, [])
  | hash :: inputHash, overallCounter, m => do
    let inputTable ← pick hash
    let (m, overallCounter, numHits) ← probeRow inputTable us hash overallCounter m
    let (m, overallCounter, counts) ← probeRows pick us inputHash overallCounter m
    return (m, overallCounter, numHits :: counts)

/-- what the two probes have in common -/
structure Probe where
  atts : Atts
  columns : List ℕ
  offset : ℕ
  output : TupleSet

/-- the columns of the hash table are at `offset`, in the order of `positions` -/
def createCols (offset : ℕ) : List ℕ → Memory α → TupleSet → Option (Memory α × TupleSet × List ℕ)
  | [], m, output => some (m, output, [])
  | position :: positions, m, output => do
    let (m', output) ← output.addColumn (m.alloc ⟨.obj default, []⟩) (offset + position) m.next true
    let (m', output, columns) ← createCols offset positions m' output
    return (m', output, m.next :: columns)

def Probe.create (a : Atts) (positions : List ℕ) (needToSwapLHSAndRhs : Bool) (m : Memory α) :
    Option (Memory α × Probe) := do
  let offset := if needToSwapLHSAndRhs = true then positions.length else 0
  let at_ := if needToSwapLHSAndRhs = true then 0 else a.outAtt
  let (m, output, columns) ← createCols at_ positions m TupleSet.empty
  return (m, ⟨a, columns, offset, output⟩)

def Probe.process (pick : ℕ → Option (JoinMap (JoinTuple α k))) (p : Probe) (m : Memory α)
    (input : TupleSet) : Option (Memory α × Probe) := do
  let whichAtt ← p.atts.whichAtt
  let c ← input.getColumn m whichAtt
  let inputHash ← c.rows.mapM Value.asNum
  if inputHash.length < 2 ^ 31 then
    let (m, overallCounter, counts) ← probeRows pick p.columns inputHash 0 m
    let m ← eraseEnd overallCounter p.columns m
    let (m, output) ← TupleSetSetupMachine.replicate p.atts.matches_ m p.output input counts p.offset
    return (m, { p with output := output })
  else none

/-- without a hash table, a `nullptr` is returned -/
def JoinProbe.process (inputTable : JoinMap (JoinTuple α k)) (p : Probe) (m : Memory α)
    (input : TupleSet) : Option (Memory α × Probe) :=
  p.process (fun _ => some inputTable) m input

/-- the hash tables of a node, one a partition, and the thread that probes -/
structure PartitionedTables (α : Type) [Inhabited α] (k : ℕ) where
  numPartitionsPerNode : ℕ
  numNodes : ℕ
  inputTables : List (JoinMap (JoinTuple α k))
  crossProduct : Bool
  threadId : ℕ
  partition_pos : 0 < numPartitionsPerNode
  node_pos : 0 < numNodes
  partitions_int : numPartitionsPerNode * numNodes < 2 ^ 31
  length_tables : inputTables.length = numPartitionsPerNode
  thread_lt : threadId < numPartitionsPerNode
  called : ∀ t ∈ inputTables, t.Called

namespace PartitionedTables

def index (t : PartitionedTables α k) (value : ℕ) : ℕ :=
  if t.crossProduct = true then t.threadId
  else value % (t.numPartitionsPerNode * t.numNodes) % t.numPartitionsPerNode

theorem index_lt (t : PartitionedTables α k) (value : ℕ) :
    t.index value < t.inputTables.length := by
  rw [t.length_tables, index]
  split
  · exact t.thread_lt
  · exact Nat.mod_lt _ t.partition_pos

def table (t : PartitionedTables α k) (value : ℕ) : JoinMap (JoinTuple α k) :=
  t.inputTables.get ⟨t.index value, t.index_lt value⟩

end PartitionedTables

def PartitionedJoinProbe.process (t : PartitionedTables α k) (p : Probe) (m : Memory α)
    (input : TupleSet) : Option (Memory α × Probe) :=
  p.process (fun value => t.inputTables[t.index value]?) m input

/-! ## the columns of the hash table -/

section
variable {m m' : Memory α} {s r : Multiset ℕ} {p : ℕ} {X : List (Value α)} {us : List ℕ}

/-- the first rows of a vector -/
def Begins (m : Memory α) (p : ℕ) (X : List (Value α)) : Prop :=
  ∃ c, m.cell p = some c ∧ X <+: c.rows

theorem Begins.same (h : Begins m p X) (hs : m'.cell p = m.cell p) : Begins m' p X := by
  obtain ⟨c, hc, hx⟩ := h
  exact ⟨c, hs.trans hc, hx⟩

/-- the row after the first ones, whether there is one or not -/
theorem copyTo_spec (h : m.Owned s) (hp : p ∈ s) (hx : Begins m p X) (x : α) :
    ∃ m', copyTo m p X.length x = some m' ∧ m'.Owned s ∧ Begins m' p (X ++ [.obj x]) ∧
      ∀ q ≠ p, m'.cell q = m.cell q := by
  obtain ⟨c, hc, ys, hys⟩ := hx
  cases ys with
  | nil =>
    rw [List.append_nil] at hys
    obtain ⟨m', hm', ho, hnew, hsame⟩ := h.store hp { c with rows := c.rows ++ [.obj x] }
    refine ⟨m', ?_, ho, ⟨_, hnew, ?_⟩, hsame⟩
    · rw [copyTo, hc, Option.bind_eq_bind, Option.bind_some, if_pos (by rw [hys])]
      exact hm'
    · show X ++ [.obj x] <+: c.rows ++ [.obj x]
      rw [hys]
  | cons y ys =>
    obtain ⟨m', hm', ho, hnew, hsame⟩ := h.store hp { c with rows := c.rows.set X.length (.obj x) }
    have hlen : ¬ c.rows.length ≤ X.length := by
      rw [← hys, List.length_append, List.length_cons]
      omega
    refine ⟨m', ?_, ho, ⟨_, hnew, ?_⟩, hsame⟩
    · rw [copyTo, hc, Option.bind_eq_bind, Option.bind_some, if_neg hlen]
      exact hm'
    · show X ++ [.obj x] <+: c.rows.set X.length (.obj x)
      rw [← hys, List.set_append_right _ _ (Nat.le_refl _), Nat.sub_self, List.set_cons_zero]
      exact ⟨ys, List.append_cons .. |>.symm⟩

/-- every vector gets its field as the row `n` -/
theorem unpack_spec (fields : List α) : ∀ {us : List ℕ} {m : Memory α} {n : ℕ}
    {X : ℕ → List (Value α)}, fields.length = us.length → us.Nodup → (∀ p ∈ us, p ∈ s) →
    m.Owned s → (∀ w < us.length, (X w).length = n) →
    (∀ w p, us[w]? = some p → Begins m p (X w)) →
    ∃ m', unpack fields n us m = some m' ∧ m'.Owned s ∧
      (∀ w p, us[w]? = some p → Begins m' p (X w ++ [.obj (fields.getD w default)])) ∧
      ∀ q ∉ us, m'.cell q = m.cell q := by
  induction fields with
  | nil =>
    intro us m n X hlen _ _ ho _ hb
    have hus : us = [] := List.eq_nil_of_length_eq_zero hlen.symm
    rw [hus]
    exact ⟨m, rfl, ho, fun w p hp => absurd hp (by simp), fun _ _ => rfl⟩
  | cons x fields ih =>
    intro us m n X hlen hnodup hmem ho hn hb
    cases us with
    | nil => cases hlen
    | cons u us =>
      obtain ⟨hnot, hnodup⟩ := List.nodup_cons.mp hnodup
      obtain ⟨m₁, hm₁, ho₁, hb₁, hsame₁⟩ :=
        copyTo_spec ho (hmem u List.mem_cons_self) (hb 0 u rfl) x
      rw [hn 0 (Nat.zero_lt_succ _)] at hm₁
      have hrest : ∀ w p, us[w]? = some p → Begins m₁ p (X (w + 1)) := fun w p hp =>
        (hb (w + 1) p (by rwa [List.getElem?_cons_succ])).same
          (hsame₁ p fun e => hnot (e ▸ List.mem_of_getElem? hp))
      obtain ⟨m', hm', ho', hb', hsame'⟩ := ih (X := fun w => X (w + 1)) (Nat.succ.inj hlen) hnodup
        (fun p hp => hmem p (List.mem_cons_of_mem u hp)) ho₁
        (fun w hw => hn (w + 1) (Nat.succ_lt_succ hw)) hrest
      refine ⟨m', ?_, ho', fun w p hp => ?_, fun q hq => ?_⟩
      · rw [unpack, hm₁]
        exact hm'
      · cases w with
        | zero =>
          obtain rfl : u = p := Option.some.inj hp
          exact hb₁.same (hsame' u hnot)
        | succ w => exact hb' w p hp
      · rw [hsame' q fun h => hq (List.mem_cons_of_mem u h),
          hsame₁ q fun e => hq (e ▸ List.mem_cons_self)]

/-- the records that are in the vectors so far -/
def Unpacked (us : List ℕ) (m : Memory α) (rs : List (JoinTuple α k)) : Prop :=
  ∀ w p, us[w]? = some p → Begins m p (rs.map (field w))

theorem unpackHits_spec (hlen : us.length = k) (hnodup : us.Nodup) (hmem : ∀ p ∈ us, p ∈ s)
    (a : List (JoinTuple α k)) : ∀ {rs : List (JoinTuple α k)} {m : Memory α}, m.Owned s →
    Unpacked us m rs → rs.length + a.length < 2 ^ 31 →
    ∃ m', unpackHits us a rs.length m = some (m', rs.length + a.length) ∧ m'.Owned s ∧
      Unpacked us m' (rs ++ a) ∧ ∀ q ∉ us, m'.cell q = m.cell q := by
  induction a with
  | nil =>
    intro rs m ho hb _
    rw [List.append_nil]
    exact ⟨m, rfl, ho, hb, fun _ _ => rfl⟩
  | cons x a ih =>
    intro rs m ho hb hlt
    rw [List.length_cons] at hlt
    obtain ⟨m₁, hm₁, ho₁, hb₁, hsame₁⟩ := unpack_spec (n := rs.length) (X := fun w => rs.map (field w))
      x.toList (by rw [Vector.length_toList, hlen]) hnodup hmem ho (fun w _ => List.length_map ..) hb
    have hb₁' : Unpacked us m₁ (rs ++ [x]) := fun w p hp => by
      rw [List.map_append]
      exact hb₁ w p hp
    have hlen₁ : (rs ++ [x]).length = rs.length + 1 := by rw [List.length_append]; rfl
    obtain ⟨m', hm', ho', hb', hsame'⟩ := ih ho₁ hb₁' (by rw [hlen₁]; omega)
    rw [hlen₁] at hm'
    refine ⟨m', ?_, ho', ?_, fun q hq => ?_⟩
    · rw [unpackHits, if_pos (by omega), hm₁, Option.bind_eq_bind, Option.bind_some, hm', List.length_cons,
        Nat.add_assoc, Nat.add_comm 1]
    · rw [List.append_assoc] at hb'
      exact hb'
    · rw [hsame' q hq, hsame₁ q hq]

/-- the records of a row, in lookup order -/
def recordsOf (pick : ℕ → Option (JoinMap (JoinTuple α k))) (hash : ℕ) : List (JoinTuple α k) :=
  (pick hash).elim [] fun t => t.recordsOf (hashValOf hash)

/-- `count`, `lookup` and `unpack` agree -/
theorem probeRow_spec {inputTable : JoinMap (JoinTuple α k)} (ht : inputTable.Called)
    (hlen : us.length = k) (hnodup : us.Nodup) (hmem : ∀ p ∈ us, p ∈ s) {hash : ℕ}
    {a rs : List (JoinTuple α k)} (ha : inputTable.recordsOf (hashValOf hash) = a)
    (ho : m.Owned s) (hb : Unpacked us m rs) (hlt : rs.length + a.length < 2 ^ 31) :
    ∃ m', probeRow inputTable us hash rs.length m = some (m', rs.length + a.length, a.length) ∧
      m'.Owned s ∧ Unpacked us m' (rs ++ a) ∧ ∀ q ∉ us, m'.cell q = m.cell q := by
  have hcount : inputTable.count hash = (a.length : ℤ) := by
    have hc := ht.fair.count hash
    rw [show inputTable.myArray.recordsOf _ = a from ha, JoinPairArray.toInt_of_lt (by omega)] at hc
    exact hc
  have hlookup : inputTable.lookup hash = some a := by
    have hl := ht.fair.lookup hash
    rw [show inputTable.myArray.recordsOf _ = a from ha] at hl
    exact hl
  have hkept : ((a.length : ℤ) % 2 ^ 32).toNat = a.length := by omega
  cases a with
  | nil =>
    rw [List.append_nil]
    refine ⟨m, ?_, ho, hb, fun _ _ => rfl⟩
    rw [probeRow, hcount]
    rfl
  | cons x a =>
    obtain ⟨m', hm', ho', hb', hsame⟩ := unpackHits_spec hlen hnodup hmem (x :: a) ho hb hlt
    refine ⟨m', ?_, ho', hb', hsame⟩
    have hne : ¬ (((x :: a).length : ℤ) ≠ ((x :: a).length : ℤ)) := not_not.mpr rfl
    have hpos : (0 : ℤ) < ((x :: a).length : ℤ) := Int.natCast_pos.mpr (Nat.zero_lt_succ _)
    simp only [probeRow, hcount, if_pos hpos, hlookup, if_neg hne, Int.toNat_natCast, List.take_length,
      hm', hkept, Option.bind_eq_bind, Option.bind_some]
    rfl

theorem probeRows_spec {pick : ℕ → Option (JoinMap (JoinTuple α k))}
    (hpick : ∀ v, ∃ t, pick v = some t ∧ t.Called) (hlen : us.length = k) (hnodup : us.Nodup)
    (hmem : ∀ p ∈ us, p ∈ s) (vs : List ℕ) : ∀ {rs : List (JoinTuple α k)} {m : Memory α},
    m.Owned s → Unpacked us m rs →
    rs.length + (vs.map fun v => (recordsOf pick v).length).sum < 2 ^ 31 →
    ∃ m', probeRows pick us vs rs.length m =
        some (m', rs.length + (vs.map fun v => (recordsOf pick v).length).sum,
          vs.map fun v => (recordsOf pick v).length) ∧
      m'.Owned s ∧ Unpacked us m' (rs ++ vs.flatMap (recordsOf pick)) ∧
      ∀ q ∉ us, m'.cell q = m.cell q := by
  induction vs with
  | nil =>
    intro rs m ho hb _
    rw [List.flatMap_nil, List.append_nil]
    exact ⟨m, rfl, ho, hb, fun _ _ => rfl⟩
  | cons v vs ih =>
    intro rs m ho hb hlt
    rw [List.map_cons, List.sum_cons] at hlt ⊢
    obtain ⟨t, ht, hcalled⟩ := hpick v
    have ha : t.recordsOf (hashValOf v) = recordsOf pick v := by rw [recordsOf, ht]; rfl
    obtain ⟨m₁, hm₁, ho₁, hb₁, hsame₁⟩ :=
      probeRow_spec hcalled hlen hnodup hmem ha ho hb (by omega)
    have hlen₁ : (rs ++ recordsOf pick v).length = rs.length + (recordsOf pick v).length :=
      List.length_append
    obtain ⟨m', hm', ho', hb', hsame'⟩ := ih ho₁ hb₁ (by rw [hlen₁]; omega)
    rw [hlen₁, Nat.add_assoc] at hm'
    refine ⟨m', ?_, ho', ?_, fun q hq => ?_⟩
    · simp only [probeRows, ht, hm₁, hm', Option.bind_eq_bind, Option.bind_some]
      rfl
    · rw [List.append_assoc] at hb'
      exact hb'
    · rw [hsame' q hq, hsame₁ q hq]

/-- what an earlier input left behind the first rows is cut off -/
theorem eraseEnd_spec {n : ℕ} (us : List ℕ) : ∀ {m : Memory α} {X : ℕ → List (Value α)}, us.Nodup →
    (∀ p ∈ us, p ∈ s) → m.Owned s → (∀ w < us.length, (X w).length = n) →
    (∀ w p, us[w]? = some p → Begins m p (X w)) →
    ∃ m', eraseEnd n us m = some m' ∧ m'.Owned s ∧
      (∀ w p, us[w]? = some p → ∃ c, m'.cell p = some c ∧ c.rows = X w) ∧
      ∀ q ∉ us, m'.cell q = m.cell q := by
  induction us with
  | nil =>
    intro m X _ _ ho _ _
    exact ⟨m, rfl, ho, fun w p hp => absurd hp (by simp), fun _ _ => rfl⟩
  | cons u us ih =>
    intro m X hnodup hmem ho hn hb
    obtain ⟨hnot, hnodup⟩ := List.nodup_cons.mp hnodup
    obtain ⟨c, hc, ys, hys⟩ := hb 0 u rfl
    have hn0 : (X 0).length = n := hn 0 (Nat.zero_lt_succ _)
    obtain ⟨m₁, hm₁, ho₁, hnew, hsame₁⟩ := ho.store (hmem u List.mem_cons_self) (c.resize n)
    have hrows : (c.resize n).rows = X 0 := by
      show c.rows.take n ++ List.replicate (n - c.rows.length) c.zero = X 0
      rw [← hys, ← hn0, List.take_left, List.length_append, Nat.sub_eq_zero_of_le (Nat.le_add_right _ _),
        List.replicate_zero, List.append_nil]
    have hrest : ∀ w p, us[w]? = some p → Begins m₁ p (X (w + 1)) := fun w p hp =>
      (hb (w + 1) p (by rwa [List.getElem?_cons_succ])).same
        (hsame₁ p fun e => hnot (e ▸ List.mem_of_getElem? hp))
    obtain ⟨m', hm', ho', hb', hsame'⟩ := ih (X := fun w => X (w + 1)) hnodup
      (fun p hp => hmem p (List.mem_cons_of_mem u hp)) ho₁
      (fun w hw => hn (w + 1) (Nat.succ_lt_succ hw)) hrest
    refine ⟨m', ?_, ho', fun w p hp => ?_, fun q hq => ?_⟩
    · simp only [eraseEnd, hc, hm₁, Option.bind_eq_bind, Option.bind_some]
      exact hm'
    · cases w with
      | zero =>
        obtain rfl : u = p := Option.some.inj hp
        exact ⟨_, (hsame' u hnot).trans hnew, hrows⟩
      | succ w => exact hb' w p hp
    · rw [hsame' q fun h => hq (List.mem_cons_of_mem u h),
        hsame₁ q fun e => hq (e ▸ List.mem_cons_self)]

end

/-! ## the rows of the join -/

/-- the fields of a record, as they come in the output -/
def tableRow (positions : List ℕ) (x : JoinTuple α k) : Row α :=
  (List.range positions.length).map fun j => field (positions.idxOf j) x

def joinRow (a : Atts) (positions : List ℕ) (swap : Bool) (row : Row α) (x : JoinTuple α k) : Row α :=
  if swap = true then tableRow positions x ++ project a.matches_ row
  else project a.matches_ row ++ tableRow positions x

def hashOf (a : Atts) (row : Row α) : ℕ := ((cell a.operand row).asNum).getD 0

/-- for each row, one row for each record of its hash -/
def joinRows (a : Atts) (positions : List ℕ) (swap : Bool) (records : ℕ → List (JoinTuple α k))
    (T : List (Row α)) : List (Row α) :=
  T.flatMap fun row =>
    (records (hashOf a row)).map (joinRow a positions swap row)

def joinTypes (a : Atts) (positions : List ℕ) (swap : Bool) (ts : List ColType) : List ColType :=
  let carried := a.matches_.map fun i => ts.getD i .obj
  if swap = true then List.replicate positions.length .obj ++ carried
  else carried ++ List.replicate positions.length .obj

/-- where the carried columns begin, and those of the hash table -/
def carriedAt (positions : List ℕ) (swap : Bool) : ℕ := if swap = true then positions.length else 0

def tableAt (a : Atts) (swap : Bool) : ℕ := if swap = true then 0 else a.outAtt

section
variable {a : Atts} {positions : List ℕ} {swap : Bool} {ts : List ColType} {T : List (Row α)}
  {records : ℕ → List (JoinTuple α k)}

theorem cell_append_left {x y : Row α} {i : ℕ} (hi : i < x.length) : cell i (x ++ y) = cell i x :=
  List.getD_append _ _ _ _ hi

theorem cell_append_right (x y : Row α) (i : ℕ) : cell (x.length + i) (x ++ y) = cell i y := by
  rw [cell, List.getD_append_right _ _ _ _ (Nat.le_add_right _ _), Nat.add_sub_cancel_left]
  rfl

theorem cell_tableRow {j : ℕ} (hj : j < positions.length) (x : JoinTuple α k) :
    cell j (tableRow positions x) = field (positions.idxOf j) x := by
  rw [cell, tableRow, List.getD_eq_getElem _ _ (by rwa [List.length_map, List.length_range]),
    List.getElem_map, List.getElem_range]

theorem length_tableRow (x : JoinTuple α k) : (tableRow positions x).length = positions.length := by
  rw [tableRow, List.length_map, List.length_range]

theorem cell_joinRow_carried {i : ℕ} (hi : i < a.matches_.length) (row : Row α) (x : JoinTuple α k) :
    cell (i + carriedAt positions swap) (joinRow a positions swap row x) = cell a.matches_[i] row := by
  have hlen : i < (project a.matches_ row).length := by rwa [project, List.length_map]
  cases swap with
  | true =>
    have h := cell_append_right (tableRow positions x) (project a.matches_ row) i
    rw [length_tableRow, Nat.add_comm] at h
    exact h.trans (cell_project hi row)
  | false => exact (cell_append_left hlen).trans (cell_project hi row)

theorem cell_joinRow_table (ha : a.matches_.length = a.outAtt) {j : ℕ} (hj : j < positions.length)
    (row : Row α) (x : JoinTuple α k) :
    cell (tableAt a swap + j) (joinRow a positions swap row x) = field (positions.idxOf j) x := by
  cases swap with
  | true =>
    have h : cell j (tableRow positions x ++ project a.matches_ row) = cell j (tableRow positions x) :=
      cell_append_left (by rwa [length_tableRow])
    rw [tableAt, if_pos rfl, Nat.zero_add]
    exact h.trans (cell_tableRow hj x)
  | false =>
    have h := cell_append_right (project a.matches_ row) (tableRow positions x) j
    rw [project, List.length_map, ha] at h
    exact h.trans (cell_tableRow hj x)

theorem carried_joinRows {i : ℕ} (hi : i < a.matches_.length) :
    (joinRows a positions swap records T).map (cell (i + carriedAt positions swap)) =
      T.flatMap fun row => List.replicate
        (records (hashOf a row)).length (cell a.matches_[i] row) := by
  rw [joinRows, List.map_flatMap]
  refine List.flatMap_congr fun row _ => ?_
  rw [List.map_map, ← List.map_const']
  exact List.map_congr_left fun x _ => cell_joinRow_carried hi row x

theorem table_joinRows (ha : a.matches_.length = a.outAtt) {j : ℕ} (hj : j < positions.length) :
    (joinRows a positions swap records T).map (cell (tableAt a swap + j)) =
      ((T.map fun row => hashOf a row).flatMap records).map
        (field (positions.idxOf j)) := by
  rw [joinRows, List.map_flatMap, List.map_flatMap, List.flatMap_map]
  refine List.flatMap_congr fun row _ => ?_
  rw [List.map_map]
  exact List.map_congr_left fun x _ => cell_joinRow_table ha hj row x

theorem joinRows_typed (ok : a.Ok ts) (ht : ∀ row ∈ T, row.map Value.type = ts) :
    ∀ row ∈ joinRows a positions swap records T, row.map Value.type = joinTypes a positions swap ts := by
  intro row hrow
  obtain ⟨row₀, hrow₀, hrow⟩ := List.mem_flatMap.mp hrow
  obtain ⟨x, -, rfl⟩ := List.mem_map.mp hrow
  have hp := project_types (ht row₀ hrow₀) ok.matches_lt
  have htable : (tableRow positions x).map Value.type = List.replicate positions.length .obj := by
    rw [tableRow, List.map_map]
    refine List.eq_replicate_iff.mpr ⟨by rw [List.length_map, List.length_range], fun t ht => ?_⟩
    obtain ⟨j, -, rfl⟩ := List.mem_map.mp ht
    rfl
  cases swap with
  | true => exact List.map_append.trans (congrArg₂ _ htable hp)
  | false => exact List.map_append.trans (congrArg₂ _ hp htable)

theorem length_joinTypes (ok : a.Ok ts) :
    (joinTypes a positions swap ts).length = a.outAtt + positions.length := by
  have h := ok.length_matches
  cases swap with
  | true =>
    show (List.replicate _ _ ++ List.map _ _).length = _
    rw [List.length_append, List.length_replicate, List.length_map, h, Nat.add_comm]
  | false =>
    show (List.map _ _ ++ List.replicate _ _).length = _
    rw [List.length_append, List.length_replicate, List.length_map, h]

end

/-! ## an input -/

/-- a probe between two inputs -/
structure Probe.Shape (p : Probe) (a : Atts) (positions : List ℕ) (swap : Bool) : Prop where
  atts : p.atts = a
  offset : p.offset = carriedAt positions swap
  length : p.columns.length = positions.length
  own : ∀ w u j : ℕ, p.columns[w]? = some u → positions[w]? = some j →
    p.output.find (tableAt a swap + j) = some ⟨u, true⟩
  columns : ∀ i, p.output.find i ≠ none → i < a.outAtt + positions.length

section
variable {m m' : Memory α} {r u : Multiset ℕ} {a : Atts} {positions : List ℕ} {swap : Bool}
  {ts : List ColType} {T : List (Row α)} {p : Probe} {input t : TupleSet}

/-- the carried columns, and those of the hash table -/
def CarriedKeys (a : Atts) (positions : List ℕ) (swap : Bool) : Set ℕ :=
  {i | carriedAt positions swap ≤ i ∧ i < a.outAtt + carriedAt positions swap}

def TableKeys (a : Atts) (positions : List ℕ) (swap : Bool) : Set ℕ :=
  {i | ∃ j < positions.length, i = tableAt a swap + j}

theorem table_notMem_carried {j : ℕ} (hj : j < positions.length) :
    tableAt a swap + j ∉ CarriedKeys a positions swap := by
  rintro ⟨h₁, h₂⟩
  cases swap with
  | true =>
    have h₁ : positions.length ≤ 0 + j := h₁
    omega
  | false =>
    have h₂ : a.outAtt + j < a.outAtt + 0 := h₂
    omega

theorem carried_or_table (swap : Bool) {i : ℕ} (hi : i < a.outAtt + positions.length) :
    (∃ l < a.outAtt, i = l + carriedAt positions swap) ∨ i ∈ TableKeys a positions swap := by
  cases swap with
  | true =>
    by_cases h : i < positions.length
    · exact .inr ⟨i, h, (Nat.zero_add i).symm⟩
    · refine .inl ⟨i - positions.length, by omega, ?_⟩
      show i = i - positions.length + positions.length
      omega
  | false =>
    by_cases h : i < a.outAtt
    · exact .inl ⟨i, h, rfl⟩
    · refine .inr ⟨i - a.outAtt, by omega, ?_⟩
      show i = a.outAtt + (i - a.outAtt)
      omega

theorem keys_lt (positions : List ℕ) (swap : Bool) {l : ℕ} (hl : l < a.outAtt) :
    l + carriedAt positions swap < a.outAtt + positions.length := by
  cases swap with
  | true => exact Nat.add_lt_add_right hl _
  | false => exact Nat.lt_add_right _ hl

theorem tableKeys_lt {i : ℕ} (hi : i ∈ TableKeys a positions swap) :
    i < a.outAtt + positions.length := by
  obtain ⟨j, hj, rfl⟩ := hi
  cases swap with
  | true =>
    show 0 + j < _
    omega
  | false => exact Nat.add_lt_add_left hj _

namespace Probe.Shape

theorem position (hs : p.Shape a positions swap) {w v : ℕ} (hv : p.columns[w]? = some v) :
    ∃ j, positions[w]? = some j ∧ p.output.find (tableAt a swap + j) = some ⟨v, true⟩ := by
  have hw : w < positions.length := hs.length ▸ (List.getElem?_eq_some_iff.mp hv).1
  exact ⟨positions[w], List.getElem?_eq_getElem hw, hs.own w v _ hv (List.getElem?_eq_getElem hw)⟩

theorem owns (hs : p.Shape a positions swap) : ∀ v ∈ p.columns, v ∈ p.output.owned := by
  intro v hv
  obtain ⟨w, hw⟩ := List.mem_iff_getElem?.mp hv
  obtain ⟨j, -, hfind⟩ := hs.position hw
  exact mem_owned hfind rfl

theorem nodup (hs : p.Shape a positions swap) (hn : p.output.owned.Nodup) (hp : positions.Nodup) :
    p.columns.Nodup := by
  refine List.nodup_iff_injective_get.mpr fun w w' hw => Fin.ext ?_
  obtain ⟨j, hj, hfind⟩ := hs.position (List.getElem?_eq_getElem w.2)
  obtain ⟨j', hj', hfind'⟩ := hs.position (List.getElem?_eq_getElem w'.2)
  have hkey := owned_inj hn hfind hfind' rfl rfl hw.symm
  have hjj : j' = j := Nat.add_left_cancel hkey
  obtain ⟨hlt, rfl⟩ := List.getElem?_eq_some_iff.mp hj
  obtain ⟨hlt', heq⟩ := List.getElem?_eq_some_iff.mp hj'
  exact (hp.getElem_inj_iff.mp (heq.trans hjj)).symm

end Probe.Shape

/-- what a probe leaves behind -/
structure Probe.Done (p' : Probe) (a : Atts) (positions : List ℕ) (swap : Bool) (r : Multiset ℕ)
    (ts : List ColType) (T' : List (Row α)) (m m' : Memory α) : Prop where
  shape : p'.Shape a positions swap
  owned : m'.Owned (p'.output.owned + r)
  same : Cells.Same r m m'
  represents : Represents m' p'.output (joinTypes a positions swap ts) T'

/-- the records go into the columns of the hash table -/
theorem Probe.table_spec {pick : ℕ → Option (JoinMap (JoinTuple α k))}
    (hpick : ∀ v, ∃ t, pick v = some t ∧ t.Called) (hp : positions.Perm (List.range k))
    (hs : p.Shape a positions swap) (ho : m.Owned (p.output.owned + r)) (H : List ℕ)
    (htotal : (H.map fun v => (recordsOf pick v).length).sum < 2 ^ 31) :
    ∃ m₁ m₂, probeRows pick p.columns H 0 m = some (m₁,
        (H.map fun v => (recordsOf pick v).length).sum, H.map fun v => (recordsOf pick v).length) ∧
      eraseEnd (H.map fun v => (recordsOf pick v).length).sum p.columns m₁ = some m₂ ∧
      Changed r (TableKeys a positions swap) m m₂ p.output p.output ∧
      ∀ j < positions.length, Holds r m₂ p.output (tableAt a swap + j)
        ((H.flatMap (recordsOf pick)).map (field (positions.idxOf j))) := by
  have hk : positions.length = k := by rw [hp.length_eq, List.length_range]
  have hmemp : ∀ {j}, j ∈ positions ↔ j < positions.length := by
    intro j
    rw [hp.mem_iff, List.mem_range, hk]
  have hnodup := hs.nodup (Multiset.nodup_add.mp ho.nodup).1 (hp.nodup_iff.mpr List.nodup_range)
  have hmem : ∀ v ∈ p.columns, v ∈ p.output.owned + r := fun v hv =>
    Multiset.mem_add.mpr (.inl (hs.owns v hv))
  have hstart : Unpacked p.columns m ([] : List (JoinTuple α k)) := by
    intro w v hv
    obtain ⟨c, hc⟩ := ((ho.live v).mp (hmem v (List.mem_of_getElem? hv))).exists
    exact ⟨c, hc, List.nil_prefix⟩
  obtain ⟨m₁, hrun₁, ho₁, hb₁, hsame₁⟩ := probeRows_spec hpick (hs.length.trans hk) hnodup hmem H ho
    hstart (by rw [List.length_nil, Nat.zero_add]; exact htotal)
  rw [List.length_nil, Nat.zero_add] at hrun₁
  rw [List.nil_append] at hb₁
  obtain ⟨m₂, hrun₂, ho₂, hexact, hsame₂⟩ := eraseEnd_spec p.columns
    (n := (H.map fun v => (recordsOf pick v).length).sum)
    (X := fun w => (H.flatMap (recordsOf pick)).map (field w)) hnodup hmem ho₁
    (fun w _ => by rw [List.length_map, List.length_flatMap]) hb₁
  refine ⟨m₁, m₂, hrun₁, hrun₂, ?_, fun j hj => ?_⟩
  · refine changed_cells p.columns ho ho₂ (fun v hv => ?_) fun q hq => by
      rw [hsame₂ q hq, hsame₁ q hq]
    obtain ⟨w, hw⟩ := List.mem_iff_getElem?.mp hv
    obtain ⟨j, hj, hfind⟩ := hs.position hw
    exact ⟨_, ⟨j, hmemp.mp (List.mem_of_getElem? hj), rfl⟩, hfind⟩
  · have hw : positions.idxOf j < positions.length := List.idxOf_lt_length_of_mem (hmemp.mpr hj)
    obtain ⟨v, hv⟩ : ∃ v, p.columns[positions.idxOf j]? = some v :=
      ⟨_, List.getElem?_eq_getElem (hs.length ▸ hw)⟩
    have hpos : positions[positions.idxOf j]? = some j := by
      rw [List.getElem?_eq_getElem hw, List.getElem_idxOf]
    have hfind := hs.own _ _ j hv hpos
    obtain ⟨c, hc, hcr⟩ := hexact _ _ hv
    refine ⟨fun s hs' hd => ?_, c, ?_, hcr⟩
    · rw [hfind] at hs'
      cases hs'
      cases hd
    · rw [TupleSet.getColumn, hfind]
      exact hc

/-- every column of the output is a column of the join -/
theorem Probe.Shape.done {o' : TupleSet} (hs : p.Shape a positions swap)
    (records : ℕ → List (JoinTuple α k)) (ok : a.Ok ts) (hp : positions.Perm (List.range k))
    (ht : ∀ row ∈ T, row.map Value.type = ts)
    (hc : Changed r (CarriedKeys a positions swap) m m' p.output o')
    (hcarried : ∀ l (hl : l < a.matches_.length), Holds r m' o' (l + carriedAt positions swap)
      (T.flatMap fun row => List.replicate
        (records (hashOf a row)).length (cell a.matches_[l] row)))
    (htable : ∀ j < positions.length, Holds r m' o' (tableAt a swap + j)
      (((T.map fun row => hashOf a row).flatMap records).map
        (field (positions.idxOf j)))) :
    ({ p with output := o' } : Probe).Shape a positions swap ∧
      Represents m' o' (joinTypes a positions swap ts) (joinRows a positions swap records T) := by
  have hlen := ok.length_matches
  have hk : positions.length = k := by rw [hp.length_eq, List.length_range]
  have hcolumn : ∀ i < a.outAtt + positions.length, Holds r m' o' i
      ((joinRows a positions swap records T).map (cell i)) := by
    intro i hi
    rcases carried_or_table swap hi with ⟨l, hl, rfl⟩ | ⟨j, hj, rfl⟩
    · have hl' : l < a.matches_.length := hlen ▸ hl
      rw [carried_joinRows hl']
      exact hcarried l hl'
    · rw [table_joinRows hlen hj]
      exact htable j hj
  have hcols : ∀ i, o'.find i ≠ none → i < a.outAtt + positions.length := by
    intro i hi
    by_cases hm : i ∈ CarriedKeys a positions swap
    · have hlt : i - carriedAt positions swap < a.outAtt := by
        have h₁ := hm.1
        have h₂ := hm.2
        omega
      have h := keys_lt positions swap hlt
      rwa [Nat.sub_add_cancel hm.1] at h
    · rw [hc.find i hm] at hi
      exact hs.columns i hi
  refine ⟨⟨hs.atts, hs.offset, hs.length, fun w v j hv hj => ?_, hcols⟩, fun i => ?_,
    joinRows_typed ok ht, fun i hi => ?_⟩
  · have hj' : j < positions.length := by
      rw [hk, ← List.mem_range]
      exact hp.subset (List.mem_of_getElem? hj)
    exact (hc.find _ (table_notMem_carried hj')).trans (hs.own w v _ hv hj)
  · rw [length_joinTypes ok]
    refine ⟨hcols i, fun hi => ?_⟩
    obtain ⟨s, -, hfind, -⟩ := (hcolumn i hi).find
    rw [hfind]
    nofun
  · rw [length_joinTypes ok] at hi
    exact (hcolumn i hi).column

theorem Probe.process_spec {pick : ℕ → Option (JoinMap (JoinTuple α k))}
    (hpick : ∀ v, ∃ t, pick v = some t ∧ t.Called) (ok : a.Ok ts) (hnum : ts[a.operand]? = some .num)
    (hp : positions.Perm (List.range k)) (hs : p.Shape a positions swap)
    (ho : m.Owned (p.output.owned + r)) (hin : Shows r m input ts T) (hrows : T.length < 2 ^ 31)
    (htotal : (T.map fun row =>
      (recordsOf pick (hashOf a row)).length).sum < 2 ^ 31) :
    ∃ m' p', p.process pick m input = some (m', p') ∧
      p'.Done a positions swap r ts (joinRows a positions swap (recordsOf pick) T) m m' := by
  obtain ⟨hwhich, hlt⟩ := ok.operand_eq
  have hlen := ok.length_matches
  obtain ⟨c, hcol, hcrows⟩ := hin.getColumn hlt
  have hhash : c.rows.mapM Value.asNum = some (T.map fun row => hashOf a row) := by
    rw [hcrows]
    refine mapM_rows fun row hrow => ?_
    obtain ⟨n, hn⟩ := Value.asNum_isSome (cell_type (hin.typed row hrow) hnum)
    rw [hashOf, hn]
    rfl
  have hcounts : (T.map fun row => hashOf a row).map (fun v =>
      (recordsOf pick v).length) =
        T.map fun row => (recordsOf pick (hashOf a row)).length := List.map_map
  obtain ⟨m₁, m₂, hrun₁, hrun₂, hch, htable⟩ := table_spec hpick hp hs ho
    (T.map fun row => hashOf a row) (by rw [hcounts]; exact htotal)
  rw [hcounts] at hrun₁ hrun₂
  -- the carried columns follow the numbers of matches
  have hin₂ := hin.same hch.same
  obtain ⟨m₃, o₃, hrun₃, hc₃, hh₃⟩ := TupleSetSetupMachine.replicate_spec (K := a.matches_)
    (N := T.map fun row => (recordsOf pick (hashOf a row)).length)
    (X := fun i => T.map (cell i))
    (Y := fun i => T.flatMap fun row => List.replicate
      (recordsOf pick (hashOf a row)).length (cell i row))
    hch.owned (fun _ h => h) (fun i hi => hin₂.column i (ok.matches_lt i hi))
    (fun i _ c hc => ⟨_, Column.replicate_rows hc hrows htotal, rfl⟩) (carriedAt positions swap)
  rw [hlen] at hc₃
  obtain ⟨hshape, hrep⟩ := hs.done (recordsOf pick) ok hp hin.typed hc₃ hh₃ fun j hj =>
    (htable j hj).changed (fun _ h => h) hc₃ (table_notMem_carried hj)
  refine ⟨m₃, { p with output := o₃ }, ?_, hshape, hc₃.owned, hch.same.trans hc₃.same, hrep⟩
  have hlenH : (T.map fun row => hashOf a row).length < 2 ^ 31 := by
    rw [List.length_map]
    exact hrows
  simp only [Probe.process, hs.atts, hwhich, hcol, hhash, if_pos hlenH, hrun₁, hrun₂, hs.offset, hrun₃,
    Option.bind_eq_bind, Option.bind_some]
  rfl

/-- 2^31 rows or more -/
theorem Probe.process_rows {pick : ℕ → Option (JoinMap (JoinTuple α k))} (ok : a.Ok ts)
    (hnum : ts[a.operand]? = some .num) (hs : p.atts = a) (hin : Shows r m input ts T)
    (hrows : 2 ^ 31 ≤ T.length) : p.process pick m input = none := by
  obtain ⟨hwhich, hlt⟩ := ok.operand_eq
  obtain ⟨c, hcol, hcrows⟩ := hin.getColumn hlt
  have hhash : c.rows.mapM Value.asNum = some (T.map (hashOf a)) := by
    rw [hcrows]
    refine mapM_rows fun row hrow => ?_
    obtain ⟨n, hn⟩ := Value.asNum_isSome (cell_type (hin.typed row hrow) hnum)
    rw [hashOf, hn]
    rfl
  have hlen : ¬ (T.map (hashOf a)).length < 2 ^ 31 := by
    rw [List.length_map]
    exact Nat.not_lt.mpr hrows
  simp only [Probe.process, hs, hwhich, hcol, hhash, if_neg hlen, Option.bind_eq_bind, Option.bind_some]

/-! ## making a probe -/

theorem createCols_spec (at_ : ℕ) (positions : List ℕ) : ∀ {m : Memory α} {t : TupleSet},
    positions.Nodup → m.Owned (t.owned + r) →
    ∃ m' t' us, createCols at_ positions m t = some (m', t', us) ∧
      Changed r {i | ∃ j ∈ positions, i = at_ + j} m m' t t' ∧ us.length = positions.length ∧
      (∀ w v j : ℕ, us[w]? = some v → positions[w]? = some j → t'.find (at_ + j) = some ⟨v, true⟩) := by
  induction positions with
  | nil =>
    intro m t _ h
    exact ⟨m, t, [], rfl, Changed.refl h _, rfl, fun w v j hv => absurd hv (by simp)⟩
  | cons j₀ positions ih =>
    intro m t hnodup h
    obtain ⟨hnot, hnodup⟩ := List.nodup_cons.mp hnodup
    obtain ⟨m₁, t₁, hrun₁, hc₁, hnew, -⟩ := addColumn_spec (u := r) h (at_ + j₀) ⟨.obj default, []⟩
    obtain ⟨m', t', us, hrun', hc', hlen, hown⟩ := ih hnodup hc₁.owned
    have hkept : at_ + j₀ ∉ {i | ∃ j ∈ positions, i = at_ + j} := by
      rintro ⟨j, hj, he⟩
      exact hnot (Nat.add_left_cancel he ▸ hj)
    refine ⟨m', t', m.next :: us, ?_, (hc₁.mono ?_).trans (hc'.mono ?_), ?_, fun w v j hv hj => ?_⟩
    · simp only [createCols, hrun₁, hrun', Option.bind_eq_bind, Option.bind_some]
      rfl
    · exact fun i hi => ⟨j₀, List.mem_cons_self, hi⟩
    · rintro i ⟨j, hj, rfl⟩
      exact ⟨j, List.mem_cons_of_mem j₀ hj, rfl⟩
    · rw [List.length_cons, List.length_cons, hlen]
    · cases w with
      | zero =>
        obtain rfl : m.next = v := Option.some.inj hv
        obtain rfl : j₀ = j := Option.some.inj hj
        exact (hc'.find _ hkept).trans hnew
      | succ w => exact hown w v j hv hj

theorem Probe.create_spec (α : Type) [Inhabited α] (a : Atts) (hp : positions.Perm (List.range k)) (swap : Bool) :
    ∃ (m : Memory α) (p : Probe), Probe.create a positions swap (Cells.empty : Memory α) = some (m, p) ∧
      p.Shape a positions swap ∧ m.Owned p.output.owned := by
  have hk : positions.length = k := by rw [hp.length_eq, List.length_range]
  have h : (Cells.empty : Memory α).Owned (TupleSet.empty.owned + 0) := Cells.owned_empty
  obtain ⟨m, t, us, hrun, hc, hlen, hown⟩ :=
    createCols_spec (tableAt a swap) positions (hp.nodup_iff.mpr List.nodup_range) h
  have ho := hc.owned
  rw [add_zero] at ho
  refine ⟨m, ⟨a, us, carriedAt positions swap, t⟩, ?_, ⟨rfl, rfl, hlen, hown, fun i hi => ?_⟩, ho⟩
  · rw [Probe.create]
    show (createCols (tableAt a swap) positions (Cells.empty : Memory α) TupleSet.empty).bind _ = _
    rw [hrun]
    rfl
  · by_contra hge
    have hm : i ∉ {i | ∃ j ∈ positions, i = tableAt a swap + j} := by
      rintro ⟨j, hj, rfl⟩
      have hj' : j < positions.length := by
        rw [hk, ← List.mem_range]
        exact hp.subset hj
      exact hge (tableKeys_lt ⟨j, hj', rfl⟩)
    exact hi (hc.find i hm)

end

/-! ## all inputs -/

structure ProbeRun (α : Type) where
  memory : Memory α
  source : TupleSet
  probe : Probe

/-- one call of `process` -/
structure Answer (α : Type) where
  input : TupleSet
  before : Memory α
  result : TupleSet
  after : Memory α

namespace ProbeRun
variable (process : Probe → Memory α → TupleSet → Option (Memory α × Probe)) (ts : List ColType)

def feed (s : ProbeRun α) (c : Chunk α) : Option (ProbeRun α × Answer α) := do
  let (before, source) ← c.fill ts s.memory s.source
  let (after, probe) ← process s.probe before source
  return (⟨after, source, probe⟩, ⟨source, before, probe.output, after⟩)

def run : ProbeRun α → List (Chunk α) → Option (ProbeRun α × List (Answer α))
  | s, [] => some (s, [])
  | s, c :: cs => do
    let (s, answer) ← s.feed process ts c
    let (s, answers) ← run s cs
    return (s, answer :: answers)

end ProbeRun

/-- every input gives its join -/
def ProbeCorrect (process : Probe → Memory α → TupleSet → Option (Memory α × Probe)) (a : Atts)
    (positions : List ℕ) (swap : Bool) (ts : List ColType) (records : ℕ → List (JoinTuple α k))
    (cs : List (Chunk α)) : Prop :=
  ∃ m p s answers, Probe.create a positions swap Cells.empty = some (m, p) ∧
    (⟨m, TupleSet.empty, p⟩ : ProbeRun α).run process ts cs = some (s, answers) ∧
    List.Forall₂ (fun (c : Chunk α) x => Represents x.before x.input ts c.rows ∧
      Represents x.after x.result (joinTypes a positions swap ts)
        (joinRows a positions swap records c.rows)) cs answers

/-- rows and matches are counted in an `int` -/
def ProbeFine (a : Atts) (records : ℕ → List (JoinTuple α k)) (T : List (Row α)) : Prop :=
  T.length < 2 ^ 31 ∧ (T.map fun row => (records (hashOf a row)).length).sum < 2 ^ 31

section
variable {a : Atts} {positions : List ℕ} {swap : Bool} {ts : List ColType}
  {pick : ℕ → Option (JoinMap (JoinTuple α k))}

structure ProbeRun.Inv (s : ProbeRun α) (a : Atts) (positions : List ℕ) (swap : Bool)
    (ts : List ColType) : Prop where
  owned : s.memory.Owned (s.source.owned + s.probe.output.owned)
  source : Source ts s.source
  shape : s.probe.Shape a positions swap

theorem ProbeRun.run_spec (hpick : ∀ v, ∃ t, pick v = some t ∧ t.Called) (ok : a.Ok ts)
    (hnum : ts[a.operand]? = some .num) (hp : positions.Perm (List.range k)) (cs : List (Chunk α))
    (hc : ∀ c ∈ cs, c.Typed ts ∧ ProbeFine a (recordsOf pick) c.rows) : ∀ {s : ProbeRun α},
    s.Inv a positions swap ts → ∃ s' answers,
      s.run (fun p m input => p.process pick m input) ts cs = some (s', answers) ∧
      List.Forall₂ (fun (c : Chunk α) x => Represents x.before x.input ts c.rows ∧
        Represents x.after x.result (joinTypes a positions swap ts)
          (joinRows a positions swap (recordsOf pick) c.rows)) cs answers := by
  induction cs with
  | nil =>
    intro s _
    exact ⟨s, [], rfl, .nil⟩
  | cons c cs ih =>
    intro s hi
    obtain ⟨htyped, hrows, htotal⟩ := hc c List.mem_cons_self
    obtain ⟨m₁, t₁, hrun₁, ho₁, -, hs₁, hshow₁⟩ := fill_spec hi.owned hi.source htyped
    rw [add_comm] at ho₁
    obtain ⟨m₂, p₂, hrun₂, hdone⟩ := Probe.process_spec hpick ok hnum hp hi.shape ho₁ hshow₁ hrows htotal
    have hi₂ : (⟨m₂, t₁, p₂⟩ : ProbeRun α).Inv a positions swap ts := by
      refine ⟨?_, hs₁, hdone.shape⟩
      rw [add_comm]
      exact hdone.owned
    obtain ⟨s', answers, hrun', hall⟩ := ih (fun c hc' => hc c (List.mem_cons_of_mem _ hc')) hi₂
    have hfeed : s.feed (fun p m input => p.process pick m input) ts c =
        some (⟨m₂, t₁, p₂⟩, ⟨t₁, m₁, p₂.output, m₂⟩) := by
      simp only [ProbeRun.feed, hrun₁, hrun₂, Option.bind_eq_bind, Option.bind_some]
      rfl
    refine ⟨s', ⟨t₁, m₁, p₂.output, m₂⟩ :: answers, ?_,
      .cons ⟨hshow₁.represents, hdone.represents⟩ hall⟩
    simp only [ProbeRun.run, hfeed, hrun', Option.bind_eq_bind, Option.bind_some]
    rfl

theorem probes_correct (pick : ℕ → Option (JoinMap (JoinTuple α k)))
    (hpick : ∀ v, ∃ t, pick v = some t ∧ t.Called) (ok : a.Ok ts)
    (hnum : ts[a.operand]? = some .num) (hp : positions.Perm (List.range k)) (swap : Bool)
    (cs : List (Chunk α)) (hc : ∀ c ∈ cs, c.Typed ts ∧ ProbeFine a (recordsOf pick) c.rows) :
    ProbeCorrect (fun p m input => p.process pick m input) a positions swap ts (recordsOf pick) cs := by
  obtain ⟨m, p, hrun, hshape, ho⟩ := Probe.create_spec α a hp swap
  have hi : (⟨m, TupleSet.empty, p⟩ : ProbeRun α).Inv a positions swap ts := by
    refine ⟨?_, nofun, hshape⟩
    rw [show TupleSet.empty.owned = 0 from rfl, zero_add]
    exact ho
  obtain ⟨s, answers, hrun', hall⟩ := ProbeRun.run_spec hpick ok hnum hp cs hc hi
  exact ⟨m, p, s, answers, hrun, hrun', hall⟩

end

/-- two records of the hash `5`, and one of the hash `6`, with two fields each -/
def cityTable : Option (JoinMap (JoinTuple ℕ 2)) :=
  (JoinMap.create smallLayouts 4 0 1).bind fun m =>
    (m.use (.push (fun _ => false) 5 #v[50, 51])).bind fun x =>
      (x.1.use (.push (fun _ => false) 6 #v[60, 61])).bind fun y =>
        (y.1.use (.push (fun _ => false) 5 #v[52, 53])).map Prod.fst

theorem cityTable_called {m : JoinMap (JoinTuple ℕ 2)} (h : cityTable = some m) : m.Called := by
  obtain ⟨m₀, hm₀, h⟩ := Option.bind_eq_some_iff.mp h
  obtain ⟨x₁, hx₁, h⟩ := Option.bind_eq_some_iff.mp h
  obtain ⟨x₂, hx₂, h⟩ := Option.bind_eq_some_iff.mp h
  obtain ⟨x₃, hx₃, rfl⟩ := Option.map_eq_some_iff.mp h
  have hpush : ∀ {n : JoinMap (JoinTuple ℕ 2)} {me : ℕ} {v x}, n.Called →
      n.use (.push (fun _ => false) me v) = some x → x.1.Called := by
    intro n me v x hn hx
    obtain ⟨hc, m', r, hret, rfl⟩ := JoinMap.push_of_use hx
    exact .write v hn hc hret
  exact hpush (hpush (hpush (.create (by decide) (by decide) (by decide) hm₀) hx₁) hx₂) hx₃

/-- the hash and an attribute; the first input is the longest -/
def cityChunks : List (Chunk ℕ) :=
  [⟨false, fun _ => true, [[.num 5, .obj 1], [.num 7, .obj 2], [.num 5, .obj 3], [.num 6, .obj 4]]⟩,
   ⟨true, fun _ => true, [[.num 6, .obj 5]]⟩, ⟨false, fun _ => true, [[.num 7, .obj 6]]⟩]

/-- 2^31 rows, none with a record -/
def longChunk : Chunk ℕ := ⟨true, fun _ => true, List.replicate (2 ^ 31) [.num 0]⟩

end Netsdb
