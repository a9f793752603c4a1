import Netsdb.Executor.ExecutorSpec

/-!
# A chain of executors

Every executor keeps its output tuple set from one input to the next, and gives it to the next
executor; so a tuple set's columns may be vectors of any tuple set before it.

* `Chain.feed`        the source makes a tuple set, in place or another one, and it goes through;
* `VisitsCorrect`     what every call of `process` should do: filter, flatten or compute the rows, and
                      touch no vector but the output's own;
* `chain_correct`     any chain, over any sequence of inputs: every call does this, and afterwards the
                      destructors delete every vector once, in any order;
* `chain_not_always`  `HASHONE` on a column that it does not carry.
-/

set_option linter.unusedSectionVars false

namespace Netsdb
open TupleSet

variable {α : Type} [Inhabited α]

/-- what a vector of this type is filled with -/
def ColType.zero : ColType → Value α
  | bool => .bool false
  | num => .num 0
  | vec => .vec []
  | obj => .obj default

/-- the next input: the rows of a table, put into another tuple set than the last, or into the same
one, there into the vectors it has or into new ones -/
structure Chunk (α : Type) where
  another : Bool
  inPlace : ℕ → Bool
  rows : List (Row α)

def Chunk.fillColumn (c : Chunk α) (ts : List ColType) (k : ℕ) (m : Memory α) (t : TupleSet) :
    Option (Memory α × TupleSet) :=
  let rows := c.rows.map (cell k)
  if c.inPlace k = true ∧ t.hasColumn k = true then (writeColumn m t k rows).map fun m => (m, t)
  else t.addColumn (m.alloc ⟨(ts.getD k .obj).zero, rows⟩) k m.next true

def Chunk.fill (c : Chunk α) (ts : List ColType) (m : Memory α) (source : TupleSet) :
    Option (Memory α × TupleSet) := do
  let (m, source) ← if c.another = true then (source.destroy m).map fun m => (m, TupleSet.empty)
    else some (m, source)
  forEach (c.fillColumn ts) (List.range ts.length) m source

structure Stage (α : Type) where
  executor : Executor α
  output : TupleSet

/-- one call of `process` -/
structure Visit (α : Type) where
  executor : Executor α
  input : TupleSet
  before : Memory α
  output : TupleSet
  after : Memory α
  result : TupleSet

def processAll : List (Stage α) → Memory α → TupleSet →
    Option (Memory α × List (Stage α) × List (Visit α))
  | [], m, _ => some (m, [], [])
  | s :: l, m, input => do
    let (m₁, result) ← s.executor.process m s.output input
    let (m₂, l, visits) ← processAll l m₁ result
    return (m₂, ⟨s.executor, result⟩ :: l, ⟨s.executor, input, m, s.output, m₁, result⟩ :: visits)

structure Chain (α : Type) where
  memory : Memory α
  source : TupleSet
  stages : List (Stage α)

namespace Chain

def start (es : List (Executor α)) : Chain α :=
  ⟨Cells.empty, TupleSet.empty, es.map fun e => ⟨e, TupleSet.empty⟩⟩

def feed (ts : List ColType) (s : Chain α) (c : Chunk α) : Option (Chain α × List (Visit α)) := do
  let (m, source) ← c.fill ts s.memory s.source
  let (m, stages, visits) ← processAll s.stages m source
  return (⟨m, source, stages⟩, visits)

def run (ts : List ColType) : Chain α → List (Chunk α) → Option (Chain α × List (List (Visit α)))
  | s, [] => some (s, [])
  | s, c :: cs => do
    let (s, visits) ← s.feed ts c
    let (s, others) ← s.run ts cs
    return (s, visits :: others)

def tupleSets (s : Chain α) : List TupleSet := s.source :: s.stages.map Stage.output

end Chain

def destroyAll : List TupleSet → Memory α → Option (Memory α)
  | [], m => some m
  | t :: l, m => do destroyAll l (← t.destroy m)

/-! ## what should happen -/

/-- the columns of the tuple set are those of the table -/
structure Represents (m : Memory α) (t : TupleSet) (ts : List ColType) (T : List (Row α)) : Prop where
  columns : ∀ k, t.find k ≠ none ↔ k < ts.length
  typed : ∀ row ∈ T, row.map Value.type = ts
  column : ∀ k < ts.length, ∃ c, t.getColumn m k = some c ∧ c.rows = T.map (cell k)

structure Visit.Correct (v : Visit α) (ts : List ColType) (T : List (Row α)) : Prop where
  input : Represents v.before v.input ts T
  result : Represents v.after v.result (v.executor.types ts) (v.executor.sem T)
  others : ∀ p ∉ v.output.owned, v.before.Live p → v.after.cell p = v.before.cell p

def VisitsCorrect : List (Executor α) → List (Visit α) → List ColType → List (Row α) → Prop
  | [], vs, _, _ => vs = []
  | e :: es, vs, ts, T => ∃ v vs', vs = v :: vs' ∧ v.executor = e ∧ v.Correct ts T ∧
    VisitsCorrect es vs' (e.types ts) (e.sem T)

def ChainTyped : List (Executor α) → List ColType → Prop
  | [], _ => True
  | e :: es, ts => e.WellTyped ts ∧ ChainTyped es (e.types ts)

/-- the bounds hold for every input on the way -/
def ChainFine : List (Executor α) → List (Row α) → Prop
  | [], _ => True
  | e :: es, T => e.Fine T ∧ ChainFine es (e.sem T)

/-- the inputs are tables with columns of the types `ts` -/
def Chunk.Typed (ts : List ColType) (c : Chunk α) : Prop := ∀ row ∈ c.rows, row.map Value.type = ts

/-- all calls are correct, and in the end everything is deleted once -/
def ChainCorrect (es : List (Executor α)) (ts : List ColType) (cs : List (Chunk α)) : Prop :=
  ∃ s visits, (Chain.start es).run ts cs = some (s, visits) ∧
    List.Forall₂ (fun (c : Chunk α) vs => VisitsCorrect es vs ts c.rows) cs visits ∧
    ∀ l, l.Perm s.tupleSets → ∃ m, destroyAll l s.memory = some m ∧ ∀ p, m.cell p = none

/-! ## the invariant -/

section
variable {m m' : Memory α} {r : Multiset ℕ} {t source : TupleSet} {ts : List ColType}
  {T : List (Row α)} {stages : List (Stage α)} {es : List (Executor α)}

theorem Shows.represents (h : Shows r m t ts T) : Represents m t ts T :=
  ⟨h.columns, h.typed, fun _ hk => h.getColumn hk⟩

def ownedBy (stages : List (Stage α)) : Multiset ℕ := (stages.map fun s => s.output.owned).sum

/-- the source owns all its columns -/
def Source (ts : List ColType) (t : TupleSet) : Prop :=
  ∀ k v, t.find k = some v → k < ts.length ∧ v.mustDelete = true

/-- between two inputs -/
structure Chain.Inv (es : List (Executor α)) (ts : List ColType) (s : Chain α) : Prop where
  owned : s.memory.Owned (s.source.owned + ownedBy s.stages)
  source : Source ts s.source
  executors : s.stages.map Stage.executor = es
  shape : ∀ x ∈ s.stages, x.executor.Shape x.output

theorem start_inv (es : List (Executor α)) (ts : List ColType) : (Chain.start es).Inv es ts := by
  refine ⟨?_, nofun, ?_, ?_⟩
  · have h : ownedBy (Chain.start es).stages = 0 := by
      refine List.sum_eq_zero ?_
      intro x hx
      obtain ⟨s, hs, rfl⟩ := List.mem_map.mp hx
      obtain ⟨e, -, rfl⟩ := List.mem_map.mp hs
      rfl
    rw [h]
    exact Cells.owned_empty
  · show (es.map fun e => (⟨e, TupleSet.empty⟩ : Stage α)).map Stage.executor = es
    rw [List.map_map]
    exact List.map_id es
  · intro x hx
    obtain ⟨e, -, rfl⟩ := List.mem_map.mp hx
    exact Executor.shape_empty e

theorem fillColumn_spec {c : Chunk α} {k : ℕ} (h : m.Owned (t.owned + r))
    (hown : ∀ v, t.find k = some v → v.mustDelete = true) :
    ∃ m' t', c.fillColumn ts k m t = some (m', t') ∧ Changed r {k} m m' t t' ∧
      Holds 0 m' t' k (c.rows.map (cell k)) ∧ ∀ v, t'.find k = some v → v.mustDelete = true := by
  rw [Chunk.fillColumn]
  by_cases hp : c.inPlace k = true ∧ t.hasColumn k = true
  · obtain ⟨v, hv⟩ := Option.isSome_iff_exists.mp hp.2
    obtain ⟨m', hm', hc, hh⟩ := writeColumn_spec (u := 0) h hv (hown v hv) (c.rows.map (cell k))
    refine ⟨m', t, ?_, hc, hh, hown⟩
    rw [if_pos hp, hm']
    rfl
  · obtain ⟨m', t', hrun, hc, hnew, hh⟩ := addColumn_spec (u := 0) h k
      ⟨(ts.getD k .obj).zero, c.rows.map (cell k)⟩
    refine ⟨m', t', ?_, hc, hh, fun v hv => ?_⟩
    · rw [if_neg hp]
      exact hrun
    · cases hnew.symm.trans hv
      rfl

theorem fillColumns_spec {c : Chunk α} (h : m.Owned (t.owned + r)) (hs : Source ts t)
    (hc : c.Typed ts) :
    ∃ m' t', forEach (c.fillColumn ts) (List.range ts.length) m t = some (m', t') ∧
      m'.Owned (t'.owned + r) ∧ Cells.Same r m m' ∧ Source ts t' ∧
      Shows t'.owned m' t' ts c.rows := by
  obtain ⟨m', t', hrun, hch, hall⟩ := forEach_spec (r := r) (g := fun k => k)
    (f := c.fillColumn ts) (P := fun k _ t => ∀ v, t.find k = some v → v.mustDelete = true)
    (Q := fun k m t => Holds 0 m t k (c.rows.map (cell k)) ∧
      ∀ v, t.find k = some v → v.mustDelete = true)
    (fun hne hc hp v hv => hp v (by rwa [hc.find _ hne] at hv))
    (fun hk hc hp => ⟨hp.1.changed (Multiset.zero_subset r) hc hk,
      fun v hv => hp.2 v (by rwa [hc.find _ hk] at hv)⟩)
    (fun ho hp => fillColumn_spec ho hp) (List.range ts.length)
    (by rw [List.map_id']; exact List.nodup_range) h (fun k _ v hv => (hs k v hv).2)
  have hfind : ∀ k, t'.find k ≠ none ↔ k < ts.length := by
    intro k
    refine ⟨fun hk => ?_, fun hk => ?_⟩
    · by_contra hge
      rw [hch.find k fun hm => hge (List.mem_range.mp (by simpa using hm))] at hk
      obtain ⟨v, hv⟩ := Option.ne_none_iff_exists'.mp hk
      exact hge (hs k v hv).1
    · obtain ⟨v, -, hv, -⟩ := (hall k (List.mem_range.mpr hk)).1.find
      rw [hv]
      nofun
  have hlt : ∀ {k v}, t'.find k = some v → k < ts.length := fun hv => (hfind _).mp (by rw [hv]; nofun)
  refine ⟨m', t', hrun, hch.owned, hch.same, fun k v hv => ⟨hlt hv, ?_⟩, hfind, hc, fun k hk => ?_⟩
  · exact (hall k (List.mem_range.mpr (hlt hv))).2 v hv
  · have hh := (hall k (List.mem_range.mpr hk)).1.provides
    rwa [add_zero] at hh

theorem fill_spec {c : Chunk α} (h : m.Owned (t.owned + r)) (hs : Source ts t) (hc : c.Typed ts) :
    ∃ m' t', c.fill ts m t = some (m', t') ∧ m'.Owned (t'.owned + r) ∧ Cells.Same r m m' ∧
      Source ts t' ∧ Shows t'.owned m' t' ts c.rows := by
  cases ha : c.another with
  | true =>
    obtain ⟨m₁, hm₁, ho₁, hs₁⟩ := destroy_spec h
    have ho : m₁.Owned (TupleSet.empty.owned + r) := by
      rw [show TupleSet.empty.owned = 0 from rfl, zero_add]
      exact ho₁
    have hempty : Source ts TupleSet.empty := nofun
    obtain ⟨m', t', hrun, ho', hs', hrest⟩ := fillColumns_spec ho hempty hc
    refine ⟨m', t', ?_, ho', hs₁.trans hs', hrest⟩
    simp only [Chunk.fill, ha, if_true, hm₁, Option.map_some, Option.bind_eq_bind, Option.bind_some]
    exact hrun
  | false =>
    obtain ⟨m', t', hrun, hrest⟩ := fillColumns_spec h hs hc
    refine ⟨m', t', ?_, hrest⟩
    simp only [Chunk.fill, ha, Option.bind_eq_bind, Option.bind_some, if_neg Bool.false_ne_true]
    exact hrun

/-- the stages get their inputs one from another; `u` are the vectors before them -/
theorem processAll_spec : ∀ (stages : List (Stage α)) {m : Memory α} {u : Multiset ℕ} {input : TupleSet}
    {ts : List ColType} {T : List (Row α)}, m.Owned (ownedBy stages + u) →
    (∀ x ∈ stages, x.executor.Shape x.output) → Shows u m input ts T →
    ChainTyped (stages.map Stage.executor) ts → ChainFine (stages.map Stage.executor) T →
    ∃ m' stages' visits, processAll stages m input = some (m', stages', visits) ∧
      m'.Owned (ownedBy stages' + u) ∧ Cells.Same u m m' ∧
      stages'.map Stage.executor = stages.map Stage.executor ∧
      (∀ x ∈ stages', x.executor.Shape x.output) ∧
      VisitsCorrect (stages.map Stage.executor) visits ts T := by
  intro stages
  induction stages with
  | nil =>
    intro m u input ts T h _ _ _ _
    exact ⟨m, [], [], rfl, h, Cells.Same.refl u m, rfl, fun _ hx => absurd hx List.not_mem_nil, rfl⟩
  | cons s stages ih =>
    intro m u input ts T h hshape hin ht hf
    have hown : ownedBy (s :: stages) = s.output.owned + ownedBy stages := List.sum_cons
    rw [hown, add_assoc] at h
    obtain ⟨m₁, o₁, hrun₁, hdone⟩ := Executor.process_spec (u := u) h
      (fun p hp => Multiset.mem_add.mpr (.inr hp)) (hshape s List.mem_cons_self) hin ht.1 hf.1
    have ho₁ : m₁.Owned (ownedBy stages + (o₁.owned + u)) := by
      rw [add_left_comm]
      exact hdone.changed.owned
    obtain ⟨m', stages', visits, hrun', ho', hs', hexec', hshape', hvisits⟩ := ih ho₁
      (fun x hx => hshape x (List.mem_cons_of_mem s hx)) hdone.shows_ ht.2 hf.2
    have hsame₁ : Cells.Same u m m₁ := hdone.changed.same.mono fun p hp => Multiset.mem_add.mpr (.inr hp)
    refine ⟨m', ⟨s.executor, o₁⟩ :: stages', ⟨s.executor, input, m, s.output, m₁, o₁⟩ :: visits, ?_, ?_,
      hsame₁.trans (hs'.mono fun p hp => Multiset.mem_add.mpr (.inr hp)), ?_, ?_, ?_⟩
    · simp only [processAll, hrun₁, hrun', Option.bind_eq_bind, Option.bind_some]
      rfl
    · rw [show ownedBy (⟨s.executor, o₁⟩ :: stages') = o₁.owned + ownedBy stages' from List.sum_cons,
        add_assoc, add_left_comm]
      exact ho'
    · rw [List.map_cons, List.map_cons, hexec']
    · intro x hx
      rcases List.mem_cons.mp hx with rfl | hx
      · exact hdone.shape
      · exact hshape' x hx
    · refine ⟨_, visits, rfl, rfl, ⟨hin.represents, hdone.shows_.represents, fun p hp hl => ?_⟩, hvisits⟩
      have hm : p ∈ s.output.owned + (ownedBy stages + u) := (h.live p).mpr hl
      exact hdone.changed.same p ((Multiset.mem_add.mp hm).resolve_left hp)

theorem feed_spec {s : Chain α} {c : Chunk α} (hi : s.Inv es ts) (hc : c.Typed ts)
    (ht : ChainTyped es ts) (hf : ChainFine es c.rows) :
    ∃ s' visits, s.feed ts c = some (s', visits) ∧ s'.Inv es ts ∧ VisitsCorrect es visits ts c.rows := by
  obtain ⟨m₁, t₁, hrun₁, ho₁, -, hs₁, hshow₁⟩ := fill_spec hi.owned hi.source hc
  rw [add_comm] at ho₁
  rw [← hi.executors] at ht hf
  obtain ⟨m', stages', visits, hrun', ho', -, hexec', hshape', hvisits⟩ :=
    processAll_spec s.stages ho₁ hi.shape hshow₁ ht hf
  refine ⟨⟨m', t₁, stages'⟩, visits, ?_, ⟨?_, hs₁, hexec'.trans hi.executors, hshape'⟩, ?_⟩
  · simp only [Chain.feed, hrun₁, hrun', Option.bind_eq_bind, Option.bind_some]
    rfl
  · rw [add_comm]
    exact ho'
  · rw [← hi.executors]
    exact hvisits

theorem run_spec (ht : ChainTyped es ts) (cs : List (Chunk α))
    (hc : ∀ c ∈ cs, c.Typed ts ∧ ChainFine es c.rows) : ∀ {s : Chain α}, s.Inv es ts →
    ∃ s' visits, s.run ts cs = some (s', visits) ∧ s'.Inv es ts ∧
      List.Forall₂ (fun (c : Chunk α) vs => VisitsCorrect es vs ts c.rows) cs visits := by
  induction cs with
  | nil =>
    intro s hi
    exact ⟨s, [], rfl, hi, .nil⟩
  | cons c cs ih =>
    intro s hi
    obtain ⟨htyped, hfine⟩ := hc c List.mem_cons_self
    obtain ⟨s₁, vs, hrun₁, hi₁, hvs⟩ := feed_spec hi htyped ht hfine
    obtain ⟨s', visits, hrun', hi', hall⟩ := ih (fun c hc' => hc c (List.mem_cons_of_mem _ hc')) hi₁
    refine ⟨s', vs :: visits, ?_, hi', .cons hvs hall⟩
    simp only [Chain.run, hrun₁, hrun', Option.bind_eq_bind, Option.bind_some]
    rfl

theorem destroyAll_spec (l : List TupleSet) : ∀ {m : Memory α},
    m.Owned ((l.map TupleSet.owned).sum) → ∃ m', destroyAll l m = some m' ∧ m'.Owned 0 := by
  induction l with
  | nil =>
    intro m h
    exact ⟨m, rfl, h⟩
  | cons t l ih =>
    intro m h
    obtain ⟨m₁, hm₁, ho₁, -⟩ := destroy_spec h
    obtain ⟨m', hm', ho'⟩ := ih ho₁
    refine ⟨m', ?_, ho'⟩
    rw [destroyAll, hm₁]
    exact hm'

theorem owned_tupleSets (s : Chain α) :
    (s.tupleSets.map TupleSet.owned).sum = s.source.owned + ownedBy s.stages := by
  rw [Chain.tupleSets, List.map_cons, List.sum_cons, List.map_map]
  rfl

end

/-- **Filter and flatten keep rows aligned, and every column is owned once**, in every run in which
rows are counted in an `int` and `HASHONE` carries the column it works on. -/
theorem chain_correct (es : List (Executor α)) (ts : List ColType) (cs : List (Chunk α))
    (ht : ChainTyped es ts) (hc : ∀ c ∈ cs, c.Typed ts ∧ ChainFine es c.rows) :
    ChainCorrect es ts cs := by
  obtain ⟨s, visits, hrun, hi, hall⟩ := run_spec ht cs hc (start_inv es ts)
  refine ⟨s, visits, hrun, hall, fun l hl => ?_⟩
  have ho : s.memory.Owned ((l.map TupleSet.owned).sum) := by
    rw [(hl.map TupleSet.owned).sum_eq, owned_tupleSets]
    exact hi.owned
  obtain ⟨m, hm, ho'⟩ := destroyAll_spec l ho
  exact ⟨m, hm, Cells.dead_of_owned_zero ho'⟩

/-- `keep` is filtered on, `list` flattened, and a column of ones appended -/
def someChain : List (Executor ℕ) :=
  [.filter ⟨["keep", "list"], ["keep"], ["list", "keep"]⟩,
   .flatten ⟨["list", "keep"], ["list"], ["keep"]⟩,
   .hashOne ⟨["keep", "item"], ["item"], ["keep", "item"]⟩]

def someChunks : List (Chunk ℕ) :=
  [⟨false, fun _ => true, [[.bool true, .vec [1, 2]], [.bool false, .vec [3]], [.bool true, .vec []]]⟩,
   ⟨true, fun _ => true, [[.bool true, .vec [4]]]⟩, ⟨false, fun k => k = 0, []⟩]

theorem chain_correct_some : ChainCorrect someChain [.bool, .vec] someChunks := by
  refine chain_correct someChain [.bool, .vec] someChunks
    ⟨⟨⟨rfl, by decide, by decide, by decide⟩, rfl⟩, ⟨⟨rfl, by decide, by decide, by decide⟩, rfl⟩,
      ⟨⟨rfl, by decide, by decide, by decide⟩, trivial⟩, trivial⟩ fun c hc => ?_
  rcases List.mem_cons.mp hc with rfl | hc
  · exact ⟨by unfold Chunk.Typed; decide, ⟨by decide, trivial⟩, ⟨by decide, by decide⟩,
      ⟨by decide, by decide⟩, trivial⟩
  rcases List.mem_cons.mp hc with rfl | hc
  · exact ⟨by unfold Chunk.Typed; decide, ⟨by decide, trivial⟩, ⟨by decide, by decide⟩,
      ⟨by decide, by decide⟩, trivial⟩
  · obtain rfl := List.mem_singleton.mp hc
    exact ⟨by unfold Chunk.Typed; decide, ⟨by decide, trivial⟩, ⟨by decide, by decide⟩,
      ⟨by decide, by decide⟩, trivial⟩

/-- `HASHONE` on `b` carries `flag` only: its own column is column 1, as `b` was, and has no rows -/
def hashOther : Executor ℕ := .hashOne ⟨["flag", "b"], ["b"], ["flag"]⟩

def keepOne : Executor ℕ := .filter ⟨["flag", "one"], ["flag"], ["one"]⟩

theorem chain_not_always : ¬ ∀ (es : List (Executor ℕ)) (ts : List ColType) (cs : List (Chunk ℕ)),
    ChainTyped es ts → (∀ c ∈ cs, c.Typed ts) → ChainCorrect es ts cs := by
  intro h
  obtain ⟨s, visits, hrun, hall, -⟩ := h [hashOther, keepOne] [.bool, .obj]
    [⟨true, fun _ => false, [[.bool true, .obj 7]]⟩]
    ⟨⟨⟨rfl, by decide, by decide, by decide⟩, trivial⟩, ⟨⟨rfl, by decide, by decide, by decide⟩, rfl⟩,
      trivial⟩ (by unfold Chunk.Typed; decide)
  have hcols : visits.flatten.map (fun v => (v.result.getColumn v.after 0).map Column.rows) =
      [some [.bool true], some [.num 0]] := by
    have hr := congrArg (Option.map fun x => x.2.flatten.map fun v =>
      (v.result.getColumn v.after 0).map Column.rows) hrun
    exact (Option.some.inj hr).symm
  cases hall with
  | cons hvisits hrest =>
    cases hrest
    obtain ⟨v₀, vs, rfl, -, -, v₁, vs', rfl, hexec, hcorrect, rfl⟩ := hvisits
    obtain ⟨c, hc, hrows⟩ := hcorrect.result.column 0 (by rw [hexec]; decide)
    have hzero : (v₁.result.getColumn v₁.after 0).map Column.rows = some [.num 0] :=
      (List.cons.inj (List.cons.inj hcols).2).1
    rw [hc, Option.map_some, hrows, hexec] at hzero
    exact absurd hzero (by decide)

end Netsdb
