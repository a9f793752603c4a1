import Netsdb.BuiltIn.JoinDouble
import Netsdb.Executor.Column
import Netsdb.Lib.OwnedCells
import Netsdb.Lib.Table

/-!
# `TupleSet` (`TupleSet.h`, `TupleSetMachine.h`)

A tuple set maps the number of a column to the address of a vector, and says whether it must delete
that vector.

* `TupleSet.owned`         the vectors a tuple set must delete;
* `TupleSet.Changed r ks`  the tuple set changed in the columns `ks` only, whatever it lost was
                           deleted, whatever it got is its own, and the vectors `r` are as before;
* `TupleSet.Holds u`       what a column that is up to date holds: the vector is the tuple set's own,
                           or one of `u`;
* `addColumn_spec`, `copyColumn_spec`, `filterColumn_spec`, `replicate_spec`   one column is changed;
* `forEach_spec`           a loop over columns changes these;
* `destroy_spec`           the destructor deletes what is owned.
-/

set_option linter.unusedSectionVars false

namespace Netsdb

/-- `std::pair<void*, MaintenanceFuncs>`; what the functions do is in `Column` -/
structure Slot where
  ptr : ℕ
  mustDelete : Bool

abbrev Memory (α : Type) := Cells (Column α)

structure TupleSet where
  columns : List (ℕ × Slot)
  keyed : Table.Keyed columns

variable {α : Type}

def Slot.owned (s : Slot) : Multiset ℕ := if s.mustDelete = true then {s.ptr} else 0

namespace TupleSet

def empty : TupleSet := ⟨[], List.nodup_nil⟩

def put (t : TupleSet) (where_ : ℕ) (s : Slot) : TupleSet :=
  ⟨Table.put t.columns where_ s, t.keyed.put where_ s⟩

def find (t : TupleSet) (whichColumn : ℕ) : Option Slot := t.columns.lookup whichColumn

def hasColumn (t : TupleSet) (whichColumn : ℕ) : Bool := (t.find whichColumn).isSome

def getNumColumns (t : TupleSet) : ℕ := t.columns.length

/-- fails where the source exits, or follows a dangling pointer -/
def getColumn (t : TupleSet) (m : Memory α) (whichColumn : ℕ) : Option (Column α) :=
  (t.find whichColumn).bind fun s => m.cell s.ptr

def deleteSlot (m : Memory α) (s : Slot) : Option (Memory α) :=
  if s.mustDelete = true then m.free s.ptr else some m

/-- the existing column is deleted, if necessary -/
def deleteOld (t : TupleSet) (m : Memory α) (whichColumn : ℕ) : Option (Memory α) :=
  match t.find whichColumn with
  | some s => deleteSlot m s
  | none => some m

def addColumn (t : TupleSet) (m : Memory α) (where_ addMe : ℕ) (needToDelete : Bool) :
    Option (Memory α × TupleSet) := do
  let m ← t.deleteOld m where_
  return (m, t.put where_ ⟨addMe, needToDelete⟩)

def copyColumn (t : TupleSet) (m : Memory α) (fromMe : TupleSet)
    (whichColInFromMe whichColToCopyTo : ℕ) : Option (Memory α × TupleSet) := do
  let m ← t.deleteOld m whichColToCopyTo
  let value ← fromMe.find whichColInFromMe
  return (m, t.put whichColToCopyTo ⟨value.ptr, false⟩)

def filterColumn (t : TupleSet) (m : Memory α) (whichColToFilter : ℕ) (usingMe : List Bool) :
    Option (Memory α × TupleSet) :=
  match t.find whichColToFilter with
  | none => some (m, t)
  | some value => do
    let c ← m.cell value.ptr
    let res ← c.filter usingMe
    let m' ← deleteSlot (m.alloc res) value
    return (m', t.put whichColToFilter ⟨m.next, true⟩)

def replicate (t : TupleSet) (m : Memory α) (fromMe : TupleSet)
    (whichColInFromMe whichColToCopyTo : ℕ) (replications : List ℕ) :
    Option (Memory α × TupleSet) := do
  let m ← t.deleteOld m whichColToCopyTo
  let value ← fromMe.find whichColInFromMe
  let c ← m.cell value.ptr
  let newCol ← c.replicate replications
  return (m.alloc newCol, t.put whichColToCopyTo ⟨m.next, true⟩)

/-- the number of rows as an `int`, or -1 if there is no such column -/
def getNumRows (t : TupleSet) (m : Memory α) (whichColumn : ℕ) : Option ℤ :=
  match t.find whichColumn with
  | none => some (-1)
  | some s => (m.cell s.ptr).map fun c => JoinPairArray.toInt c.rows.length

def destroySlots : List (ℕ × Slot) → Memory α → Option (Memory α)
  | [], m => some m
  | e :: l, m => do destroySlots l (← deleteSlot m e.2)

/-- `~TupleSet` -/
def destroy (t : TupleSet) (m : Memory α) : Option (Memory α) := destroySlots t.columns m

/-! ## what a tuple set owns -/

def owned (t : TupleSet) : Multiset ℕ := (t.columns.map fun e => e.2.owned).sum

/-- without the column `k` -/
def rest (t : TupleSet) (k : ℕ) : Multiset ℕ := ((Table.without t.columns k).map fun e => e.2.owned).sum

variable {t t' t'' : TupleSet} {m m' m'' : Memory α} {r u : Multiset ℕ} {k k' : ℕ} {s : Slot}
  {c : Column α} {xs : List (Value α)}

theorem find_put (t : TupleSet) (k k' : ℕ) (s : Slot) :
    (t.put k' s).find k = if k = k' then some s else t.find k := Table.lookup_put ..

theorem owned_put (t : TupleSet) (k : ℕ) (s : Slot) : (t.put k s).owned = s.owned + t.rest k := rfl

theorem owned_find (h : t.find k = some s) : t.owned = s.owned + t.rest k :=
  t.keyed.sum_without (fun e => e.2.owned) (Table.mem_of_lookup h)

theorem owned_not_find (h : t.find k = none) : t.owned = t.rest k := by
  rw [owned, rest, Table.without, List.filter_eq_self.mpr]
  intro e he
  exact decide_eq_true (Table.lookup_eq_none.mp h e he)

theorem mem_owned (h : t.find k = some s) (hs : s.mustDelete = true) : s.ptr ∈ t.owned := by
  rw [owned_find h, Slot.owned, if_pos hs]
  exact Multiset.mem_add.mpr (.inl (Multiset.mem_singleton_self _))

theorem mem_rest (h : t.find k' = some s) (hk : k' ≠ k) (hs : s.mustDelete = true) :
    s.ptr ∈ t.rest k := by
  have hf : (t.put k ⟨0, false⟩).find k' = some s := by rw [find_put, if_neg hk, h]
  have hm := mem_owned hf hs
  rw [owned_put] at hm
  exact (Multiset.mem_add.mp hm).resolve_left (Multiset.notMem_zero _)

/-! ## what a change leaves alone -/

/-- the column is its own, or refers to one of `r` -/
def Fresh (r : Multiset ℕ) (t : TupleSet) (k : ℕ) : Prop :=
  ∀ s, t.find k = some s → s.mustDelete = false → s.ptr ∈ r

structure Changed (r : Multiset ℕ) (ks : Set ℕ) (m m' : Memory α) (t t' : TupleSet) : Prop where
  owned : m'.Owned (t'.owned + r)
  same : Cells.Same r m m'
  find : ∀ k ∉ ks, t'.find k = t.find k
  column : ∀ k ∉ ks, Fresh r t k → t'.getColumn m' k = t.getColumn m k

theorem Changed.refl (h : m.Owned (t.owned + r)) (ks : Set ℕ) : Changed r ks m m t t :=
  ⟨h, Cells.Same.refl r m, fun _ _ => rfl, fun _ _ _ => rfl⟩

theorem Changed.mono {ks ks' : Set ℕ} (h : Changed r ks m m' t t') (hs : ks ⊆ ks') :
    Changed r ks' m m' t t' :=
  ⟨h.owned, h.same, fun k hk => h.find k fun hm => hk (hs hm),
    fun k hk => h.column k fun hm => hk (hs hm)⟩

theorem Changed.fresh {ks : Set ℕ} (h : Changed r ks m m' t t') (hk : k ∉ ks) (hf : Fresh u t k) :
    Fresh u t' k := by
  intro s hs
  rw [h.find k hk] at hs
  exact hf s hs

theorem Changed.trans {ks : Set ℕ} (h : Changed r ks m m' t t') (h' : Changed r ks m' m'' t' t'') :
    Changed r ks m m'' t t'' := by
  refine ⟨h'.owned, h.same.trans h'.same, fun k hk => ?_, fun k hk hf => ?_⟩
  · rw [h'.find k hk, h.find k hk]
  · rw [h'.column k hk (h.fresh hk hf), h.column k hk hf]

/-- the new column `s`, the others as before -/
theorem changed_put (ho : m'.Owned ((t.put k s).owned + r)) (hs : Cells.Same (t.rest k + r) m m') :
    Changed r {k} m m' t (t.put k s) := by
  refine ⟨ho, hs.mono fun p hp => Multiset.mem_add.mpr (.inr hp), fun k' hk => ?_,
    fun k' hk hf => ?_⟩
  · rw [find_put, if_neg (show k' ≠ k from hk)]
  · rw [getColumn, getColumn, find_put, if_neg (show k' ≠ k from hk)]
    cases hfind : t.find k' with
    | none => rfl
    | some s' =>
      refine hs s'.ptr (Multiset.mem_add.mpr ?_)
      cases hd : s'.mustDelete with
      | true => exact .inl (mem_rest hfind hk hd)
      | false => exact .inr (hf s' hfind hd)

/-- no vector is owned twice -/
theorem owned_inj {s' : Slot} (h : t.owned.Nodup) (hk : t.find k = some s) (hk' : t.find k' = some s')
    (hd : s.mustDelete = true) (hd' : s'.mustDelete = true) (hp : s'.ptr = s.ptr) : k' = k := by
  by_contra hne
  rw [owned_find hk, Slot.owned, if_pos hd, Multiset.singleton_add] at h
  exact (Multiset.nodup_cons.mp h).1 (hp ▸ mem_rest hk' hne hd')

/-- only vectors of the columns `ks` were written -/
theorem changed_cells (us : List ℕ) {ks : Set ℕ} (h : m.Owned (t.owned + r))
    (ho : m'.Owned (t.owned + r)) (hus : ∀ p ∈ us, ∃ k ∈ ks, t.find k = some ⟨p, true⟩)
    (hsame : ∀ q ∉ us, m'.cell q = m.cell q) : Changed r ks m m' t t := by
  obtain ⟨hnodup, -, hdisj⟩ := Multiset.nodup_add.mp h.nodup
  have hr : ∀ q ∈ r, q ∉ us := fun q hq hm => by
    obtain ⟨k, -, hfind⟩ := hus q hm
    exact Multiset.disjoint_left.mp hdisj (mem_owned hfind rfl) hq
  refine ⟨ho, fun q hq => hsame q (hr q hq), fun _ _ => rfl, fun k hk hf => ?_⟩
  rw [getColumn, getColumn]
  cases hfind : t.find k with
  | none => rfl
  | some s =>
    refine hsame s.ptr fun hm => ?_
    obtain ⟨k', hk', hfind'⟩ := hus _ hm
    cases hd : s.mustDelete with
    | true => exact hk (owned_inj hnodup hfind' hfind rfl hd rfl ▸ hk')
    | false => exact hr _ (hf s hfind hd) hm

structure Holds (u : Multiset ℕ) (m : Memory α) (t : TupleSet) (k : ℕ) (xs : List (Value α)) :
    Prop where
  fresh : Fresh u t k
  column : ∃ c, t.getColumn m k = some c ∧ c.rows = xs

theorem Holds.changed {ks : Set ℕ} (h : Holds u m t k xs) (hu : u ⊆ r)
    (hc : Changed r ks m m' t t') (hk : k ∉ ks) : Holds u m' t' k xs := by
  obtain ⟨c, hcol, hrows⟩ := h.column
  refine ⟨hc.fresh hk h.fresh, c, (hc.column k hk fun s hs hd => ?_).trans hcol, hrows⟩
  exact hu (h.fresh s hs hd)

theorem Holds.find (h : Holds u m t k xs) :
    ∃ s c, t.find k = some s ∧ m.cell s.ptr = some c ∧ c.rows = xs := by
  obtain ⟨c, hcol, hrows⟩ := h.column
  obtain ⟨s, hs, hc⟩ := Option.bind_eq_some_iff.mp hcol
  exact ⟨s, c, hs, hc, hrows⟩

theorem holds_put (hs : s.mustDelete = false → s.ptr ∈ u) (hc : m.cell s.ptr = some c)
    (hrows : c.rows = xs) : Holds u m (t.put k s) k xs := by
  have hfind : (t.put k s).find k = some s := by rw [find_put, if_pos rfl]
  refine ⟨fun s' hs' => ?_, c, ?_, hrows⟩
  · cases hfind.symm.trans hs'
    exact hs
  · rw [getColumn, hfind]
    exact hc

/-- a column of another tuple set, whose vector is one of `u` -/
structure Provides (u : Multiset ℕ) (m : Memory α) (input : TupleSet) (k : ℕ)
    (xs : List (Value α)) : Prop where
  column : ∃ s c, input.find k = some s ∧ s.ptr ∈ u ∧ m.cell s.ptr = some c ∧ c.rows = xs

theorem Provides.same (h : Provides u m t k xs) (hs : Cells.Same u m m') : Provides u m' t k xs := by
  obtain ⟨s, c, hfind, hr, hc, hrows⟩ := h.column
  exact ⟨s, c, hfind, hr, (hs _ hr).trans hc, hrows⟩

theorem Holds.provides (h : Holds u m t k xs) : Provides (t.owned + u) m t k xs := by
  obtain ⟨s, c, hfind, hc, hrows⟩ := h.find
  refine ⟨s, c, hfind, Multiset.mem_add.mpr ?_, hc, hrows⟩
  cases hd : s.mustDelete with
  | true => exact .inl (mem_owned hfind hd)
  | false => exact .inr (h.fresh s hfind hd)

/-! ## one column -/

theorem deleteSlot_spec (h : m.Owned (s.owned + r)) :
    ∃ m', deleteSlot m s = some m' ∧ m'.Owned r ∧ Cells.Same r m m' := by
  rw [Slot.owned] at h
  rw [deleteSlot]
  by_cases hd : s.mustDelete = true
  · rw [if_pos hd] at h ⊢
    exact h.free
  · rw [if_neg hd, zero_add] at h
    rw [if_neg hd]
    exact ⟨m, rfl, h, Cells.Same.refl r m⟩

theorem deleteOld_spec (h : m.Owned (t.owned + r)) (k : ℕ) :
    ∃ m', t.deleteOld m k = some m' ∧ m'.Owned (t.rest k + r) ∧ Cells.Same (t.rest k + r) m m' := by
  rw [deleteOld]
  cases hfind : t.find k with
  | none =>
    rw [owned_not_find hfind] at h
    exact ⟨m, rfl, h, Cells.Same.refl _ m⟩
  | some s =>
    rw [owned_find hfind, add_assoc] at h
    exact deleteSlot_spec h

/-- a vector that was allocated for this -/
theorem addColumn_spec (h : m.Owned (t.owned + r)) (k : ℕ) (c : Column α) :
    ∃ m' t', t.addColumn (m.alloc c) k m.next true = some (m', t') ∧ Changed r {k} m m' t t' ∧
      t'.find k = some ⟨m.next, true⟩ ∧ Holds u m' t' k c.rows := by
  have ha := h.alloc c
  rw [← Multiset.singleton_add, add_left_comm] at ha
  obtain ⟨m', hm', ho, hs⟩ := deleteOld_spec ha k
  have hrest : ∀ p ∈ t.rest k + r, p ∈ t.rest k + ({m.next} + r) := fun p hp => by
    rw [add_left_comm]
    exact Multiset.mem_add.mpr (.inr hp)
  have hlive : ∀ p ∈ t.rest k + r, p ∈ t.owned + r := fun p hp => by
    refine Multiset.mem_add.mpr ((Multiset.mem_add.mp hp).imp_left fun hp => ?_)
    cases hfind : t.find k with
    | none => rwa [owned_not_find hfind]
    | some s =>
      rw [owned_find hfind]
      exact Multiset.mem_add.mpr (.inr hp)
  have hnew : m'.cell m.next = some c := by
    rw [hs m.next (by simp), Cells.alloc_cell_next]
  refine ⟨m', t.put k ⟨m.next, true⟩, ?_, changed_put ?_ ?_, ?_, holds_put nofun hnew rfl⟩
  · rw [addColumn, hm']
    rfl
  · rw [owned_put, add_assoc, add_left_comm]
    exact ho
  · exact (h.same_alloc hlive c).trans (hs.mono hrest)
  · rw [find_put, if_pos rfl]

theorem copyColumn_spec {input : TupleSet} {i : ℕ} (h : m.Owned (t.owned + r))
    (hin : Provides u m input i xs) (hu : u ⊆ r) (k : ℕ) :
    ∃ m' t', t.copyColumn m input i k = some (m', t') ∧ Changed r {k} m m' t t' ∧
      Holds u m' t' k xs := by
  obtain ⟨m', hm', ho, hs⟩ := deleteOld_spec h k
  obtain ⟨s, c, hfind, hr, hc, hrows⟩ := hin.column
  have hc' : m'.cell s.ptr = some c := (hs _ (Multiset.mem_add.mpr (.inr (hu hr)))).trans hc
  refine ⟨m', t.put k ⟨s.ptr, false⟩, ?_, changed_put ?_ hs, holds_put (fun _ => hr) hc' hrows⟩
  · rw [copyColumn, hm', hfind]
    rfl
  · rw [owned_put, Slot.owned, if_neg nofun, zero_add]
    exact ho

theorem filterColumn_spec {res : Column α} {valid : List Bool} (h : m.Owned (t.owned + r))
    (hfind : t.find k = some s) (hc : m.cell s.ptr = some c) (hres : c.filter valid = some res) :
    ∃ m' t', t.filterColumn m k valid = some (m', t') ∧ Changed r {k} m m' t t' ∧
      Holds u m' t' k res.rows := by
  have hlive : ∀ p ∈ t.rest k + r, p ∈ t.owned + r := fun p hp => by
    rw [owned_find hfind, add_assoc]
    exact Multiset.mem_add.mpr (.inr hp)
  have ha := h.alloc res
  rw [← Multiset.singleton_add, owned_find hfind, add_assoc, add_left_comm] at ha
  obtain ⟨m', hm', ho, hs⟩ := deleteSlot_spec ha
  have hnew : m'.cell m.next = some res := by
    rw [hs m.next (by simp), Cells.alloc_cell_next]
  refine ⟨m', t.put k ⟨m.next, true⟩, ?_, changed_put ?_ ?_, holds_put nofun hnew rfl⟩
  · simp only [filterColumn, hfind, hc, hres, hm', Option.bind_eq_bind, Option.bind_some]
    rfl
  · rw [owned_put, add_assoc]
    exact ho
  · exact (h.same_alloc hlive res).trans (hs.mono fun p hp => Multiset.mem_add.mpr (.inr hp))

theorem replicate_spec {input : TupleSet} {i : ℕ} {times : List ℕ} (h : m.Owned (t.owned + r))
    (hin : Provides u m input i xs) (hu : u ⊆ r)
    {ys : List (Value α)} (hres : ∀ c : Column α, c.rows = xs →
      ∃ res, c.replicate times = some res ∧ res.rows = ys) (k : ℕ) :
    ∃ m' t', t.replicate m input i k times = some (m', t') ∧ Changed r {k} m m' t t' ∧
      Holds u m' t' k ys := by
  obtain ⟨m', hm', ho, hs⟩ := deleteOld_spec h k
  obtain ⟨s, c, hfind, hr, hc, hrows⟩ := hin.column
  obtain ⟨res, hres, hys⟩ := hres c hrows
  have hc' : m'.cell s.ptr = some c := (hs _ (Multiset.mem_add.mpr (.inr (hu hr)))).trans hc
  have ha := ho.alloc res
  refine ⟨m'.alloc res, t.put k ⟨m'.next, true⟩, ?_, changed_put ?_ ?_,
    holds_put nofun (Cells.alloc_cell_next m' res) hys⟩
  · simp only [TupleSet.replicate, hm', hfind, hc', hres, Option.bind_eq_bind, Option.bind_some]
    rfl
  · rw [owned_put, Slot.owned, if_pos rfl, add_assoc, Multiset.singleton_add]
    exact ha
  · exact hs.trans (ho.same_alloc (fun p hp => hp) res)

theorem destroySlots_spec (l : List (ℕ × Slot)) : ∀ {m : Memory α},
    m.Owned ((l.map fun e => e.2.owned).sum + r) →
    ∃ m', destroySlots l m = some m' ∧ m'.Owned r ∧ Cells.Same r m m' := by
  induction l with
  | nil =>
    intro m h
    rw [List.map_nil, List.sum_nil, zero_add] at h
    exact ⟨m, rfl, h, Cells.Same.refl r m⟩
  | cons e l ih =>
    intro m h
    rw [List.map_cons, List.sum_cons, add_assoc] at h
    obtain ⟨m₁, hm₁, ho₁, hs₁⟩ := deleteSlot_spec h
    obtain ⟨m', hm', ho, hs⟩ := ih ho₁
    refine ⟨m', ?_, ho, (hs₁.mono fun p hp => Multiset.mem_add.mpr (.inr hp)).trans hs⟩
    rw [destroySlots, hm₁]
    exact hm'

theorem destroy_spec (h : m.Owned (t.owned + r)) :
    ∃ m', t.destroy m = some m' ∧ m'.Owned r ∧ Cells.Same r m m' := destroySlots_spec t.columns h

/-! ## loops over columns -/

/-- `for (auto& i : matches) …` -/
def forEach {ι : Type} (f : ι → Memory α → TupleSet → Option (Memory α × TupleSet)) :
    List ι → Memory α → TupleSet → Option (Memory α × TupleSet)
  | [], m, t => some (m, t)
  | i :: l, m, t => do
    let (m, t) ← f i m t
    forEach f l m t

/-- every round changes the column `g i`, and finds what the others have left alone -/
theorem forEach_spec {ι : Type} {f : ι → Memory α → TupleSet → Option (Memory α × TupleSet)}
    {g : ι → ℕ} {P Q : ι → Memory α → TupleSet → Prop}
    (hpre : ∀ {i k m m' t t'}, g i ≠ k → Changed r {k} m m' t t' → P i m t → P i m' t')
    (hpost : ∀ {i ks m m' t t'}, g i ∉ ks → Changed r ks m m' t t' → Q i m t → Q i m' t')
    (hstep : ∀ {i m t}, m.Owned (t.owned + r) → P i m t →
      ∃ m' t', f i m t = some (m', t') ∧ Changed r {g i} m m' t t' ∧ Q i m' t')
    (l : List ι) (hl : (l.map g).Nodup) : ∀ {m t}, m.Owned (t.owned + r) → (∀ i ∈ l, P i m t) →
    ∃ m' t', forEach f l m t = some (m', t') ∧ Changed r {k | k ∈ l.map g} m m' t t' ∧
      ∀ i ∈ l, Q i m' t' := by
  induction l with
  | nil =>
    intro m t h _
    exact ⟨m, t, rfl, Changed.refl h _, fun _ hi => absurd hi List.not_mem_nil⟩
  | cons i l ih =>
    intro m t h hall
    obtain ⟨hnot, hl⟩ := List.nodup_cons.mp hl
    obtain ⟨m₁, t₁, hf, hc₁, hpost₁⟩ := hstep h (hall i List.mem_cons_self)
    have hpre₁ : ∀ j ∈ l, P j m₁ t₁ := by
      intro j hj
      have hne : g j ≠ g i := fun e => hnot (e ▸ List.mem_map_of_mem (f := g) hj)
      exact hpre hne hc₁ (hall j (List.mem_cons_of_mem i hj))
    obtain ⟨m', t', hrun, hc, hposts⟩ := ih hl hc₁.owned hpre₁
    refine ⟨m', t', ?_, ?_, fun j hj => ?_⟩
    · rw [forEach, hf]
      exact hrun
    · refine (hc₁.mono ?_).trans (hc.mono ?_)
      · intro k hk
        rw [show k = g i from hk]
        exact List.mem_cons_self
      · exact fun k hk => List.mem_cons_of_mem _ hk
    · rcases List.mem_cons.mp hj with rfl | hj
      · exact hpost hnot hc hpost₁
      · exact hposts j hj

end TupleSet

end Netsdb
