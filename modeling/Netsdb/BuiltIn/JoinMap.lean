import Netsdb.BuiltIn.JoinDouble
import Netsdb.BuiltIn.PDBMap

/-!
# `JoinMap` (`JoinMap.cc`)

* `JoinMap.push`        doubles a full table, and pushes;
* `JoinMap.push_spec`   a new value for a hash, or nothing at all;
* `joinMapCorrect_of_reach`   every run in which no request is changed on its way to the allocator
                              and no hash gets 2^31 values gives a multimap.
-/

set_option linter.unusedSectionVars false

namespace Netsdb
open Machine

/-- the constructors without `partitionId` and `numPartitions` leave what is in the memory -/
structure JoinMap (V : Type*) where
  myArray : JoinPairArray V
  partitionId : Nat
  numPartitions : Int

namespace JoinMap
variable {V : Type*} [Inhabited V]

def create (l : JoinLayouts) (initSize partitionId : Nat) (numPartitions : Int) :
    Option (JoinMap V) :=
  let initSize := if initSize < 2 then 2 else initSize
  (JoinPairArray.create l (l.table.objSize * initSize) initSize).map fun a =>
    ⟨a, partitionId, numPartitions⟩

def setArray (m : JoinMap V) (a : JoinPairArray V) : JoinMap V := { m with myArray := a }

def push (fail : JoinSite → Bool) (m : JoinMap V) (me : Nat) : Outcome (JoinMap V) ValueRef :=
  if m.myArray.isOverFull = true then
    match m.myArray.doubleArray fail with
    | .ret _ temp => (temp.push fail me).lift m.setArray
    | .notEnoughSpace old => .notEnoughSpace (m.setArray old)
    | .fatal => .fatal
  else (m.myArray.push fail me).lift m.setArray

def setUnused (m : JoinMap V) (clearMe : Nat) : Option (JoinMap V) :=
  (m.myArray.setUnused clearMe).map m.setArray

def setValue (m : JoinMap V) (r : ValueRef) (v : V) : JoinMap V :=
  m.setArray (m.myArray.setValue r v)

def lookup (m : JoinMap V) (me : Nat) : Option (List V) := m.myArray.lookup me

def count (m : JoinMap V) (which : Nat) : Int := m.myArray.count which

def size (m : JoinMap V) : Nat := m.myArray.usedSlots

def iterate (m : JoinMap V) : List (Nat × List V) := m.myArray.iterate

/-! ## what the operations do -/

def recordsOf (m : JoinMap V) (hashVal : Nat) : List V := m.myArray.recordsOf hashVal

/-- before the next push there is an unused slot -/
structure Good (m : JoinMap V) : Prop where
  sound : m.myArray.Sound
  max : m.myArray.maxSlots = PairArray.fill m.myArray.numSlots
  le_max : m.myArray.usedSlots ≤ m.myArray.maxSlots

variable {m m' : JoinMap V} {me : Nat}

theorem Good.room (h : m.Good) : m.myArray.usedSlots < m.myArray.numSlots := by
  have h1 := h.le_max
  have h2 := PDBMap.fill_lt h.sound.two_le
  rw [h.max] at h1
  omega

theorem create_spec {l : JoinLayouts} {n p : Nat} {k : Int} (h2 : 2 ≤ n)
    (hf : PairArray.TableFits l.table n) (ho : l.outer.Fits 1) :
    ∃ m : JoinMap V, create l n p k = some m ∧ m.Good ∧ (∀ h, m.recordsOf h = []) ∧
      m.myArray.layouts = l ∧ m.partitionId = p ∧ m.numPartitions = k := by
  obtain ⟨a, ha, hs, hnone, hzero, hn, hmax, hl⟩ := JoinPairArray.create_spec (V := V) hf ho h2
  refine ⟨⟨a, p, k⟩, ?_, ⟨hs, ?_, ?_⟩, fun h => JoinPairArray.recordsOf_unused hnone, hl, rfl, rfl⟩
  · have hnot : ¬ n < 2 := by omega
    simp only [create, if_neg hnot, ha, Option.map_some]
  · show a.maxSlots = PairArray.fill a.numSlots
    rw [hmax, hn]
  · show a.usedSlots ≤ a.maxSlots
    rw [hzero]
    exact Nat.zero_le _

/-- the condition on a `push`: what has to grow is given the storage that it asks for -/
structure CanPush (m : JoinMap V) (me : Nat) : Prop where
  table : m.myArray.isOverFull = true →
    PairArray.TableFits m.myArray.layouts.table (m.myArray.numSlots * 2)
  lists : m.myArray.CanPush me

/-- the same map, with other contents -/
structure SameMap (m m' : JoinMap V) : Prop where
  layouts : m'.myArray.layouts = m.myArray.layouts
  partitionId : m'.partitionId = m.partitionId
  numPartitions : m'.numPartitions = m.numPartitions

theorem SameMap.refl (m : JoinMap V) : SameMap m m := ⟨rfl, rfl, rfl⟩

theorem SameMap.trans {m'' : JoinMap V} (h : SameMap m m') (h' : SameMap m' m'') : SameMap m m'' :=
  ⟨h'.layouts.trans h.layouts, h'.partitionId.trans h.partitionId,
    h'.numPartitions.trans h.numPartitions⟩

/-- a call that has failed -/
structure Kept (m m' : JoinMap V) : Prop where
  good : m'.Good
  same : SameMap m m'
  records : m'.recordsOf = m.recordsOf

/-- the value `x` is behind the values of `hv` -/
structure Pushed (m : JoinMap V) (hv : Nat) (x : V) (m' : JoinMap V) : Prop where
  good : m'.Good
  same : SameMap m m'
  records : m'.recordsOf = Function.update m.recordsOf hv (m.recordsOf hv ++ [x])

/-- a push into a table that is not full -/
theorem push_room (fail : JoinSite → Bool) (h : m.Good)
    (hfull : m.myArray.usedSlots < m.myArray.maxSlots) (hc : m.myArray.CanPush me) :
    (∃ m', (m.myArray.push fail me).lift m.setArray = .notEnoughSpace m' ∧ Kept m m' ∧
        ∃ site, fail site = true) ∨
      ∃ m' r, (m.myArray.push fail me).lift m.setArray = .ret m' r ∧
        Pushed m (hashValOf me) default m' ∧ m'.myArray.RefersTo r (hashValOf me) := by
  obtain ⟨a', ha', hk, hsite⟩ | ⟨a', r, ha', hp, hused, href⟩ :=
    JoinPairArray.push_spec fail h.sound h.room hc
  · refine Or.inl ⟨m.setArray a', by rw [ha']; rfl, ⟨⟨hk.sound, ?_, ?_⟩, ⟨?_, rfl, rfl⟩, ?_⟩, hsite⟩
    · show a'.maxSlots = PairArray.fill a'.numSlots
      rw [hk.same.maxSlots, hk.same.numSlots, h.max]
    · show a'.usedSlots ≤ a'.maxSlots
      rw [hk.same.usedSlots, hk.same.maxSlots]
      exact h.le_max
    · exact hk.same.layouts
    · exact hk.records
  · refine Or.inr ⟨m.setArray a', r, by rw [ha']; rfl, ⟨⟨hp.sound, ?_, ?_⟩, ⟨?_, rfl, rfl⟩, ?_⟩,
      href⟩
    · show a'.maxSlots = PairArray.fill a'.numSlots
      rw [hp.maxSlots, hp.numSlots, h.max]
    · show a'.usedSlots ≤ a'.maxSlots
      rw [hused, hp.maxSlots]
      split <;> omega
    · exact hp.layouts
    · exact hp.records

/-- a full table, doubled -/
theorem double_spec (fail : JoinSite → Bool) (h : m.Good)
    (hf : PairArray.TableFits m.myArray.layouts.table (m.myArray.numSlots * 2)) :
    (m.myArray.doubleArray fail = .notEnoughSpace m.myArray ∧ ∃ site, fail site = true) ∨
      ∃ new, m.myArray.doubleArray fail = .ret m.myArray new ∧
        JoinPairArray.Doubled m.myArray new ∧ Kept m (m.setArray new) ∧
        new.usedSlots < new.maxSlots := by
  obtain hfail | ⟨new, hrun, hd⟩ := JoinPairArray.doubleArray_spec fail h.sound hf
  · exact Or.inl hfail
  · have hlt : new.usedSlots < new.maxSlots := by
      have h1 := PDBMap.fill_lt_double h.sound.two_le
      have h2 := h.le_max
      rw [hd.usedSlots, hd.maxSlots]
      rw [h.max] at h2
      omega
    refine Or.inr ⟨new, hrun, hd, ⟨⟨hd.sound, ?_, Nat.le_of_lt hlt⟩, ⟨hd.layouts, rfl, rfl⟩,
      hd.records⟩, hlt⟩
    show new.maxSlots = PairArray.fill new.numSlots
    rw [hd.maxSlots, hd.numSlots]

theorem canPush_doubled {a new : JoinPairArray V} (hd : JoinPairArray.Doubled a new)
    (hc : a.CanPush me) : new.CanPush me := by
  intro x hx hh
  have hux : new.Used x := by
    rw [JoinPairArray.Used, hh]
    exact JoinPairArray.hashValOf_ne me
  obtain ⟨i, hi, -, he⟩ := hd.origin x hx hux
  obtain ⟨h1, h2⟩ := hc i hi (by rw [← he]; exact hh)
  refine ⟨?_, ?_⟩
  · rw [he, hd.overflows, hd.layouts]
    exact h1
  · rw [he, hd.overflows]
    exact h2

/-- **`push`.** -/
theorem push_spec (fail : JoinSite → Bool) (h : m.Good) (hc : m.CanPush me) :
    (∃ m', m.push fail me = .notEnoughSpace m' ∧ Kept m m' ∧ ∃ site, fail site = true) ∨
      ∃ m' r, m.push fail me = .ret m' r ∧ Pushed m (hashValOf me) default m' ∧
        m'.myArray.RefersTo r (hashValOf me) := by
  by_cases hfull : m.myArray.isOverFull = true
  · rw [push, if_pos hfull]
    obtain ⟨hrun, hsite⟩ | ⟨new, hrun, hd, hk, hlt⟩ := double_spec fail h (hc.table hfull)
    · exact Or.inl ⟨m, by rw [hrun]; rfl, ⟨h, SameMap.refl m, rfl⟩, hsite⟩
    · rw [hrun]
      obtain ⟨m', hm', hk', hsite⟩ | ⟨m', r, hm', hp, href⟩ :=
        push_room fail hk.good hlt (canPush_doubled hd hc.lists)
      · exact Or.inl ⟨m', hm', ⟨hk'.good, hk.same.trans hk'.same, hk'.records.trans hk.records⟩,
          hsite⟩
      · refine Or.inr ⟨m', r, hm', ⟨hp.good, hk.same.trans hp.same, ?_⟩, href⟩
        rw [hp.records, hk.records]
  · rw [push, if_neg hfull]
    exact push_room fail h (by simpa [JoinPairArray.isOverFull] using hfull) hc.lists

/-- `push`, and the new value written -/
theorem Pushed.setValue {hv : Nat} {x : V} {r : ValueRef} (h : Pushed m hv x m')
    (hr : m'.myArray.RefersTo r hv) (v : V) : Pushed m hv v (m'.setValue r v) := by
  obtain ⟨hs, hsame, hrec⟩ := JoinPairArray.setValue_spec h.good.sound hr v
  refine ⟨⟨hs, ?_, ?_⟩, h.same.trans ⟨hsame.layouts, rfl, rfl⟩, ?_⟩
  · show (m'.myArray.setValue r v).maxSlots = PairArray.fill (m'.myArray.setValue r v).numSlots
    rw [hsame.maxSlots, hsame.numSlots, h.good.max]
  · show (m'.myArray.setValue r v).usedSlots ≤ (m'.myArray.setValue r v).maxSlots
    rw [hsame.usedSlots, hsame.maxSlots]
    exact h.good.le_max
  · show (m'.myArray.setValue r v).recordsOf = _
    rw [hrec, show m'.myArray.recordsOf = m'.recordsOf from rfl, h.records, Function.update_self,
      List.dropLast_concat, Function.update_idem]

/-! ## runs -/

/-- a push and the write of the new value, when no allocation fails -/
def pushValue (m : JoinMap V) (e : Nat × V) : Option (JoinMap V) :=
  match m.push (fun _ => false) e.1 with
  | .ret m' r => some (m'.setValue r e.2)
  | _ => none

/-- the condition on a push: the number of values of the hash is an `int` then -/
structure Fine (m : JoinMap V) (e : Nat × V) : Prop where
  canPush : m.CanPush e.1
  small : (m.recordsOf (hashValOf e.1)).length + 1 < 2^31

end JoinMap

/-- the values that were pushed for a hash -/
def valuesOf {V : Type*} (pushed : List (Nat × V)) (h : Nat) : List V :=
  (pushed.filter fun e => hashValOf e.1 = hashValOf h).map Prod.snd

namespace JoinMap
variable {V : Type*} [Inhabited V] {m : JoinMap V} {pushed : List (Nat × V)}

structure Refines (m : JoinMap V) (pushed : List (Nat × V)) : Prop where
  good : m.Good
  records : ∀ hv, m.recordsOf hv = (pushed.filter fun e => hashValOf e.1 = hv).map Prod.snd
  small : ∀ hv, (m.recordsOf hv).length < 2^31

/-- **One push.** -/
theorem pushValue_refines {e : Nat × V} (h : m.Refines pushed) (hf : m.Fine e) :
    ∃ u, m.pushValue e = some u ∧ u.Refines (pushed ++ [e]) := by
  obtain ⟨-, -, -, site, hsite⟩ | ⟨m', r, hm', hp, href⟩ :=
    push_spec (fun _ => false) h.good hf.canPush
  · cases hsite
  · have hw := hp.setValue href e.2
    refine ⟨m'.setValue r e.2, by rw [pushValue, hm'], hw.good, fun hv => ?_, fun hv => ?_⟩
    · rw [hw.records, List.filter_append, List.map_append, ← h.records hv]
      by_cases hh : hv = hashValOf e.1
      · subst hh
        simp
      · rw [Function.update_of_ne hh]
        have hh' : ¬ hashValOf e.1 = hv := fun e' => hh e'.symm
        simp [hh']
    · rw [hw.records]
      by_cases hh : hv = hashValOf e.1
      · subst hh
        rw [Function.update_self, List.length_append, List.length_singleton]
        exact hf.small
      · rw [Function.update_of_ne hh]
        exact h.small hv

/-- what the operations that read a map return -/
structure Correct (m : JoinMap V) (pushed : List (Nat × V)) : Prop where
  lookup : ∀ h, m.lookup h = some (valuesOf pushed h)
  count : ∀ h, m.count h = (valuesOf pushed h).length
  /-- every hash once -/
  once : (m.iterate.map Prod.fst).Nodup
  /-- the hashes that were pushed, with all their values -/
  iterate : ∀ e, e ∈ m.iterate ↔ ∃ p ∈ pushed, e = (hashValOf p.1, valuesOf pushed p.1)

theorem Refines.correct (h : m.Refines pushed) : m.Correct pushed := by
  have hrec : ∀ k, m.recordsOf (hashValOf k) = valuesOf pushed k := fun k => h.records _
  have hperm := JoinPairArray.iterate_perm h.good.sound.readable
  have hdist := h.good.sound.distinct
  refine ⟨fun k => ?_, fun k => ?_, ?_, fun e => ?_⟩
  · rw [← hrec]
    exact JoinPairArray.lookup_eq h.good.sound h.good.room k
  · rw [← hrec]
    exact JoinPairArray.count_eq h.good.sound h.good.room (h.small _)
  · refine ((hperm.map Prod.fst).nodup_iff).mpr ?_
    rw [List.map_map]
    exact (List.map_id _).symm ▸ JoinPairArray.hashes_nodup hdist
  · rw [show e ∈ m.iterate ↔ _ from hperm.mem_iff, List.mem_map]
    constructor
    · rintro ⟨hv, hmem, rfl⟩
      have hne : m.recordsOf hv ≠ [] := (JoinPairArray.mem_hashes_iff hdist).mp hmem
      rw [h.records, Ne, List.map_eq_nil_iff] at hne
      obtain ⟨p, hp⟩ := List.exists_mem_of_ne_nil _ hne
      obtain ⟨hp, hh⟩ := List.mem_filter.mp hp
      have hh' : hashValOf p.1 = hv := of_decide_eq_true hh
      exact ⟨p, hp, by rw [← hrec, hh']; rfl⟩
    · rintro ⟨p, hp, rfl⟩
      refine ⟨hashValOf p.1, (JoinPairArray.mem_hashes_iff hdist).mpr ?_, by rw [← hrec]; rfl⟩
      show m.recordsOf (hashValOf p.1) ≠ []
      rw [h.records, Ne, List.map_eq_nil_iff]
      exact List.ne_nil_of_mem (List.mem_filter.mpr ⟨hp, decide_eq_true rfl⟩)

end JoinMap

/-- the map and the values that were pushed, side by side -/
def joinMapStep {V : Type*} [Inhabited V] (x : JoinMap V × List (Nat × V)) (e : Nat × V) :
    Option (JoinMap V × List (Nat × V)) :=
  (x.1.pushValue e).map fun m => (m, x.2 ++ [e])

/-- **`JoinMap` is a multimap.** -/
theorem joinMapCorrect_of_reach {V : Type*} [Inhabited V] {l : JoinLayouts} {initSize : Nat}
    (h2 : 2 ≤ initSize) (hf : PairArray.TableFits l.table initSize) (ho : l.outer.Fits 1)
    (partitionId : Nat) (numPartitions : Int) :
    ∃ m₀ : JoinMap V, JoinMap.create l initSize partitionId numPartitions = some m₀ ∧
      ∀ m pushed, Reach joinMapStep (fun x e => x.1.Fine e) (m₀, []) (m, pushed) →
      m.Correct pushed ∧ ∀ e, m.Fine e → ∃ u, m.pushValue e = some u := by
  obtain ⟨m₀, hm₀, hg, hr, -⟩ := JoinMap.create_spec (V := V) (p := partitionId)
    (k := numPartitions) h2 hf ho
  refine ⟨m₀, hm₀, fun m pushed hreach => ?_⟩
  have hinit : m₀.Refines [] := ⟨hg, hr, fun hv => by rw [hr]; exact Nat.two_pow_pos 31⟩
  have href : m.Refines pushed := hreach.inv (P := fun x => x.1.Refines x.2) hinit
    fun x e y hx hfine hy => by
      obtain ⟨u, hu, hru⟩ := JoinMap.pushValue_refines hx hfine
      simp only [joinMapStep, hu, Option.map_some, Option.some.injEq] at hy
      subst hy
      exact hru
  refine ⟨href.correct, fun e hfine => ?_⟩
  obtain ⟨u, hu, -⟩ := JoinMap.pushValue_refines href hfine
  exact ⟨u, hu⟩

section
variable {V : Type*} [Inhabited V]

theorem canPushAt_iff (a : JoinPairArray V) (slot : Nat) :
    ((a.data slot).next = noNext → a.overflows.CanGrow ∧ a.layouts.inner.Fits 1) ∧
      (a.overflows.items[(a.data slot).next]?.all fun w => decide w.CanGrow) = true ↔
      a.CanPushAt slot := by
  constructor
  · rintro ⟨h1, h2⟩
    refine ⟨h1, fun w hw => ?_⟩
    rw [hw] at h2
    exact of_decide_eq_true h2
  · rintro ⟨h1, h2⟩
    refine ⟨h1, ?_⟩
    cases hw : a.overflows.items[(a.data slot).next]? with
    | none => rfl
    | some w => exact decide_eq_true (h2 w hw)

instance (a : JoinPairArray V) (slot : Nat) : Decidable (a.CanPushAt slot) :=
  decidable_of_iff _ (canPushAt_iff a slot)

instance (a : JoinPairArray V) (me : Nat) : Decidable (a.CanPush me) :=
  inferInstanceAs (Decidable (∀ i < a.numSlots, _ → _))

instance (m : JoinMap V) (me : Nat) : Decidable (m.CanPush me) :=
  decidable_of_iff ((m.myArray.isOverFull = true →
      PairArray.TableFits m.myArray.layouts.table (m.myArray.numSlots * 2)) ∧ m.myArray.CanPush me)
    ⟨fun h => ⟨h.1, h.2⟩, fun h => ⟨h.table, h.lists⟩⟩

instance (m : JoinMap V) (e : Nat × V) : Decidable (m.Fine e) :=
  decidable_of_iff (m.CanPush e.1 ∧ (m.recordsOf (hashValOf e.1)).length + 1 < 2^31)
    ⟨fun h => ⟨h.1, h.2⟩, fun h => ⟨h.canPush, h.small⟩⟩

end

def smallLayouts : JoinLayouts := ⟨⟨24, 64, 8, by decide⟩, ⟨16, 48, 8, by decide⟩, ⟨8, 48, 8, by decide⟩⟩

/-- the reserved hash and the one that stands for it, with a third one that makes the table grow -/
theorem joinMapCorrect_reserved : ∃ m : JoinMap Nat, m.lookup 493295393 = some [1, 2, 4] ∧
    m.count 858931273 = 3 ∧ m.count 7 = 1 ∧ m.count 8 = 0 ∧
    ∀ e, e ∈ m.iterate ↔ e = (858931273, [1, 2, 4]) ∨ e = (7, [3]) := by
  obtain ⟨m₀, hm₀, hreach⟩ := joinMapCorrect_of_reach (V := Nat) (l := smallLayouts)
    (Nat.le_refl 2) (by decide) (by decide) 0 1
  have hrun : ((JoinMap.create (V := Nat) smallLayouts 2 0 1).bind fun m =>
      run (guarded joinMapStep fun x e => x.1.Fine e) (m, [])
        [(493295393, 1), (858931273, 2), (7, 3), (493295393, 4)]).map (fun x => x.2) =
      some [(493295393, 1), (858931273, 2), (7, 3), (493295393, 4)] := by
    decide
  rw [hm₀, Option.bind_some] at hrun
  obtain ⟨⟨m, pushed⟩, hmp, he⟩ := Option.map_eq_some_iff.mp hrun
  have he' : pushed = [(493295393, 1), (858931273, 2), (7, 3), (493295393, 4)] := he
  obtain ⟨hc, -⟩ := hreach m pushed (Reach.of_run _ hmp)
  refine ⟨m, ?_, ?_, ?_, ?_, fun e => ?_⟩
  · rw [hc.lookup, he']
    decide
  · rw [hc.count, he']
    decide
  · rw [hc.count, he']
    decide
  · rw [hc.count, he']
    decide
  · have h1 : valuesOf pushed 493295393 = [1, 2, 4] := by rw [he']; decide
    have h2 : valuesOf pushed 858931273 = [1, 2, 4] := by rw [he']; decide
    have h3 : valuesOf pushed 7 = [3] := by rw [he']; decide
    rw [hc.iterate, he']
    rw [he'] at h1 h2 h3
    simp only [List.mem_cons, List.not_mem_nil, or_false, exists_eq_or_imp, exists_eq_left, h1, h2,
      h3, show hashValOf 493295393 = 858931273 from rfl, show hashValOf 858931273 = 858931273 from rfl,
      show hashValOf 7 = 7 from rfl]
    tauto

/-- the request for 2^28 slots of 16 bytes is a multiple of 2^32 bytes but for the header: the
allocator gives a chunk of 72 bytes, and the constructor writes outside of it -/
theorem joinMapCorrect_not_always :
    ¬ ∀ (l : JoinLayouts) (initSize : Nat), 2 ≤ initSize → initSize < 2^32 →
      ∃ m₀ : JoinMap Nat, JoinMap.create l initSize 0 1 = some m₀ ∧
        ∀ m pushed, Reach joinMapStep (fun x e => ∃ u, x.1.pushValue e = some u) (m₀, []) (m, pushed) →
        m.Correct pushed := by
  intro h
  obtain ⟨m, hm, -⟩ := h { smallLayouts with table := ⟨16, 60, 8, by decide⟩ } (2^28) (by decide)
    (by decide)
  have hnone : JoinMap.create (V := Nat) { smallLayouts with table := ⟨16, 60, 8, by decide⟩ } (2^28)
      0 1 = none := by
    rfl
  rw [hnone] at hm
  cases hm

end Netsdb
