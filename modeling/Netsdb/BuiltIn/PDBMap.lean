import Netsdb.BuiltIn.PairArray
import Netsdb.Lib.Reach

/-!
# `Map` (`PDBMap.cc`)

* `PDBMap.index`      `operator[]`, which doubles the table when a new key comes to a full one;
* `PDBMap.iterate`    the loop from `begin ()` to `end ()`;
* `MapRun`            a map with the references that were handed out;
* `mapCorrect_of_reach`   every run in which no request for a table is changed on its way to the
                          allocator does what the replay on a finite map does.
-/

set_option linter.unusedSectionVars false

namespace Netsdb
open Machine

structure PDBMap (K V : Type*) where
  myArray : PairArray K V

/-- the iterator over a map -/
structure PDBMapIterator where
  slot : Nat
  done : Bool

namespace PDBMap
variable {K V : Type*} [BEq K] [Hashable K] [Inhabited K] [Inhabited V]

def create (l : ArrayLayout) (initSize : Nat) : Option (PDBMap K V) :=
  let initSize := if initSize < 2 then 2 else initSize
  (PairArray.create l (l.objSize * initSize) initSize).map PDBMap.mk

def count (m : PDBMap K V) (which : K) : Nat := m.myArray.count which

/-- `operator[]`; the result is the slot of the value -/
def index (fail : MapSite → Bool) (m : PDBMap K V) (which : K) : Outcome (PDBMap K V) Nat :=
  if m.myArray.count which = 0 ∧ m.myArray.isOverFull = true then
    match m.myArray.doubleArray fail with
    | .ret _ temp => (temp.index fail which).lift PDBMap.mk
    | .notEnoughSpace old => .notEnoughSpace ⟨old⟩
    | .fatal => .fatal
  else (m.myArray.index fail which).lift PDBMap.mk

def size (m : PDBMap K V) : Nat := m.myArray.usedSlots

def setValue (m : PDBMap K V) (slot : Nat) (v : V) : PDBMap K V := ⟨m.myArray.setValue slot v⟩

/-! ## iteration -/

/-- `while (slot != iterateMe->numSlots && unused) slot++` -/
def skipUnused (m : PDBMap K V) (slot : Nat) : PDBMapIterator :=
  let slot := skipFree (fun i => (m.myArray.data i).hash == UNUSED) m.myArray.numSlots
    (m.myArray.numSlots - slot) slot
  ⟨slot, slot == m.myArray.numSlots⟩

def begin (m : PDBMap K V) : PDBMapIterator := m.skipUnused 0

/-- `operator++` -/
def next (m : PDBMap K V) (it : PDBMapIterator) : PDBMapIterator :=
  let it' := m.skipUnused (if it.done then it.slot else it.slot + 1)
  ⟨it'.slot, it.done || it'.done⟩

/-- `for (; it != end (); ++it)`, at most so many times -/
def collect (m : PDBMap K V) : Nat → PDBMapIterator → List (K × V)
  | 0, _ => []
  | n + 1, it =>
    if it.done then []
    else ((m.myArray.data it.slot).key, (m.myArray.data it.slot).value) :: collect m n (m.next it)

def iterate (m : PDBMap K V) : List (K × V) := m.collect (m.myArray.numSlots + 1) m.begin

/-! ## what the operations do -/

variable [EquivBEq K] [LawfulHashable K] {m : PDBMap K V} {which : K} {fail : MapSite → Bool}

def entries (m : PDBMap K V) : List (K × V) := m.myArray.entries

/-- the state of a map: before the next new key comes in there is an unused slot -/
structure Good (m : PDBMap K V) : Prop where
  sound : m.myArray.Sound
  max : m.myArray.maxSlots = PairArray.fill m.myArray.numSlots
  le_max : m.myArray.usedSlots ≤ m.myArray.maxSlots

theorem fill_lt {n : Nat} (h : 2 ≤ n) : PairArray.fill n < n := by
  unfold PairArray.fill
  omega

theorem fill_lt_double {n : Nat} (h : 2 ≤ n) : PairArray.fill n < PairArray.fill (n * 2) := by
  unfold PairArray.fill
  omega

theorem Good.room (h : m.Good) : m.myArray.usedSlots < m.myArray.numSlots := by
  have h1 := h.le_max
  have h2 := fill_lt h.sound.two_le
  rw [h.max] at h1
  omega

theorem create_spec {l : ArrayLayout} {n : Nat} (h2 : 2 ≤ n) (hf : PairArray.TableFits l n) :
    ∃ m : PDBMap K V, create l n = some m ∧ m.Good ∧ m.entries = [] := by
  obtain ⟨a, ha, hs, he, hn, hmax, -⟩ := PairArray.create_spec (K := K) (V := V) hf h2
  refine ⟨⟨a⟩, ?_, ⟨hs, ?_, ?_⟩, he⟩
  · have hnot : ¬ n < 2 := by omega
    simp only [create, if_neg hnot, ha, Option.map_some]
  · show a.maxSlots = PairArray.fill a.numSlots
    rw [hmax, hn]
  · show a.usedSlots ≤ a.maxSlots
    rw [hs.used, he]
    exact Nat.zero_le _

theorem count_eq (h : m.Good) (which : K) [Decidable (m.myArray.Has which)] :
    m.myArray.count which = if m.myArray.Has which then 1 else 0 :=
  PairArray.count_eq h.sound h.room which

/-- a key that is there -/
theorem index_hit (fail : MapSite → Bool) (h : m.Good) (hk : m.myArray.Has which) :
    ∃ slot, m.index fail which = .ret m slot ∧ slot < m.myArray.numSlots ∧ m.myArray.Used slot ∧
      ((m.myArray.data slot).key == which) = true := by
  classical
  have hcount := count_eq h which
  rw [if_pos hk] at hcount
  obtain ⟨slot, hs, hu, he⟩ := hk
  refine ⟨slot, ?_, hs, hu, he⟩
  rw [index, if_neg (by rw [hcount]; simp), PairArray.index_hit h.sound hs hu he]
  rfl

/-- a new key, in a table that is not full -/
theorem index_new (fail : MapSite → Bool) (h : m.Good) (hk : ¬ m.myArray.Has which)
    (hfull : m.myArray.isOverFull = false) (hc : fail .construct = false)
    (hcopy : fail .copyKey = false) :
    ∃ m' slot, m.index fail which = .ret m' slot ∧ m'.Good ∧
      m'.entries.Perm ((which, default) :: m.entries) ∧ slot < m'.myArray.numSlots ∧
      m'.myArray.data slot = ⟨Hasher.hash which, which, default⟩ ∧
      m'.myArray.numSlots = m.myArray.numSlots ∧
      ∀ i, m.myArray.Used i → m'.myArray.data i = m.myArray.data i := by
  obtain ⟨a', slot, hidx, hs, hp, hu, hsize, hlt, hdata, hkeep⟩ :=
    PairArray.index_miss fail h.sound h.room hk
  have hroom : m.myArray.usedSlots < m.myArray.maxSlots := by
    simpa [PairArray.isOverFull] using hfull
  rw [hc, hcopy] at hidx
  refine ⟨⟨a'⟩, slot, ?_, ⟨hs, ?_, ?_⟩, hp, hlt, hdata, hsize.1, hkeep⟩
  · rw [index, if_neg (by rw [hfull]; simp), hidx]
    rfl
  · show a'.maxSlots = PairArray.fill a'.numSlots
    rw [hsize.2.1, hsize.1, h.max]
  · show a'.usedSlots ≤ a'.maxSlots
    rw [hu, hsize.2.1]
    exact hroom

/-- a new key, in a full table -/
theorem index_double (fail : MapSite → Bool) (h : m.Good) (hk : ¬ m.myArray.Has which)
    (hfull : m.myArray.isOverFull = true)
    (hfits : PairArray.TableFits m.myArray.layout (m.myArray.numSlots * 2))
    (hfail : ∀ site, fail site = false) :
    ∃ m' slot, m.index fail which = .ret m' slot ∧ m'.Good ∧
      m'.entries.Perm ((which, default) :: m.entries) ∧ slot < m'.myArray.numSlots ∧
      m'.myArray.data slot = ⟨Hasher.hash which, which, default⟩ := by
  classical
  obtain ⟨old, new, hrun, hs, hp, hn, hmax, hl⟩ :=
    PairArray.doubleArray_spec h.sound hfits (hfail _) fun i _ _ => hfail _
  have hcount := count_eq h which
  rw [if_neg hk] at hcount
  have hused : new.usedSlots = m.myArray.usedSlots := by
    rw [hs.used, hp.length_eq, h.sound.used]
  have hlt : new.usedSlots < new.maxSlots := by
    have h1 := h.le_max
    have h2 := fill_lt_double h.sound.two_le
    rw [h.max] at h1
    omega
  have hgood : (⟨new⟩ : PDBMap K V).Good :=
    ⟨hs, by show new.maxSlots = _; rw [hmax, hn], Nat.le_of_lt hlt⟩
  have hk' : ¬ new.Has which := fun hh =>
    hk (PairArray.has_iff.mpr ((PairArray.has_iff.mp hh).perm hp))
  obtain ⟨m', slot, hidx, hgood', hp', hslot, hdata, -⟩ := index_new fail hgood hk'
    (by simpa [PairArray.isOverFull] using hlt) (hfail _) (hfail _)
  have hnotfull : ¬ (new.count which = 0 ∧ new.isOverFull = true) := by
    simp [PairArray.isOverFull, hlt]
  rw [index, if_neg hnotfull] at hidx
  refine ⟨m', slot, ?_, hgood', hp'.trans (hp.cons _), hslot, hdata⟩
  rw [index, if_pos ⟨hcount, hfull⟩, hrun]
  exact hidx

theorem setValue_spec {slot : Nat} (h : m.Good) (hs : slot < m.myArray.numSlots)
    (hu : m.myArray.Used slot) (hk : ((m.myArray.data slot).key == which) = true) (v : V) :
    (m.setValue slot v).Good ∧
      (m.setValue slot v).entries = FiniteMap.assign m.entries which v := by
  obtain ⟨hsound, he⟩ := PairArray.setValue_spec h.sound hs hu hk v
  exact ⟨⟨hsound, h.max, h.le_max⟩, he⟩

/-- no key comes twice -/
theorem Good.distinct (h : m.Good) : FiniteMap.Distinct m.entries := by
  refine List.pairwise_filterMap.mpr (List.pairwise_lt_range.imp_of_mem ?_)
  intro i j hi hj hlt e he e' he'
  by_cases hui : m.myArray.Used i
  · by_cases huj : m.myArray.Used j
    · rw [PairArray.entry_of_used hui] at he
      rw [PairArray.entry_of_used huj] at he'
      cases he
      cases he'
      cases hk : (m.myArray.data i).key == (m.myArray.data j).key with
      | false => rfl
      | true =>
        have := h.sound.distinct i (List.mem_range.mp hi) j (List.mem_range.mp hj) hui huj hk
        omega
    · rw [PairArray.entry_eq_none.mpr huj] at he'
      cases he'
  · rw [PairArray.entry_eq_none.mpr hui] at he
    cases he

theorem skipUnused_spec (m : PDBMap K V) {i : Nat} (hi : i ≤ m.myArray.numSlots) :
    (m.skipUnused i).slot ≤ m.myArray.numSlots ∧ i ≤ (m.skipUnused i).slot ∧
      slotsFrom m.myArray.numSlots m.myArray.entry i =
        slotsFrom m.myArray.numSlots m.myArray.entry (m.skipUnused i).slot ∧
      ((m.skipUnused i).slot ≠ m.myArray.numSlots → m.myArray.Used (m.skipUnused i).slot) := by
  have hfree : ∀ i < m.myArray.numSlots,
      ((m.myArray.data i).hash == UNUSED) = true ↔ m.myArray.entry i = none := by
    intro i _
    rw [PairArray.entry_eq_none]
    simp [PairArray.Used]
  obtain ⟨h1, h2, h3, h4⟩ := skipFree_spec hfree (m.myArray.numSlots - i) i (by omega)
  refine ⟨h1, h2, h3, fun hne => ?_⟩
  by_contra hu
  exact h4 hne (PairArray.entry_eq_none.mpr hu)

/-- the rest of a loop, from an iterator at an unused slot or at the end -/
theorem collect_eq (m : PDBMap K V) (n : Nat) : ∀ it : PDBMapIterator,
    it.slot ≤ m.myArray.numSlots → it.done = (it.slot == m.myArray.numSlots) →
    (it.slot ≠ m.myArray.numSlots → m.myArray.Used it.slot) → m.myArray.numSlots - it.slot < n →
    m.collect n it = slotsFrom m.myArray.numSlots m.myArray.entry it.slot := by
  induction n with
  | zero => exact fun it _ _ _ hn => absurd hn (Nat.not_lt_zero _)
  | succ n ih =>
    intro it hle hdone hused hn
    rw [collect]
    by_cases hd : it.slot = m.myArray.numSlots
    · rw [if_pos (by rw [hdone, hd, beq_self_eq_true]), slotsFrom, hd, Nat.sub_self]
      rfl
    · have hfalse : it.done = false := by
        rw [hdone]
        simpa using hd
      obtain ⟨h1, hge, h2, h3⟩ := m.skipUnused_spec (i := it.slot + 1) (by omega)
      have hnext : m.next it = m.skipUnused (it.slot + 1) := by
        unfold next
        rw [hfalse]
        rfl
      rw [hfalse, if_neg (by simp), slotsFrom_step (by omega), PairArray.entry_of_used (hused hd),
        hnext, ih (m.skipUnused (it.slot + 1)) h1 rfl h3 (by omega), h2]
      rfl

/-- **Iteration gives every entry once.** -/
theorem iterate_eq (m : PDBMap K V) : m.iterate = m.entries := by
  obtain ⟨h1, -, h2, h3⟩ := m.skipUnused_spec (Nat.zero_le _)
  rw [iterate, begin, collect_eq m _ _ h1 rfl h3 (by omega), ← h2, slotsFrom_zero]
  rfl

end PDBMap

/-! ## runs -/

/-- a map, the number of its tables so far, and the references that `operator[]` returned: the
number of the table at that time, and the slot -/
structure MapRun (K V : Type*) where
  map : PDBMap K V
  generation : Nat
  refs : List (Nat × Nat)

inductive MapOp (K V : Type*)
  | index (which : K)
  /-- through the reference that the `r`-th call of `operator[]` returned -/
  | write (r : Nat) (v : V)

namespace MapRun
variable {K V : Type*} [BEq K] [Hashable K] [Inhabited K] [Inhabited V]

/-- `operator[]` will replace the table -/
def Doubles (s : MapRun K V) (which : K) : Prop :=
  s.map.myArray.count which = 0 ∧ s.map.myArray.isOverFull = true

instance (s : MapRun K V) (which : K) : Decidable (s.Doubles which) :=
  inferInstanceAs (Decidable (_ ∧ _))

/-- no allocation fails; `none`: a reference to a table that is gone is written through, or the
call is fatal -/
def step (s : MapRun K V) : MapOp K V → Option (MapRun K V)
  | .index which =>
    match s.map.index (fun _ => false) which with
    | .ret m slot =>
      let g := if s.Doubles which then s.generation + 1 else s.generation
      some ⟨m, g, s.refs ++ [(g, slot)]⟩
    | _ => none
  | .write r v =>
    match s.refs[r]? with
    | some (g, slot) => if g = s.generation then some { s with map := s.map.setValue slot v } else none
    | none => none

/-- the condition on an operation -/
def Fine (s : MapRun K V) : MapOp K V → Prop
  | .index which => s.Doubles which →
    PairArray.TableFits s.map.myArray.layout (s.map.myArray.numSlots * 2)
  | .write r _ => ∃ slot, s.refs[r]? = some (s.generation, slot)

end MapRun

/-- a finite map, and the keys that the references are for -/
structure AbstractMap (K V : Type*) where
  entries : List (K × V)
  refs : List K

/-- the meaning of an operation -/
def AbstractMap.step {K V : Type*} [BEq K] [Inhabited V] (a : AbstractMap K V) :
    MapOp K V → AbstractMap K V
  | .index which => ⟨FiniteMap.enter a.entries which default, a.refs ++ [which]⟩
  | .write r v =>
    match a.refs[r]? with
    | some k => { a with entries := FiniteMap.assign a.entries k v }
    | none => a

/-! ## refinement -/

section
variable {K V : Type*} [BEq K] [Hashable K] [Inhabited K] [Inhabited V] [EquivBEq K]
  [LawfulHashable K] {s : MapRun K V} {a : AbstractMap K V}

/-- a reference is for the key, as long as its table is there -/
def MapRun.RefersTo (s : MapRun K V) (r : Nat × Nat) (k : K) : Prop :=
  r.1 ≤ s.generation ∧ (r.1 = s.generation → r.2 < s.map.myArray.numSlots ∧
    s.map.myArray.Used r.2 ∧ ((s.map.myArray.data r.2).key == k) = true)

structure MapRun.Refines (s : MapRun K V) (a : AbstractMap K V) : Prop where
  good : s.map.Good
  entries : s.map.entries.Perm a.entries
  refs : List.Forall₂ s.RefersTo s.refs a.refs

theorem refersTo_getElem? {R : Nat × Nat → K → Prop} {l : List (Nat × Nat)} {ks : List K}
    (h : List.Forall₂ R l ks) : ∀ {i : Nat} {r : Nat × Nat}, l[i]? = some r →
      ∃ k, ks[i]? = some k ∧ R r k := by
  induction h with
  | nil =>
    intro i r hr
    cases hr
  | cons hk _ ih =>
    intro i r hr
    cases i with
    | zero =>
      cases hr
      exact ⟨_, rfl, hk⟩
    | succ i => exact ih hr

theorem MapRun.Refines.has_iff (h : s.Refines a) (k : K) :
    s.map.myArray.Has k ↔ FiniteMap.Has a.entries k :=
  PairArray.has_iff.trans (FiniteMap.has_perm h.entries)

/-- a new key comes in: `u` is the run behind it -/
theorem refines_new {k : K} {m' : PDBMap K V} {g slot : Nat} (h : s.Refines a)
    (hk : ¬ s.map.myArray.Has k) (hg : m'.Good)
    (hp : m'.entries.Perm ((k, default) :: s.map.entries)) (hs : slot < m'.myArray.numSlots)
    (hdata : m'.myArray.data slot = ⟨Hasher.hash k, k, default⟩)
    (hold : ∀ r k', s.RefersTo r k' →
      (⟨m', g, s.refs ++ [(g, slot)]⟩ : MapRun K V).RefersTo r k') :
    (⟨m', g, s.refs ++ [(g, slot)]⟩ : MapRun K V).Refines (a.step (.index k)) := by
  refine ⟨hg, ?_, ?_⟩
  · show m'.entries.Perm (FiniteMap.enter a.entries k default)
    rw [FiniteMap.enter, if_neg fun hh => hk ((h.has_iff k).mpr hh)]
    exact (hp.trans (h.entries.cons _)).trans (List.perm_append_singleton _ _).symm
  · have hused : m'.myArray.Used slot := by
      rw [PairArray.Used, hdata]
      exact PairArray.Hasher_hash_ne k
    have hnew : (⟨m', g, s.refs ++ [(g, slot)]⟩ : MapRun K V).RefersTo (g, slot) k := by
      refine ⟨Nat.le_refl _, fun _ => ⟨hs, hused, ?_⟩⟩
      show ((m'.myArray.data slot).key == k) = true
      rw [hdata]
      exact BEq.rfl
    exact List.rel_append (h.refs.imp hold) (.cons hnew .nil)

/-- **One operation.** -/
theorem step_refines {op : MapOp K V} (h : s.Refines a) (hf : s.Fine op) :
    ∃ u, s.step op = some u ∧ u.Refines (a.step op) := by
  classical
  cases op with
  | index which =>
    have hcount := PDBMap.count_eq h.good which
    by_cases hk : s.map.myArray.Has which
    · rw [if_pos hk] at hcount
      obtain ⟨slot, hidx, hs, hu, he⟩ := PDBMap.index_hit (fun _ => false) h.good hk
      have hno : ¬ s.Doubles which := fun hd => by
        rw [hd.1] at hcount
        cases hcount
      refine ⟨⟨s.map, s.generation, s.refs ++ [(s.generation, slot)]⟩, ?_, h.good, ?_, ?_⟩
      · simp only [MapRun.step, hidx, if_neg hno]
      · show s.map.entries.Perm (FiniteMap.enter a.entries which default)
        rw [FiniteMap.enter, if_pos ((h.has_iff which).mp hk)]
        exact h.entries
      · exact List.rel_append h.refs (.cons ⟨Nat.le_refl _, fun _ => ⟨hs, hu, he⟩⟩ .nil)
    · rw [if_neg hk] at hcount
      by_cases hfull : s.map.myArray.isOverFull = true
      · obtain ⟨m', slot, hidx, hg, hp, hs, hdata⟩ := PDBMap.index_double (fun _ => false)
          h.good hk hfull (hf ⟨hcount, hfull⟩) fun _ => rfl
        have hd : s.Doubles which := ⟨hcount, hfull⟩
        refine ⟨⟨m', s.generation + 1, s.refs ++ [(s.generation + 1, slot)]⟩, ?_,
          refines_new h hk hg hp hs hdata fun r k hr => ?_⟩
        · simp only [MapRun.step, hidx, if_pos hd]
        · refine ⟨Nat.le_succ_of_le hr.1, fun e => ?_⟩
          have h1 := hr.1
          have h2 : r.1 = s.generation + 1 := e
          omega
      · have hfull' : s.map.myArray.isOverFull = false := by simpa using hfull
        have hno : ¬ s.Doubles which := fun hd => hfull hd.2
        obtain ⟨m', slot, hidx, hg, hp, hs, hdata, hn, hkeep⟩ := PDBMap.index_new
          (fun _ => false) h.good hk hfull' rfl rfl
        refine ⟨⟨m', s.generation, s.refs ++ [(s.generation, slot)]⟩, ?_,
          refines_new h hk hg hp hs hdata fun r k hr => ⟨hr.1, fun e => ?_⟩⟩
        · simp only [MapRun.step, hidx, if_neg hno]
        · obtain ⟨h1, h2, h3⟩ := hr.2 e
          have hr2 := hkeep r.2 h2
          refine ⟨?_, ?_, ?_⟩
          · show r.2 < m'.myArray.numSlots
            rw [hn]
            exact h1
          · show (m'.myArray.data r.2).hash ≠ UNUSED
            rw [hr2]
            exact h2
          · show ((m'.myArray.data r.2).key == k) = true
            rw [hr2]
            exact h3
  | write r v =>
    obtain ⟨slot, hr⟩ := hf
    obtain ⟨k, hk, -, href⟩ := refersTo_getElem? h.refs hr
    obtain ⟨hs, hu, he⟩ := href rfl
    obtain ⟨hg, hentries⟩ := PDBMap.setValue_spec h.good hs hu he v
    have habs : a.step (.write r v) = { a with entries := FiniteMap.assign a.entries k v } := by
      simp only [AbstractMap.step, hk]
    refine ⟨{ s with map := s.map.setValue slot v }, ?_, hg, ?_, ?_⟩
    · simp only [MapRun.step, hr, if_true]
    · rw [habs, hentries]
      exact FiniteMap.assign_perm h.entries k v
    · rw [habs]
      refine h.refs.imp fun r' k' hr' => ⟨hr'.1, fun e => ?_⟩
      obtain ⟨h1, h2, h3⟩ := hr'.2 e
      obtain ⟨e1, e2⟩ := PairArray.setValue_same s.map.myArray slot v r'.2
      refine ⟨h1, ?_, ?_⟩
      · show ((s.map.myArray.setValue slot v).data r'.2).hash ≠ UNUSED
        rw [e1]
        exact h2
      · show (((s.map.myArray.setValue slot v).data r'.2).key == k') = true
        rw [e2]
        exact h3

/-! ## the map is a finite map -/

/-- what the operations that read a map return -/
structure MapRun.Correct (s : MapRun K V) (a : AbstractMap K V) : Prop where
  distinct : FiniteMap.Distinct a.entries
  count : ∀ k, s.map.count k = if FiniteMap.Has a.entries k then 1 else 0
  size : s.map.size = a.entries.length
  iterate : s.map.iterate.Perm a.entries
  /-- `operator[]` of a key that is there -/
  index : ∀ e ∈ a.entries, ∀ k, (e.1 == k) = true →
    ∃ slot, s.map.index (fun _ => false) k = .ret s.map slot ∧
      (s.map.myArray.data slot).value = e.2

theorem MapRun.Refines.correct (h : s.Refines a) : s.Correct a := by
  classical
  refine ⟨h.good.distinct.perm h.entries, fun k => ?_, ?_, ?_, fun e he k hk => ?_⟩
  · show s.map.myArray.count k = _
    rw [PDBMap.count_eq h.good k]
    exact if_congr (h.has_iff k) rfl rfl
  · rw [← h.entries.length_eq]
    exact h.good.sound.used
  · rw [PDBMap.iterate_eq]
    exact h.entries
  · have hhas : s.map.myArray.Has k := (h.has_iff k).mpr ⟨e, he, hk⟩
    obtain ⟨slot, hidx, hs, hu, hkey⟩ := PDBMap.index_hit (fun _ => false) h.good hhas
    have hmem : ((s.map.myArray.data slot).key, (s.map.myArray.data slot).value) ∈ a.entries :=
      h.entries.mem_iff.mp (PairArray.mem_entries.mpr ⟨slot, hs, hu, rfl⟩)
    have := (h.good.distinct.perm h.entries).eq_of_mem hmem he (BEq.trans hkey (BEq.symm hk))
    exact ⟨slot, hidx, congrArg Prod.snd this⟩

/-- the map and its meaning, side by side -/
def mapStep (x : MapRun K V × AbstractMap K V) (op : MapOp K V) :
    Option (MapRun K V × AbstractMap K V) :=
  (x.1.step op).map fun u => (u, x.2.step op)

/-- **`Map` is a finite map.** -/
theorem mapCorrect_of_reach {l : ArrayLayout} {initSize : Nat} (h2 : 2 ≤ initSize)
    (hf : PairArray.TableFits l initSize) :
    ∃ m : PDBMap K V, PDBMap.create l initSize = some m ∧ ∀ s a,
      Reach mapStep (fun x op => x.1.Fine op) (⟨m, 0, []⟩, ⟨[], []⟩) (s, a) →
      s.Correct a ∧ ∀ op, s.Fine op → ∃ u, s.step op = some u := by
  obtain ⟨m, hm, hg, he⟩ := PDBMap.create_spec (K := K) (V := V) h2 hf
  refine ⟨m, hm, fun s a hr => ?_⟩
  have hinit : (⟨m, 0, []⟩ : MapRun K V).Refines ⟨[], []⟩ := ⟨hg, by rw [he], .nil⟩
  have href : s.Refines a := hr.inv (P := fun x => x.1.Refines x.2) hinit fun x op y hx hfine hy => by
    obtain ⟨u, hu, hru⟩ := step_refines hx hfine
    simp only [mapStep, hu, Option.map_some, Option.some.injEq] at hy
    subst hy
    exact hru
  refine ⟨href.correct, fun op hfine => ?_⟩
  obtain ⟨u, hu, -⟩ := step_refines href hfine
  exact ⟨u, hu⟩

end

theorem fine_write_iff {K V : Type*} [BEq K] [Hashable K] (s : MapRun K V) (r : Nat) (v : V) :
    (s.refs[r]?.any fun x => x.1 == s.generation) = true ↔ s.Fine (.write r v) := by
  cases h : s.refs[r]? with
  | none => simp [MapRun.Fine, h]
  | some x =>
    obtain ⟨g, slot⟩ := x
    simp [MapRun.Fine, h]

instance {K V : Type*} [BEq K] [Hashable K] (s : MapRun K V) (op : MapOp K V) :
    Decidable (s.Fine op) :=
  match op with
  | .index which => inferInstanceAs (Decidable (s.Doubles which → _))
  | .write r v => decidable_of_iff _ (fine_write_iff s r v)

/-- two keys whose hashes are identified, and a third one that makes the table grow -/
theorem mapCorrect_reserved : ∃ s : MapRun UInt64 Nat,
    s.map.iterate.Perm [(493295393, 1), (858931273, 3), (7, 4)] ∧ s.map.size = 3 ∧
      s.map.count 858931273 = 1 ∧ s.map.count 8 = 0 := by
  obtain ⟨m, hm, hreach⟩ := mapCorrect_of_reach (K := UInt64) (V := Nat) (l := ⟨24, 64, 8, by decide⟩)
    (Nat.le_refl 2) (by decide)
  have hrun : ((PDBMap.create (K := UInt64) (V := Nat) ⟨24, 64, 8, by decide⟩ 2).bind fun m =>
      run (guarded mapStep fun x op => x.1.Fine op) (⟨m, 0, []⟩, ⟨[], []⟩)
        [.index 493295393, .write 0 1, .index 858931273, .write 1 2, .index 7, .write 2 4,
          .index 858931273, .write 3 3]).map (fun x => x.2.entries) =
      some [(493295393, 1), (858931273, 3), (7, 4)] := by
    decide
  rw [hm, Option.bind_some] at hrun
  obtain ⟨⟨s, a⟩, hsa, he⟩ := Option.map_eq_some_iff.mp hrun
  have he' : a.entries = [(493295393, 1), (858931273, 3), (7, 4)] := he
  obtain ⟨hc, -⟩ := hreach s a (Reach.of_run _ hsa)
  refine ⟨s, he' ▸ hc.iterate, ?_, ?_, ?_⟩
  · rw [hc.size, he']
    rfl
  · rw [hc.count, he']
    decide
  · rw [hc.count, he']
    decide

/-- the request for 2^28 slots of 16 bytes is a multiple of 2^32 bytes but for the header: the
allocator gives a chunk of 72 bytes, and the constructor writes outside of it -/
theorem mapCorrect_not_always :
    ¬ ∀ (l : ArrayLayout) (initSize : Nat), 2 ≤ initSize → initSize < 2^32 →
      ∃ m : PDBMap UInt64 Nat, PDBMap.create l initSize = some m ∧ ∀ s a,
        Reach mapStep (fun x op => ∃ u, x.1.step op = some u) (⟨m, 0, []⟩, ⟨[], []⟩) (s, a) →
        s.Correct a := by
  intro h
  obtain ⟨m, hm, -⟩ := h ⟨16, 60, 8, by decide⟩ (2^28) (by decide) (by decide)
  have hnone : PDBMap.create (K := UInt64) (V := Nat) ⟨16, 60, 8, by decide⟩ (2^28) = none := by
    rfl
  rw [hnone] at hm
  cases hm

example : bytesNeeded ((⟨16, 60, 8, by decide⟩ : ArrayLayout).request (16 * 2^28)) = 72 := by decide

end Netsdb
