import Netsdb.BuiltIn.JoinCopy
import Netsdb.BuiltIn.MapRetry
import Netsdb.BuiltIn.TableGrowth
import Netsdb.Lib.LoadFactor

/-!
# The searches end (`PairArray.cc`, `JoinPairArray.cc`)

`setUnused` does not count back, and a table is doubled when two thirds of its slots are counted.

* `PairArray.Moves`, `JoinPairArray.Copies`   the tables that the loops of `doubleArray` fill;
* `PDBMap.Reached`, `JoinMap.Reached`         the maps that the operations make;
* `PairArray.Ends`, `JoinPairArray.Ends`      a slot is unused, and so each search ends;
* `probes_end`                                this holds of all these tables.
-/

set_option linter.unusedSectionVars false

namespace Netsdb

theorem fillFactor : Load.FillFactor PairArray.fill where
  lt h := by
    unfold PairArray.fill
    omega
  lt_double h := by
    unfold PairArray.fill
    omega

/-- the slots of a table that is in its storage, with a hash of eight bytes in each -/
theorem slots_lt {l : ArrayLayout} {extra n : ℕ} (h8 : 8 ≤ l.objSize)
    (h : ¬ (2^31 < n ∨ l.storage extra < l.objSize * n)) : n < 2^29 := by
  have hbytes : bytesNeeded (l.request extra) < 2^32 := by
    unfold bytesNeeded u32
    dsimp only
    split <;> exact Nat.mod_lt _ (by decide)
  have hmul := Nat.mul_le_mul_right n h8
  have hle : l.objSize * n ≤ l.storage extra := Nat.le_of_not_lt fun hlt => h (.inr hlt)
  unfold ArrayLayout.storage at hle
  omega

/-! ## `Map` -/

namespace PairArray
section
variable {K V : Type*} [BEq K] [Hashable K] {a a' b old new new' : PairArray K V} {fail : MapSite → Bool}
  {k : K} {slot i : ℕ} {is : List ℕ}

def load (a : PairArray K V) : Load :=
  ⟨a.numSlots, a.usedSlots, a.maxSlots, occupied a.Used a.numSlots⟩

/-- a slot is unused, and a search ends at one, or at the key -/
structure Ends (a : PairArray K V) : Prop where
  unused : ∃ slot < a.numSlots, ¬ a.Used slot
  findSlot : ∀ k, ∃ slot < a.numSlots, a.findSlot k = some slot ∧
    (¬ a.Used slot ∨ (a.data slot).hash = Hasher.hash k ∧ ((a.data slot).key == k) = true)

theorem ends (h : a.load.Ok fill) : a.Ends := by
  obtain ⟨free, hlt, hfree⟩ := exists_unused (h.room fillFactor)
  refine ⟨⟨free, hlt, hfree⟩, fun k => ?_⟩
  have h2 : 2 ≤ a.numSlots := h.two_le
  have hstart : Hasher.hash k % (a.numSlots - 1) < a.numSlots := by
    have := Nat.mod_lt (Hasher.hash k) (show 0 < a.numSlots - 1 by omega)
    omega
  have hstop : a.stops k free = true := by
    rw [stops, show ((a.data free).hash == UNUSED) = true from beq_iff_eq.mpr (not_not.mp hfree)]
    rfl
  obtain ⟨slot, hslot, hprobe, hstops⟩ := probe_ends hstart ⟨free, hlt, hstop⟩
  refine ⟨slot, hslot, hprobe, ?_⟩
  by_cases hu : a.Used slot
  · rw [stops, show ((a.data slot).hash == UNUSED) = false from beq_eq_false_iff_ne.mpr hu,
      Bool.false_or, Bool.and_eq_true, beq_iff_eq] at hstops
    exact .inr hstops
  · exact .inl hu

/-- a record that is written where one is, or is made unused -/
theorem lighter_setRecord {r : MapRecordClass K V} (h : r.hash ≠ UNUSED → a.Used slot) :
    a.load.Lighter (a.setRecord slot r).load := by
  refine ⟨rfl, rfl, rfl, occupied_le fun x _ hx => ?_⟩
  by_cases e : x = slot
  · subst e
    refine h fun hr => hx ?_
    show (Function.update a.data x r x).hash = UNUSED
    rw [Function.update_self, hr]
  · have hx : (Function.update a.data slot r x).hash ≠ UNUSED := hx
    rw [Function.update_of_ne e] at hx
    exact hx

theorem lighter_setValue (a : PairArray K V) (slot : ℕ) (v : V) : a.load.Lighter (a.setValue slot v).load :=
  lighter_setRecord fun h => h

theorem entered_addRecord {r : MapRecordClass K V} (hlt : a.usedSlots + 1 < 2^32) :
    a.load.Entered (a.addRecord slot r).load := by
  refine ⟨rfl, Nat.mod_eq_of_lt hlt, rfl, occupied_enter (j := slot) fun x hx hu => ?_⟩
  have hu : (Function.update a.data slot r x).hash ≠ UNUSED := hu
  rw [Function.update_of_ne hx] at hu
  exact hu

theorem index_ret [Inhabited V] (h : a.index fail k = .ret a' slot) :
    a' = a ∨ a.count k = 0 ∧ ∃ r, a' = a.addRecord slot r := by
  unfold index at h
  split at h
  · next x hfind =>
    split at h
    · next hun =>
      split at h
      · cases h
      · cases h
        refine .inr ⟨?_, _, rfl⟩
        rw [count, hfind]
        exact if_pos hun
    · cases h
      exact .inl rfl
  · cases h

theorem index_notEnoughSpace [Inhabited V] (h : a.index fail k = .notEnoughSpace a') : a' = a := by
  unfold index at h
  split at h
  · split at h
    · split at h
      · cases h
        rfl
      · cases h
    · cases h
  · cases h

theorem lighter_setUnused (a : PairArray K V) (k : K) : a.load.Lighter (a.setUnused k).load := by
  have hsame : a.load.Lighter a.load := .refl _
  unfold setUnused
  split
  · split
    · exact hsame
    · exact lighter_setRecord fun h => absurd rfl h
  · exact hsame

/-- a table that is in its storage, so that `doubleArray` can count its slots in 32 bits -/
structure Kept (a : PairArray K V) : Prop where
  load : a.load.Ok fill
  hash : 8 ≤ a.layout.objSize
  slots : a.numSlots < 2^29

theorem Kept.lighter (h : a.Kept) (hl : a.load.Lighter a'.load) (hlayout : a'.layout = a.layout) : a'.Kept :=
  ⟨h.load.lighter hl, hlayout ▸ h.hash, (show a'.numSlots = a.numSlots from hl.slots) ▸ h.slots⟩

theorem create_kept [Inhabited K] [Inhabited V] {l : ArrayLayout} {extra n : ℕ} (h8 : 8 ≤ l.objSize)
    (h2 : 2 ≤ n) (h : create l extra n = some a) : a.Kept := by
  unfold create at h
  split at h
  · cases h
  · next hfits =>
    cases h
    exact ⟨Load.ok_new h2 rfl rfl (occupied_of_unused fun _ _ hu => hu rfl), h8, slots_lt h8 hfits⟩

theorem Kept.limit_lt (h : a.Kept) : a.maxSlots < 2^29 := by
  have hlt : fill a.numSlots < a.numSlots := fillFactor.lt h.load.two_le
  have hlimit : a.maxSlots = fill a.numSlots := h.load.limit
  have hslots := h.slots
  omega

/-- the key is there, or the table is not full -/
theorem Kept.index [Inhabited V] (h : a.Kept) (hroom : a.count k = 0 → a.usedSlots < a.maxSlots)
    (hret : a.index fail k = .ret a' slot) : a'.Kept := by
  rcases index_ret hret with rfl | ⟨hcount, r, rfl⟩
  · exact h
  · have hlt := hroom hcount
    have hlimit := h.limit_lt
    exact ⟨h.load.enter hlt (entered_addRecord (by omega)), h.hash, h.slots⟩

section
variable [Inhabited K] [Inhabited V]

/-- the loop of `doubleArray` before the slots in the list -/
inductive Moves (a : PairArray K V) : List ℕ → PairArray K V → PairArray K V → Prop
  | start {new : PairArray K V} : create a.layout (u32 (a.layout.objSize * u32 (a.numSlots * 2)))
      (u32 (a.numSlots * 2)) = some new → Moves a (List.range a.numSlots) a new
  | skip {i : ℕ} {is : List ℕ} {old new : PairArray K V} : Moves a (i :: is) old new → ¬ old.Used i →
      Moves a is old new
  | move {i slot : ℕ} {is : List ℕ} {old new new' : PairArray K V} : Moves a (i :: is) old new → old.Used i →
      new.index (fun _ => false) (old.data i).key = .ret new' slot →
      Moves a is (old.setRecord i { old.data i with hash := UNUSED })
        (new'.setValue slot (old.data i).value)

theorem moves_of_ret : ∀ {is : List ℕ} {old new : PairArray K V}, Moves a is old new →
    moveSlots fail is old new = .ret b new' → Moves a [] b new' := by
  intro is
  induction is with
  | nil =>
    intro old new h hret
    cases hret
    exact h
  | cons i is ih =>
    intro old new h hret
    rw [moveSlots] at hret
    split at hret
    · next hun => exact ih (h.skip fun hu => hu hun) hret
    · next hu =>
      split at hret
      · cases hret
      · split at hret
        · next new₁ slot hindex => exact ih (h.move hu hindex) hret
        · cases hret
        · cases hret

/-- where the loop throws -/
theorem moves_of_notEnoughSpace : ∀ {is : List ℕ} {old new : PairArray K V}, Moves a is old new →
    moveSlots fail is old new = .notEnoughSpace b → ∃ is' new', Moves a is' b new' := by
  intro is
  induction is with
  | nil =>
    intro old new h hthrow
    cases hthrow
  | cons i is ih =>
    intro old new h hthrow
    rw [moveSlots] at hthrow
    split at hthrow
    · next hun => exact ih (h.skip fun hu => hu hun) hthrow
    · next hu =>
      split at hthrow
      · cases hthrow
        exact ⟨_, _, h⟩
      · split at hthrow
        · next new₁ slot hindex => exact ih (h.move hu hindex) hthrow
        · cases hthrow
          exact ⟨_, _, h⟩
        · cases hthrow

theorem doubleArray_ret (h : a.doubleArray fail = .ret b new) : Moves a [] b new := by
  unfold doubleArray at h
  dsimp only at h
  split at h
  · cases h
  · split at h
    · next new₁ hcreate => exact moves_of_ret (.start hcreate) h
    · cases h

theorem doubleArray_notEnoughSpace (h : a.doubleArray fail = .notEnoughSpace b) :
    b = a ∨ ∃ is new, Moves a is b new := by
  unfold doubleArray at h
  dsimp only at h
  split at h
  · cases h
    exact .inl rfl
  · split at h
    · next new₁ hcreate => exact .inr (moves_of_notEnoughSpace (.start hcreate) h)
    · cases h

/-- the new table has room for the entries that are left -/
structure Moving (a : PairArray K V) (is : List ℕ) (old new : PairArray K V) : Prop where
  filling : Load.Filling fill a.load new.load (is.countP (old.Used ·))
  lighter : a.load.Lighter old.load
  oldLayout : old.layout = a.layout
  newLayout : new.layout = a.layout
  slots : new.numSlots < 2^29

theorem Moves.moving (ha : a.Kept) (h : Moves a is old new) : Moving a is old new := by
  induction h with
  | @start new hcreate =>
    have hslots := ha.slots
    have hmany : u32 (a.numSlots * 2) = a.numSlots * 2 := Nat.mod_eq_of_lt (by omega)
    rw [hmany] at hcreate
    unfold create at hcreate
    split at hcreate
    · cases hcreate
    · next hfits =>
      cases hcreate
      have hfilling : Load.Filling fill a.load ((⟨a.layout, 0, a.numSlots * 2, fill (a.numSlots * 2),
          fun _ => ⟨UNUSED, default, default⟩⟩ : PairArray K V)).load
          ((List.range a.numSlots).countP (a.Used ·)) := by
        refine ⟨rfl, rfl, (occupied_of_unused fun _ _ hu => hu rfl).le, ?_⟩
        show 0 + occupied a.Used a.numSlots ≤ a.usedSlots
        rw [Nat.zero_add]
        exact ha.load.used
      exact ⟨hfilling, .refl _, rfl, rfl, slots_lt ha.hash hfits⟩
  | @skip i is old new _ _ ih =>
    exact ⟨ih.filling.lighter (.refl _) (List.sublist_cons_self i is).countP_le, ih.lighter,
      ih.oldLayout, ih.newLayout, ih.slots⟩
  | @move i slot is old new new' _ hu hindex ih =>
    obtain ⟨hfilling, hold, hol, hnl, hslots⟩ := ih
    have hlighter : old.load.Lighter (old.setRecord i { old.data i with hash := UNUSED }).load :=
      lighter_setRecord fun h => absurd rfl h
    have hleft : is.countP ((old.setRecord i { old.data i with hash := UNUSED }).Used ·) + 1 ≤
        (i :: is).countP (old.Used ·) := by
      rw [List.countP_cons, if_pos (decide_eq_true hu)]
      refine Nat.succ_le_succ (List.countP_mono_left fun x _ hx => decide_eq_true ?_)
      have hx : (Function.update old.data i { old.data i with hash := UNUSED } x).hash ≠ UNUSED :=
        of_decide_eq_true hx
      by_cases e : x = i
      · rw [e, Function.update_self] at hx
        exact absurd rfl hx
      · rw [Function.update_of_ne e] at hx
        exact hx
    have hvalue := lighter_setValue new' slot (old.data i).value
    rcases index_ret hindex with rfl | ⟨-, r, rfl⟩
    · exact ⟨hfilling.lighter hvalue (Nat.le_of_succ_le hleft), hold.trans hlighter, hol, hnl, hslots⟩
    · have hcounted : new.usedSlots + 1 < 2^32 := by
        have h1 : new.usedSlots + _ ≤ a.usedSlots := hfilling.left
        have h2 : a.usedSlots ≤ a.maxSlots := ha.load.counted
        have h3 := ha.limit_lt
        omega
      exact ⟨(hfilling.enter (entered_addRecord hcounted) hleft).lighter hvalue (Nat.le_refl _),
        hold.trans hlighter, hol, hnl, hslots⟩

/-- each table of the loop can be searched -/
theorem Moving.kept (ha : a.Kept) (h : Moving a is old new) : new.Kept ∧ old.Kept :=
  ⟨⟨h.filling.ok fillFactor ha.load, h.newLayout ▸ ha.hash, h.slots⟩, ha.lighter h.lighter h.oldLayout⟩

end

/-! ### copies -/

section
variable {ck : Constituent K} {cv : Constituent V} {f : CopyFail} {t t' : PairTarget K V} {next next' : ℕ}

theorem hash_writeHash (t : PairTarget K V) (i hash x : ℕ) :
    ((t.writeHash i hash).data x).hash = if x = i then hash else (t.data x).hash := by
  show (Function.update t.data i _ x).hash = _
  rw [Function.update_apply]
  split <;> rfl

theorem hash_writeKey (t : PairTarget K V) (i : ℕ) (k : K) (x : ℕ) :
    ((t.writeKey i k).data x).hash = (t.data x).hash := by
  show (Function.update t.data i _ x).hash = _
  rw [Function.update_apply]
  split
  · next h => rw [h]
  · rfl

theorem hash_writeValue (t : PairTarget K V) (i : ℕ) (v : V) (x : ℕ) :
    ((t.writeValue i v).data x).hash = (t.data x).hash := by
  show (Function.update t.data i _ x).hash = _
  rw [Function.update_apply]
  split
  · next h => rw [h]
  · rfl

theorem copyKey_hash (h : copyKey ck f a i t next = .ret t' next') (x : ℕ) :
    (t'.data x).hash = (t.data x).hash := by
  unfold copyKey at h
  split at h
  · cases h
    exact hash_writeKey _ _ _ _
  · split at h <;> cases h
    exact hash_writeKey _ _ _ _

theorem copyValue_hash (h : copyValue cv f a i t next = .ret t' next') (x : ℕ) :
    (t'.data x).hash = (t.data x).hash := by
  unfold copyValue at h
  split at h
  · cases h
    exact hash_writeValue _ _ _ _
  · split at h <;> cases h
    exact hash_writeValue _ _ _ _

theorem copySlot_hash (h : copySlot ck cv f a i t next = .ret t' next') (x : ℕ) :
    (t'.data x).hash = if x = i then (a.data x).hash else (t.data x).hash := by
  have hwrite : ((t.writeHash i (a.data i).hash).data x).hash =
      if x = i then (a.data x).hash else (t.data x).hash := by
    rw [hash_writeHash]
    split
    · next e => rw [e]
    · rfl
  rw [← hwrite]
  unfold copySlot at h
  dsimp only at h
  split at h
  · cases h
    rfl
  · split at h
    · cases h
    · next t₁ next₁ hkey =>
      split at h
      · cases h
      · next t₂ next₂ hvalue =>
        cases h
        exact (copyValue_hash hvalue x).trans (copyKey_hash hkey x)

theorem copySlots_hash (is : List ℕ) : ∀ {t : PairTarget K V} {next : ℕ},
    copySlots ck cv f a is t next = .ret t' next' →
    ∀ x, (t'.data x).hash = if x ∈ is then (a.data x).hash else (t.data x).hash := by
  induction is with
  | nil =>
    intro t next h x
    cases h
    rfl
  | cons i is ih =>
    intro t next h x
    rw [copySlots] at h
    split at h
    · next t₁ next₁ hslot =>
      rw [ih h x, copySlot_hash hslot x]
      by_cases hx : x ∈ is
      · rw [if_pos hx, if_pos (List.mem_cons_of_mem i hx)]
      · rw [if_neg hx]
        by_cases e : x = i
        · rw [if_pos e, if_pos (e ▸ List.mem_cons_self)]
        · rw [if_neg e, if_neg (fun hmem => (List.mem_cons.mp hmem).elim e hx)]
    · cases h

/-- the hashes are those of the table -/
theorem lighter_copied (h : setUpAndCopyFrom ck cv f a t next = .ret t' next') :
    a.load.Lighter (a.copied t').load := by
  have hhash : ∀ x < a.numSlots, (t'.data x).hash = (a.data x).hash := by
    intro x hx
    unfold setUpAndCopyFrom at h
    dsimp only at h
    split at h
    · cases h
      dsimp only
      rw [if_pos hx]
    · rw [copySlots_hash _ h x, if_pos (List.mem_range.mpr hx)]
  refine ⟨rfl, rfl, rfl, occupied_le fun x hx hu => ?_⟩
  have hu : (t'.data x).hash ≠ UNUSED := hu
  rw [hhash x hx] at hu
  exact hu

end
end
end PairArray

namespace PDBMap
section
variable {K V : Type*} [BEq K] [Hashable K] [Inhabited K] [Inhabited V] {m m' : PDBMap K V}
  {fail : MapSite → Bool} {k : K} {slot : ℕ}

/-- the maps that the operations make, out of records with a hash of eight bytes -/
inductive Reached : PDBMap K V → Prop
  | create {l : ArrayLayout} {initSize : ℕ} {m : PDBMap K V} : 8 ≤ l.objSize →
      create l initSize = some m → Reached m
  | index {m m' : PDBMap K V} {f : MapSite → Bool} {k : K} {slot : ℕ} : Reached m →
      m.index f k = .ret m' slot → Reached m'
  | throws {m m' : PDBMap K V} {f : MapSite → Bool} {k : K} : Reached m →
      m.index f k = .notEnoughSpace m' → Reached m'
  | setUnused {m : PDBMap K V} (k : K) : Reached m → Reached (m.setUnused k)
  /-- through a reference -/
  | write {m : PDBMap K V} (slot : ℕ) (v : V) : Reached m → Reached (m.setValue slot v)
  | copy {m : PDBMap K V} {ck : Constituent K} {cv : Constituent V} {f : PairArray.CopyFail}
      {t t' : PairTarget K V} {next next' : ℕ} : Reached m →
      PairArray.setUpAndCopyFrom ck cv f m.myArray t next = .ret t' next' → Reached ⟨m.myArray.copied t'⟩

theorem kept_lift {a : PairArray K V} (ha : a.Kept) (hroom : a.count k = 0 → a.usedSlots < a.maxSlots)
    (hret : (a.index fail k).lift PDBMap.mk = .ret m' slot) : m'.myArray.Kept := by
  cases hindex : a.index fail k with
  | ret b x =>
    rw [hindex] at hret
    cases hret
    exact ha.index hroom hindex
  | notEnoughSpace b =>
    rw [hindex] at hret
    cases hret
  | fatal =>
    rw [hindex] at hret
    cases hret

theorem kept_lift_throws {a : PairArray K V} (ha : a.Kept)
    (hthrow : (a.index fail k).lift PDBMap.mk = .notEnoughSpace m') : m'.myArray.Kept := by
  cases hindex : a.index fail k with
  | ret b x =>
    rw [hindex] at hthrow
    cases hthrow
  | notEnoughSpace b =>
    rw [hindex] at hthrow
    cases hthrow
    exact PairArray.index_notEnoughSpace hindex ▸ ha
  | fatal =>
    rw [hindex] at hthrow
    cases hthrow

theorem index_kept (h : m.myArray.Kept) (hret : m.index fail k = .ret m' slot) : m'.myArray.Kept := by
  unfold index at hret
  split at hret
  · split at hret
    · next old temp hdouble =>
      have hmoving := (PairArray.doubleArray_ret hdouble).moving h
      exact kept_lift (hmoving.kept h).1 (fun _ => hmoving.filling.lt_limit fillFactor h.load) hret
    · cases hret
    · cases hret
  · next hnot =>
    refine kept_lift h (fun hcount => ?_) hret
    have hfull : ¬ m.myArray.isOverFull = true := fun hf => hnot ⟨hcount, hf⟩
    rw [PairArray.isOverFull, decide_eq_true_eq] at hfull
    exact Nat.lt_of_not_le hfull

theorem throws_kept (h : m.myArray.Kept) (hthrow : m.index fail k = .notEnoughSpace m') :
    m'.myArray.Kept := by
  unfold index at hthrow
  split at hthrow
  · split at hthrow
    · next old temp hdouble =>
      exact kept_lift_throws (((PairArray.doubleArray_ret hdouble).moving h).kept h).1 hthrow
    · next old hdouble =>
      cases hthrow
      rcases PairArray.doubleArray_notEnoughSpace hdouble with rfl | ⟨is, new, hmoves⟩
      · exact h
      · exact ((hmoves.moving h).kept h).2
    · cases hthrow
  · exact kept_lift_throws h hthrow

theorem Reached.kept (h : Reached m) : m.myArray.Kept := by
  induction h with
  | @create l initSize m h8 hm =>
    unfold PDBMap.create at hm
    obtain ⟨a, ha, rfl⟩ := Option.map_eq_some_iff.mp hm
    refine PairArray.create_kept h8 ?_ ha
    split <;> omega
  | index _ hret ih => exact index_kept ih hret
  | throws _ hthrow ih => exact throws_kept ih hthrow
  | @setUnused m k _ ih =>
    refine ih.lighter (PairArray.lighter_setUnused m.myArray k) ?_
    show (m.myArray.setUnused k).layout = m.myArray.layout
    unfold PairArray.setUnused
    split
    · split <;> rfl
    · rfl
  | write slot v _ ih => exact ih.lighter (PairArray.lighter_setValue _ slot v) rfl
  | copy _ hcopy ih => exact ih.lighter (PairArray.lighter_copied hcopy) rfl

end
end PDBMap

/-! ## `JoinMap` -/

namespace JoinPairArray
section
variable {V : Type*} {a a' b new new' : JoinPairArray V} {fail : JoinSite → Bool} {hv me slot i : ℕ}
  {is : List ℕ}

def load (a : JoinPairArray V) : Load :=
  ⟨a.numSlots, a.usedSlots, a.maxSlots, occupied a.Used a.numSlots⟩

/-- a slot is unused, and a search ends at one, or at the hash -/
structure Ends (a : JoinPairArray V) : Prop where
  unused : ∃ slot < a.numSlots, ¬ a.Used slot
  findSlot : ∀ hv, ∃ slot < a.numSlots, a.findSlot hv = some slot ∧
    (¬ a.Used slot ∨ (a.data slot).hash = hv)

theorem ends (h : a.load.Ok PairArray.fill) : a.Ends := by
  obtain ⟨free, hlt, hfree⟩ := exists_unused (h.room fillFactor)
  refine ⟨⟨free, hlt, hfree⟩, fun hv => ?_⟩
  have h2 : 2 ≤ a.numSlots := h.two_le
  have hstart : hv % (a.numSlots - 1) < a.numSlots := by
    have := Nat.mod_lt hv (show 0 < a.numSlots - 1 by omega)
    omega
  have hstop : a.stops hv free = true := by
    rw [stops, show ((a.data free).hash == JM_UNUSED) = true from beq_iff_eq.mpr (not_not.mp hfree)]
    rfl
  obtain ⟨slot, hslot, hprobe, hstops⟩ := probe_ends hstart ⟨free, hlt, hstop⟩
  refine ⟨slot, hslot, hprobe, ?_⟩
  by_cases hu : a.Used slot
  · rw [stops, show ((a.data slot).hash == JM_UNUSED) = false from beq_eq_false_iff_ne.mpr hu,
      Bool.false_or, beq_iff_eq] at hstops
    exact .inr hstops
  · exact .inl hu

/-- a record that is written where one is, or is made unused -/
theorem lighter_setRecord {r : JoinMapRecordClass V} (h : r.hash ≠ JM_UNUSED → a.Used slot) :
    a.load.Lighter (a.setRecord slot r).load := by
  refine ⟨rfl, rfl, rfl, occupied_le fun x _ hx => ?_⟩
  by_cases e : x = slot
  · subst e
    refine h fun hr => hx ?_
    show (Function.update a.data x r x).hash = JM_UNUSED
    rw [Function.update_self, hr]
  · have hx : (Function.update a.data slot r x).hash ≠ JM_UNUSED := hx
    rw [Function.update_of_ne e] at hx
    exact hx

theorem lighter_setValue (a : JoinPairArray V) (r : ValueRef) (v : V) :
    a.load.Lighter (a.setValue r v).load := by
  cases r with
  | slot slot => exact lighter_setRecord fun h => h
  | overflow list i =>
    unfold setValue
    dsimp only
    split <;> exact .refl _

theorem entered_insertRecord {r : JoinMapRecordClass V} (hlt : a.usedSlots + 1 < 2^32) :
    a.load.Entered (a.insertRecord slot r).load := by
  refine ⟨rfl, Nat.mod_eq_of_lt hlt, rfl, occupied_enter (j := slot) fun x hx hu => ?_⟩
  have hu : (Function.update a.data slot r x).hash ≠ JM_UNUSED := hu
  rw [Function.update_of_ne hx] at hu
  exact hu

theorem lighter_newList (hu : a.Used slot) (h : (a.newList fail slot).state = some a') :
    a.load.Lighter a'.load := by
  unfold newList at h
  split at h
  · split at h
    · cases h
      exact .refl _
    · split at h
      · split at h
        · cases h
          exact lighter_setRecord (a := { a with overflows := _ }) fun _ => hu
        · cases h
          exact .refl _
        · cases h
      · cases h
  · cases h
    exact .refl _

section
variable [Inhabited V]

theorem lighter_pushOverflow (hu : a.Used slot) (h : (a.pushOverflow fail slot).state = some a') :
    a.load.Lighter a'.load := by
  unfold pushOverflow at h
  cases hl : a.newList fail slot with
  | fatal =>
    rw [hl] at h
    cases h
  | notEnoughSpace b =>
    rw [hl] at h
    cases h
    exact lighter_newList hu (by rw [hl]; rfl)
  | ret b _ =>
    have hb : a.load.Lighter b.load := lighter_newList hu (by rw [hl]; rfl)
    rw [hl] at h
    dsimp only at h
    split at h
    · split at h <;> cases h <;> exact hb
    · cases h

theorem push_state (hlt : a.usedSlots + 1 < 2^32) (h : (a.push fail me).state = some a') :
    a.load.Lighter a'.load ∨ a.load.Entered a'.load := by
  unfold push at h
  split at h
  · split at h
    · split at h
      · cases h
        exact .inl (.refl _)
      · cases h
        exact .inr (entered_insertRecord hlt)
    · next hu => exact .inl (lighter_pushOverflow hu h)
  · cases h

theorem lighter_setUnused (h : a.setUnused me = some a') : a.load.Lighter a'.load := by
  unfold setUnused at h
  split at h
  · split at h
    · cases h
      exact .refl _
    · split at h
      · split at h <;> cases h
        exact .refl _
      · cases h
        exact lighter_setRecord fun h => absurd rfl h
  · cases h

theorem shape_setUnused (h : a.setUnused me = some a') : a'.shape = a.shape := by
  unfold setUnused at h
  split at h
  · split at h
    · cases h
      rfl
    · split at h
      · split at h <;> cases h
        rfl
      · cases h
        rfl
  · cases h

/-- a table that is in its storage, so that `doubleArray` can count its slots in 32 bits -/
structure Stored (a : JoinPairArray V) : Prop where
  load : a.load.Ok PairArray.fill
  hash : 8 ≤ a.shape.layout.objSize
  slots : a.shape.numSlots < 2^29

theorem Stored.lighter (h : a.Stored) (hl : a.load.Lighter a'.load) (hshape : a'.shape = a.shape) :
    a'.Stored :=
  ⟨h.load.lighter hl, hshape ▸ h.hash, hshape ▸ h.slots⟩

theorem create_stored {l : JoinLayouts} {extra n : ℕ} (h8 : 8 ≤ l.table.objSize) (h2 : 2 ≤ n)
    (h : create (V := V) l extra n = some a) : a.Stored := by
  unfold create at h
  split at h
  · cases h
  · next hfits =>
    obtain ⟨overflows, -, rfl⟩ := Option.map_eq_some_iff.mp h
    exact ⟨Load.ok_new h2 rfl rfl (occupied_of_unused fun _ _ hu => hu rfl), h8, slots_lt h8 hfits⟩

theorem Stored.limit_lt (h : a.Stored) : a.maxSlots < 2^29 := by
  have hlt : PairArray.fill a.numSlots < a.numSlots := fillFactor.lt h.load.two_le
  have hlimit : a.maxSlots = PairArray.fill a.numSlots := h.load.limit
  have hslots : a.numSlots < 2^29 := h.slots
  omega

/-- the table is not full -/
theorem Stored.push (h : a.Stored) (hroom : a.usedSlots < a.maxSlots)
    (hret : (a.push fail me).state = some a') : a'.Stored := by
  have hlimit := h.limit_lt
  have hshape := shape_push hret
  rcases push_state (by omega) hret with hl | he
  · exact h.lighter hl hshape
  · exact ⟨h.load.enter hroom he, hshape ▸ h.hash, hshape ▸ h.slots⟩

/-- the loop of `doubleArray` before the slots in the list; if a hash has two slots, its second value comes
into an overflow of the new table, and what is written in front of the value may change these in any way -/
inductive Copies (a : JoinPairArray V) : List ℕ → JoinPairArray V → Prop
  | start {new : JoinPairArray V} : create a.layouts (u32 (a.layouts.table.objSize * u32 (a.numSlots * 2)))
      (u32 (a.numSlots * 2)) = some new → Copies a (List.range a.numSlots) new
  | skip {i : ℕ} {is : List ℕ} {new : JoinPairArray V} : Copies a (i :: is) new → ¬ a.Used i →
      Copies a is new
  | slot {i slot : ℕ} {is : List ℕ} {new new' : JoinPairArray V} : Copies a (i :: is) new → a.Used i →
      new.push (fun _ => false) (a.data i).hash = .ret new' (.slot slot) →
      Copies a is ((new'.setValue (.slot slot) (a.data i).value).setRecord slot
        { (new'.setValue (.slot slot) (a.data i).value).data slot with next := (a.data i).next })
  | overflow {i list j : ℕ} {is : List ℕ} {new new' : JoinPairArray V}
      (overflows : PDBVector (PDBVector V)) : Copies a (i :: is) new → a.Used i →
      new.push (fun _ => false) (a.data i).hash = .ret new' (.overflow list j) →
      Copies a is { new' with overflows }

theorem copies_of_ret : ∀ {is : List ℕ} {new : JoinPairArray V}, Copies a is new →
    copySlots fail a is new = .ret b new' → b = a ∧ Copies a [] new' := by
  intro is
  induction is with
  | nil =>
    intro new h hret
    cases hret
    exact ⟨rfl, h⟩
  | cons i is ih =>
    intro new h hret
    rw [copySlots] at hret
    split at hret
    · next hun => exact ih (h.skip fun hu => hu hun) hret
    · next hu =>
      split at hret
      · cases hret
      · split at hret
        · next new₁ r hpush =>
          cases r with
          | slot slot => exact ih (h.slot hu hpush) hret
          | overflow list j => cases hret
        · cases hret
        · cases hret

theorem copySlots_notEnoughSpace : ∀ {is : List ℕ} {new : JoinPairArray V},
    copySlots fail a is new = .notEnoughSpace b → b = a := by
  intro is
  induction is with
  | nil =>
    intro new h
    cases h
  | cons i is ih =>
    intro new h
    rw [copySlots] at h
    split at h
    · exact ih h
    · split at h
      · cases h
        rfl
      · split at h
        · next new₁ r hpush =>
          cases r with
          | slot slot => exact ih h
          | overflow list j => cases h
        · cases h
          rfl
        · cases h

theorem doubleArray_ret (h : a.doubleArray fail = .ret b new) :
    ∃ new', Copies a [] new' ∧ new = { new' with overflows := a.overflows } := by
  unfold doubleArray at h
  dsimp only at h
  split at h
  · cases h
  · split at h
    · next new₁ hcreate =>
      split at h
      · next b₁ new₂ hcopy =>
        cases h
        obtain ⟨rfl, hcopies⟩ := copies_of_ret (.start hcreate) hcopy
        exact ⟨new₂, hcopies, rfl⟩
      · cases h
      · cases h
    · cases h

theorem doubleArray_notEnoughSpace (h : a.doubleArray fail = .notEnoughSpace b) : b = a := by
  unfold doubleArray at h
  dsimp only at h
  split at h
  · cases h
    rfl
  · split at h
    · split at h
      · cases h
      · next hcopy =>
        cases h
        exact copySlots_notEnoughSpace hcopy
      · cases h
    · cases h

/-- the new table has room for the entries that are left -/
structure Growing (a : JoinPairArray V) (is : List ℕ) (new : JoinPairArray V) : Prop where
  filling : Load.Filling PairArray.fill a.load new.load (is.countP (a.Used ·))
  layout : new.shape.layout = a.shape.layout
  slots : new.shape.numSlots < 2^29

/-- one more entry -/
theorem Growing.push (ha : a.Stored) (h : Growing a (i :: is) new) (hu : a.Used i)
    (hpush : (new.push fail me).state = some new') : Growing a is new' := by
  have hleft : is.countP (a.Used ·) + 1 ≤ (i :: is).countP (a.Used ·) := by
    rw [List.countP_cons, if_pos (decide_eq_true hu)]
  have hcounted : new.usedSlots + 1 < 2^32 := by
    have h1 : new.usedSlots + _ ≤ a.usedSlots := h.filling.left
    have h2 : a.usedSlots ≤ a.maxSlots := ha.load.counted
    have h3 := ha.limit_lt
    omega
  have hshape := shape_push hpush
  refine ⟨?_, (congrArg TableShape.layout hshape).trans h.layout, hshape ▸ h.slots⟩
  rcases push_state hcounted hpush with hl | he
  · exact h.filling.lighter hl (Nat.le_of_succ_le hleft)
  · exact h.filling.enter he hleft

theorem Copies.growing (ha : a.Stored) (h : Copies a is new) : Growing a is new := by
  induction h with
  | @start new hcreate =>
    have hslots : a.numSlots < 2^29 := ha.slots
    have hmany : u32 (a.numSlots * 2) = a.numSlots * 2 := Nat.mod_eq_of_lt (by omega)
    rw [hmany] at hcreate
    have hstored := create_stored ha.hash (by have : 2 ≤ a.numSlots := ha.load.two_le; omega) hcreate
    unfold create at hcreate
    split at hcreate
    · cases hcreate
    · obtain ⟨overflows, -, rfl⟩ := Option.map_eq_some_iff.mp hcreate
      refine ⟨⟨rfl, rfl, hstored.load.used, ?_⟩, rfl, hstored.slots⟩
      show 0 + occupied a.Used a.numSlots ≤ a.usedSlots
      rw [Nat.zero_add]
      exact ha.load.used
  | @skip i is new _ _ ih =>
    exact ⟨ih.filling.lighter (.refl _) (List.sublist_cons_self i is).countP_le, ih.layout, ih.slots⟩
  | @slot i slot is new new' _ hu hpush ih =>
    obtain ⟨hfilling, hlayout, hslots⟩ := ih.push ha hu (by rw [hpush]; rfl)
    exact ⟨hfilling.lighter ((lighter_setValue new' (.slot slot) _).trans (lighter_setRecord fun h => h))
      (Nat.le_refl _), hlayout, hslots⟩
  | overflow overflows _ hu hpush ih =>
    obtain ⟨hfilling, hlayout, hslots⟩ := ih.push ha hu (by rw [hpush]; rfl)
    exact ⟨hfilling.lighter ⟨rfl, rfl, rfl, Nat.le_refl _⟩ (Nat.le_refl _), hlayout, hslots⟩

theorem Growing.stored (ha : a.Stored) (h : Growing a is new) : new.Stored :=
  ⟨h.filling.ok fillFactor ha.load, h.layout ▸ ha.hash, h.slots⟩

end

/-! ### copies -/

section
variable {start : ℕ} {c : Constituent V} {f : JoinCopyFail} {t t' : JoinTarget V} {next next' outer cap outer' cap' : ℕ}
  {lists lists' : List (ℕ × PDBVector V)}

theorem hash_writeHash (t : JoinTarget V) (i hash x : ℕ) :
    ((t.writeHash i hash).data x).hash = if x = i then hash else (t.data x).hash := by
  show (Function.update t.data i _ x).hash = _
  rw [Function.update_apply]
  split <;> rfl

theorem hash_writeNext (t : JoinTarget V) (i next x : ℕ) :
    ((t.writeNext i next).data x).hash = (t.data x).hash := by
  show (Function.update t.data i _ x).hash = _
  rw [Function.update_apply]
  split
  · next h => rw [h]
  · rfl

theorem hash_writeValue (t : JoinTarget V) (i : ℕ) (v : V) (x : ℕ) :
    ((t.writeValue i v).data x).hash = (t.data x).hash := by
  show (Function.update t.data i _ x).hash = _
  rw [Function.update_apply]
  split
  · next h => rw [h]
  · rfl

theorem copySlotTo_hash (h : copySlotTo c f a i t next = .ret t' next') (x : ℕ) :
    (t'.data x).hash = if x = i then (a.data x).hash else (t.data x).hash := by
  have hwrite : ((t.writeHash i (a.data i).hash).data x).hash =
      if x = i then (a.data x).hash else (t.data x).hash := by
    rw [hash_writeHash]
    split
    · next e => rw [e]
    · rfl
  rw [← hwrite]
  unfold copySlotTo at h
  dsimp only at h
  split at h
  · cases h
    rfl
  · split at h <;> cases h
    exact (hash_writeValue _ _ _ _).trans (hash_writeNext _ _ _ _)

theorem copySlotsTo_hash (is : List ℕ) : ∀ {t : JoinTarget V} {next : ℕ},
    copySlotsTo c f a is t next = .ret t' next' →
    ∀ x, (t'.data x).hash = if x ∈ is then (a.data x).hash else (t.data x).hash := by
  induction is with
  | nil =>
    intro t next h x
    cases h
    rfl
  | cons i is ih =>
    intro t next h x
    rw [copySlotsTo] at h
    split at h
    · next t₁ next₁ hslot =>
      rw [ih h x, copySlotTo_hash hslot x]
      by_cases hx : x ∈ is
      · rw [if_pos hx, if_pos (List.mem_cons_of_mem i hx)]
      · rw [if_neg hx]
        by_cases e : x = i
        · rw [if_pos e, if_pos (e ▸ List.mem_cons_self)]
        · rw [if_neg e, if_neg (fun hmem => (List.mem_cons.mp hmem).elim e hx)]
    · cases h

theorem finishCopy_hash (h : finishCopy c f a t outer cap lists next = .ret t' outer' cap' lists') :
    ∀ x < a.numSlots, (t'.data x).hash = (a.data x).hash := by
  intro x hx
  unfold finishCopy at h
  split at h
  · next t₁ next₁ hslots =>
    cases h
    rw [copySlotsTo_hash _ hslots x, if_pos (List.mem_range.mpr hx)]
  · cases h

theorem setUpAndCopyFrom_hash {s : StoredJoin V}
    (h : setUpAndCopyFrom start c f s t next = .ret t' outer' cap' lists') :
    ∀ x < s.table.numSlots, (t'.data x).hash = (s.table.data x).hash := by
  unfold setUpAndCopyFrom at h
  split at h
  · cases h
  · dsimp only at h
    split at h
    · cases h
    · split at h
      · cases h
        intro x hx
        dsimp only
        rw [if_pos hx]
      · exact finishCopy_hash h

theorem deepCopyJoinMap_hash
    (h : JoinMap.deepCopyJoinMap c f a t next = .ret t' outer' cap' lists') :
    ∀ x < a.numSlots, (t'.data x).hash = (a.data x).hash := by
  unfold JoinMap.deepCopyJoinMap at h
  split at h
  · cases h
  · dsimp only at h
    split at h
    · cases h
    · split at h
      · cases h
      · exact finishCopy_hash h

/-- the hashes are those of the table -/
theorem lighter_copied (addr outer : ℕ) (h : ∀ x < a.numSlots, (t'.data x).hash = (a.data x).hash) :
    a.load.Lighter (a.copied addr t' outer cap' lists').table.load := by
  refine ⟨rfl, rfl, rfl, occupied_le fun x hx hu => ?_⟩
  have hu : (t'.data x).hash ≠ JM_UNUSED := hu
  rw [h x hx] at hu
  exact hu

end
end
end JoinPairArray

namespace JoinMap
section
variable {V : Type*} [Inhabited V] {m m' : JoinMap V} {fail : JoinSite → Bool} {me : ℕ}

/-- the maps that the operations make, out of records with a hash of eight bytes -/
inductive Reached : JoinMap V → Prop
  | create {l : JoinLayouts} {initSize partitionId : ℕ} {numPartitions : ℤ} {m : JoinMap V} :
      8 ≤ l.table.objSize → create l initSize partitionId numPartitions = some m → Reached m
  | push {m m' : JoinMap V} {f : JoinSite → Bool} {me : ℕ} {r : ValueRef} : Reached m →
      m.push f me = .ret m' r → Reached m'
  | throws {m m' : JoinMap V} {f : JoinSite → Bool} {me : ℕ} : Reached m →
      m.push f me = .notEnoughSpace m' → Reached m'
  /-- by a `push`, also when a hash has two slots -/
  | doubled {m : JoinMap V} {new : JoinPairArray V} : Reached m → m.myArray.isOverFull = true →
      m.myArray.Copies [] new → Reached (m.setArray { new with overflows := m.myArray.overflows })
  | setUnused {m m' : JoinMap V} {me : ℕ} : Reached m → m.setUnused me = some m' → Reached m'
  /-- through a reference -/
  | write {m : JoinMap V} (r : ValueRef) (v : V) : Reached m → Reached (m.setValue r v)
  | copy {m : JoinMap V} {start addr outer next addr' outer' cap' : ℕ} {inner : ℕ → ℕ} {c : Constituent V}
      {f : JoinCopyFail} {t t' : JoinTarget V} {lists' : List (ℕ × PDBVector V)} : Reached m →
      JoinPairArray.setUpAndCopyFrom start c f ⟨m.myArray, addr, outer, inner⟩ t next =
        .ret t' outer' cap' lists' →
      Reached (m.setArray (m.myArray.copied addr' t' outer' cap' lists').table)
  | deepCopy {m : JoinMap V} {next addr' outer' cap' : ℕ} {c : Constituent V} {f : JoinCopyFail}
      {t t' : JoinTarget V} {lists' : List (ℕ × PDBVector V)} : Reached m →
      deepCopyJoinMap c f m.myArray t next = .ret t' outer' cap' lists' →
      Reached (m.setArray (m.myArray.copied addr' t' outer' cap' lists').table)

theorem stored_doubled (h : m.myArray.Stored) {new : JoinPairArray V} (hc : m.myArray.Copies [] new) :
    ({ new with overflows := m.myArray.overflows } : JoinPairArray V).Stored ∧
      new.usedSlots < new.maxSlots := by
  have hgrowing := hc.growing h
  exact ⟨(hgrowing.stored h).lighter ⟨rfl, rfl, rfl, Nat.le_refl _⟩ rfl,
    hgrowing.filling.lt_limit fillFactor h.load⟩

theorem push_stored (h : m.myArray.Stored) (hret : (m.push fail me).state = some m') :
    m'.myArray.Stored := by
  unfold push at hret
  split at hret
  · split at hret
    · next b temp hdouble =>
      obtain ⟨new, hcopies, rfl⟩ := JoinPairArray.doubleArray_ret hdouble
      obtain ⟨hstored, hroom⟩ := stored_doubled h hcopies
      rw [Outcome.state_lift] at hret
      obtain ⟨a, ha, rfl⟩ := Option.map_eq_some_iff.mp hret
      exact hstored.push hroom ha
    · next old hdouble =>
      cases hret
      exact JoinPairArray.doubleArray_notEnoughSpace hdouble ▸ h
    · cases hret
  · next hfull =>
    rw [Outcome.state_lift] at hret
    obtain ⟨a, ha, rfl⟩ := Option.map_eq_some_iff.mp hret
    rw [JoinPairArray.isOverFull, decide_eq_true_eq] at hfull
    exact h.push (Nat.lt_of_not_le hfull) ha

theorem Reached.stored (h : Reached m) : m.myArray.Stored := by
  induction h with
  | @create l initSize _ _ m h8 hm =>
    unfold JoinMap.create at hm
    obtain ⟨a, ha, rfl⟩ := Option.map_eq_some_iff.mp hm
    refine JoinPairArray.create_stored h8 ?_ ha
    split <;> omega
  | push _ hret ih => exact push_stored ih (by rw [hret]; rfl)
  | throws _ hthrow ih => exact push_stored ih (by rw [hthrow]; rfl)
  | doubled _ _ hc ih => exact (stored_doubled ih hc).1
  | setUnused _ hunused ih =>
    obtain ⟨a, ha, rfl⟩ := Option.map_eq_some_iff.mp hunused
    exact ih.lighter (JoinPairArray.lighter_setUnused ha) (JoinPairArray.shape_setUnused ha)
  | write r v _ ih => exact ih.lighter (JoinPairArray.lighter_setValue _ r v) (JoinPairArray.shape_setValue r v)
  | copy _ hcopy ih =>
    exact ih.lighter (JoinPairArray.lighter_copied 0 0 (JoinPairArray.setUpAndCopyFrom_hash hcopy)) rfl
  | deepCopy _ hcopy ih =>
    exact ih.lighter (JoinPairArray.lighter_copied 0 0 (JoinPairArray.deepCopyJoinMap_hash hcopy)) rfl

end
end JoinMap

/-! ## Both tables -/

/-- **A slot is unused** in a map, and in the tables that its operations fill. -/
theorem probes_end {K V W : Type*} [BEq K] [Hashable K] [Inhabited K] [Inhabited V] [Inhabited W]
    (m : PDBMap K V) (w : JoinMap W) (hm : m.Reached) (hw : w.Reached) :
    (m.myArray.Ends ∧ ∀ is old new, m.myArray.Moves is old new → new.Ends) ∧
      (w.myArray.Ends ∧ ∀ is new, w.myArray.Copies is new → new.Ends) := by
  have hkept := hm.kept
  have hstored := hw.stored
  exact ⟨⟨PairArray.ends hkept.load,
      fun _ _ _ h => PairArray.ends ((h.moving hkept).kept hkept).1.load⟩,
    JoinPairArray.ends hstored.load,
    fun _ _ h => JoinPairArray.ends ((h.growing hstored).stored hstored).load⟩

/-- the smallest maps -/
theorem probes_end_smallest : ∃ (m : PDBMap ℕ ℕ) (w : JoinMap ℕ),
    PDBMap.create ⟨24, 80, 8, by decide⟩ 2 = some m ∧
    JoinMap.create ⟨⟨24, 80, 8, by decide⟩, ⟨32, 24, 0, by decide⟩, ⟨8, 24, 0, by decide⟩⟩ 2 0 1 = some w ∧
    (m.myArray.Ends ∧ ∀ is old new, m.myArray.Moves is old new → new.Ends) ∧
      (w.myArray.Ends ∧ ∀ is new, w.myArray.Copies is new → new.Ends) := by
  obtain ⟨m, hm, -⟩ := PDBMap.create_spec (K := ℕ) (V := ℕ) (l := ⟨24, 80, 8, by decide⟩) (le_refl 2)
    (by decide)
  obtain ⟨w, hw, -⟩ := JoinMap.create_spec (V := ℕ) (p := 0) (k := 1)
    (l := ⟨⟨24, 80, 8, by decide⟩, ⟨32, 24, 0, by decide⟩, ⟨8, 24, 0, by decide⟩⟩) (le_refl 2) (by decide)
    (by decide)
  exact ⟨m, w, hm, hw, probes_end m w (.create (by decide) hm) (.create (by decide) hw)⟩

end Netsdb
