import Netsdb.BuiltIn.JoinPush

/-!
# What `doubleArray`, `lookup`, `count`, `setUnused` and the iterator do

* `copySlot`           one entry copied: the record comes into the new table as it is;
* `doubleArray_spec`   the same values in a larger table, or nothing at all;
* `lookup_eq`          `lookup` gives the values of a hash;
* `iterate_perm`       the iterator gives every hash once, with its values;
* `setUnused_spec`     the last value of a hash is gone, also when nothing was pushed before.
-/

set_option linter.unusedSectionVars false

namespace Netsdb
namespace JoinPairArray
variable {V : Type*} {a a' new : JoinPairArray V} {i j slot hv : Nat} {is : List Nat}

/-! ## doubling -/

/-- the new table with the lists of the old one, which it gets in the end -/
def withOverflows (new a : JoinPairArray V) : JoinPairArray V := { new with overflows := a.overflows }

/-- the slots that `doubleArray` copies, of those in the list -/
def toCopy (a : JoinPairArray V) (is : List Nat) : List Nat := is.filter fun i => a.Used i

theorem toCopy_cons (a : JoinPairArray V) (i : Nat) (is : List Nat) :
    a.toCopy (i :: is) = if a.Used i then i :: a.toCopy is else a.toCopy is := by
  unfold toCopy
  rw [List.filter_cons]
  simp only [decide_eq_true_eq]

theorem toCopy_range (h : a.Sound) : (a.toCopy (List.range a.numSlots)).length = a.usedSlots := by
  rw [h.used, hashes, slotList, toCopy, ← List.countP_eq_length_filter, List.length_filterMap_eq_countP]
  refine List.countP_congr fun i _ => ?_
  by_cases hu : a.Used i
  · simp [hu]
  · simp [hu]

/-- the entries of the new table are copies, and the slots in the list are still to come -/
structure Copying (a : JoinPairArray V) (is : List Nat) (new : JoinPairArray V) : Prop where
  sound : (new.withOverflows a).Sound
  layouts : new.layouts = a.layouts
  origin : ∀ x < new.numSlots, new.Used x →
    ∃ i < a.numSlots, i ∉ is ∧ a.Used i ∧ new.data x = a.data i

/-- the values that are already in the new table, or are not -/
def Carries (a : JoinPairArray V) (is : List Nat) (new : JoinPairArray V) : Prop :=
  ∀ i < a.numSlots, a.Used i → (new.withOverflows a).recordsOf (a.data i).hash =
    if i ∈ is then [] else a.recordsOf (a.data i).hash

/-- an entry that is copied -/
theorem copySlot [Inhabited V] (h : a.Sound) (hc : Copying a (i :: is) new)
    (hr : Carries a (i :: is) new) (hi : i < a.numSlots) (hu : a.Used i) (hni : i ∉ is)
    (hroom : new.usedSlots < new.numSlots) :
    ∃ new₁ j, new.push (fun _ => false) (a.data i).hash = .ret new₁ (.slot j) ∧
      ∃ new₂, (new₁.setValue (.slot j) (a.data i).value).setRecord j
          { (new₁.setValue (.slot j) (a.data i).value).data j with next := (a.data i).next } = new₂ ∧
        Copying a is new₂ ∧ Carries a is new₂ ∧ new₂.usedSlots = new.usedSlots + 1 ∧
        new₂.numSlots = new.numSlots ∧ new₂.maxSlots = new.maxSlots := by
  obtain ⟨o, ho⟩ : ∃ o, o = new.withOverflows a := ⟨_, rfl⟩
  have hdata : o.data = new.data := by rw [ho]; rfl
  have hnum : o.numSlots = new.numSlots := by rw [ho]; rfl
  have hover : o.overflows = a.overflows := by rw [ho]; rfl
  have hs : o.Sound := ho ▸ hc.sound
  -- the slots of the new table are copies of other slots
  have hother : ∀ x < o.numSlots, o.Used x → ∃ y < a.numSlots, y ≠ i ∧ a.Used y ∧
      o.data x = a.data y := by
    intro x hx hux
    rw [hnum] at hx
    rw [Used, hdata] at hux
    obtain ⟨y, hy, hni, huy, he⟩ := hc.origin x hx hux
    exact ⟨y, hy, fun e => hni (e ▸ List.mem_cons_self), huy, by rw [hdata, he]⟩
  have hno : ∀ x < o.numSlots, (o.data x).hash ≠ (a.data i).hash := by
    intro x hx e
    obtain ⟨y, hy, hne, huy, he⟩ := hother x hx (by rw [Used, e]; exact hu)
    rw [he] at e
    exact hne (h.distinct y hy i hi huy e)
  have hnext : (a.data i).next ≠ noNext → (a.data i).next < o.overflows.items.length ∧
      ∀ x < o.numSlots, o.Used x → (o.data x).next ≠ (a.data i).next := by
    refine fun hn => ⟨by rw [hover]; exact h.next_lt i hi hu hn, fun x hx hux e => ?_⟩
    obtain ⟨y, hy, hne, huy, he⟩ := hother x hx hux
    rw [he] at e
    exact hne (h.next_inj i hi y hy hu huy hn e.symm).symm
  have hroom' : o.usedSlots < o.numSlots := by rw [ho]; exact hroom
  obtain ⟨j, hj, hlt, hun, hch⟩ := findSlot_miss hs hroom' hno
  have hfind : new.findSlot (hashValOf (a.data i).hash) = some j := by
    rw [hashValOf_of_ne hu, ← hj, ho]
    rfl
  have hunused : (new.data j).hash = JM_UNUSED := by
    rw [← hdata]
    simpa [Used] using hun
  obtain ⟨hs', hcount, hrec⟩ := insert_spec hs hroom' hu hno hlt hun hch hnext
  obtain ⟨new₂, hnew₂⟩ : ∃ new₂, new₂ = new.insertRecord j (a.data i) := ⟨_, rfl⟩
  have hwith : new₂.withOverflows a = o.insertRecord j (a.data i) := by
    rw [hnew₂, ho]
    rfl
  have hself : new₂.data j = a.data i := by
    rw [hnew₂]
    exact setRecord_data_self _ _ _
  have hrest : ∀ x, x ≠ j → new₂.data x = new.data x := fun x e => by
    rw [hnew₂]
    exact setRecord_data_of_ne e
  have hnum₂ : new₂.numSlots = new.numSlots := by rw [hnew₂]; rfl
  refine ⟨new.insertRecord j ⟨hashValOf (a.data i).hash, noNext, default⟩, j, ?_, new₂, ?_,
    ⟨?_, ?_, ?_⟩, ?_, ?_, hnum₂, ?_⟩
  · rw [push, hfind]
    exact if_pos hunused
  · -- the three writes to the slot are one
    rw [hashValOf_of_ne hu, hnew₂]
    simp only [setValue, insertRecord, setRecord, Function.update_self, Function.update_idem]
  · rw [hwith]
    exact hs'
  · rw [hnew₂]
    exact hc.layouts
  · intro x hx hux
    by_cases e : x = j
    · rw [e, hself]
      exact ⟨i, hi, hni, hu, rfl⟩
    · rw [Used, hrest x e] at hux
      rw [hnum₂] at hx
      obtain ⟨y, hy, hny, huy, he⟩ := hc.origin x hx hux
      exact ⟨y, hy, fun hm => hny (List.mem_cons_of_mem i hm), huy, by rw [hrest x e, he]⟩
  · intro y hy huy
    rw [hwith, hrec]
    by_cases e : y = i
    · subst e
      rw [Function.update_self, if_neg hni, recordsOf_slot h.distinct hi hu, slotRecords,
        overflowItems, overflowItems, hover]
    · have hne : (a.data y).hash ≠ (a.data i).hash := fun e' =>
        e (h.distinct y hy i hi huy e')
      have hry := hr y hy huy
      rw [← ho] at hry
      rw [Function.update_of_ne hne, hry]
      simp only [List.mem_cons, e, false_or]
  · rw [hnew₂, ← show o.usedSlots = new.usedSlots by rw [ho]; rfl, ← hcount, ho]
    rfl
  · rw [hnew₂]
    rfl

/-- the entries of the slots `is` come into `new` -/
theorem copySlots_spec [Inhabited V] (fail : JoinSite → Bool) (h : a.Sound) (is : List Nat) :
    ∀ new : JoinPairArray V, is.Nodup → (∀ i ∈ is, i < a.numSlots) → Copying a is new →
      Carries a is new → new.usedSlots + (a.toCopy is).length < new.numSlots →
      (copySlots fail a is new = .notEnoughSpace a ∧ ∃ site, fail site = true) ∨
        ∃ new', copySlots fail a is new = .ret a new' ∧ Copying a [] new' ∧ Carries a [] new' ∧
          new'.usedSlots = new.usedSlots + (a.toCopy is).length ∧ new'.numSlots = new.numSlots ∧
          new'.maxSlots = new.maxSlots := by
  induction is with
  | nil => exact fun new _ _ hc hr _ => Or.inr ⟨new, rfl, hc, hr, rfl, rfl, rfl⟩
  | cons i is ih =>
    intro new hnd hlt hc hr hroom
    obtain ⟨hni, hnd'⟩ := List.nodup_cons.mp hnd
    have hi := hlt i List.mem_cons_self
    have hlt' : ∀ x ∈ is, x < a.numSlots := fun x hx => hlt x (List.mem_cons_of_mem i hx)
    rw [copySlots]
    rw [toCopy_cons] at hroom ⊢
    by_cases hu : a.Used i
    · have hui : ¬ (a.data i).hash = JM_UNUSED := hu
      rw [if_pos hu, List.length_cons] at hroom ⊢
      rw [if_neg hui]
      by_cases hf : fail (.moved i) = true
      · rw [if_pos hf]
        exact Or.inl ⟨rfl, _, hf⟩
      · rw [if_neg hf]
        obtain ⟨new₁, j, hpush, new₂, hnew₂, hc₂, hr₂, hused, hnum, hmax⟩ :=
          copySlot h hc hr hi hu hni (by omega)
        simp only [hpush, hnew₂]
        have hroom₂ : new₂.usedSlots + (a.toCopy is).length < new₂.numSlots := by
          rw [hused, hnum]
          omega
        obtain hfail | ⟨new', hrun, hc', hr', hused', hnum', hmax'⟩ :=
          ih new₂ hnd' hlt' hc₂ hr₂ hroom₂
        · exact Or.inl hfail
        · refine Or.inr ⟨new', hrun, hc', hr', ?_, hnum'.trans hnum, hmax'.trans hmax⟩
          rw [hused', hused]
          omega
    · have hui : (a.data i).hash = JM_UNUSED := by simpa [Used] using hu
      rw [if_neg hu] at hroom ⊢
      rw [if_pos hui]
      refine ih new hnd' hlt' ⟨hc.sound, hc.layouts, fun x hx hux => ?_⟩ (fun y hy huy => ?_) hroom
      · obtain ⟨y, hy, hny, huy, he⟩ := hc.origin x hx hux
        exact ⟨y, hy, fun hm => hny (List.mem_cons_of_mem i hm), huy, he⟩
      · have hne : y ≠ i := fun e => hu (e ▸ huy)
        rw [hr y hy huy]
        simp only [List.mem_cons, hne, false_or]

/-- an empty table -/
theorem create_spec [Inhabited V] {l : JoinLayouts} {n : Nat} (h : PairArray.TableFits l.table n)
    (ho : l.outer.Fits 1) (h2 : 2 ≤ n) :
    ∃ b : JoinPairArray V, create l (l.table.objSize * n) n = some b ∧ b.Sound ∧
      (∀ i, ¬ b.Used i) ∧ b.usedSlots = 0 ∧ b.numSlots = n ∧ b.maxSlots = PairArray.fill n ∧
      b.layouts = l := by
  obtain ⟨w, hw, hok, hitems, -, hl⟩ := PDBVector.create_spec (α := PDBVector V) ho
  obtain ⟨b, hb⟩ : ∃ b : JoinPairArray V, b =
    ⟨l, 0, n, PairArray.fill n, w, fun _ => ⟨JM_UNUSED, noNext, default⟩⟩ := ⟨_, rfl⟩
  have hnone : ∀ i, ¬ b.Used i := fun i => by
    rw [hb]
    exact fun hu => hu rfl
  have hhashes : b.hashes = [] := by
    refine List.filterMap_eq_nil_iff.mpr fun i _ => ?_
    rw [if_neg (hnone i)]
  refine ⟨b, ?_, ⟨?_, ?_, ?_, ?_, ?_, ?_, ?_, ?_, ?_⟩, hnone, ?_, ?_, ?_, ?_⟩
  · rw [create, if_neg, hw, hb]
    · rfl
    · rintro (hc | hc)
      · exact absurd h.1 (Nat.not_le_of_lt hc)
      · exact absurd h.2.le_storage (Nat.not_le_of_lt hc)
  · rw [hb]
    exact h2
  · rw [hb]
    exact h.2.lt
  · rw [hhashes, hb]
    rfl
  · exact fun i _ hu => absurd hu (hnone i)
  · exact fun i _ j _ hu _ => absurd hu (hnone i)
  · exact fun i _ hu => absurd hu (hnone i)
  · exact fun i _ j _ hu => absurd hu (hnone i)
  · rw [hb]
    exact ⟨hok, hl⟩
  · rw [hb]
    intro v hv
    rw [show w.items = [] from hitems] at hv
    cases hv
  all_goals rw [hb]

theorem recordsOf_unused (h : ∀ i, ¬ a.Used i) : a.recordsOf hv = [] := by
  by_cases e : hv = JM_UNUSED
  · rw [recordsOf, if_pos e]
  · exact recordsOf_absent fun i _ hi => h i (by rwa [Used, hi])

/-- a larger table with the same values -/
structure Doubled (a new : JoinPairArray V) : Prop where
  sound : new.Sound
  records : new.recordsOf = a.recordsOf
  numSlots : new.numSlots = a.numSlots * 2
  maxSlots : new.maxSlots = PairArray.fill (a.numSlots * 2)
  usedSlots : new.usedSlots = a.usedSlots
  layouts : new.layouts = a.layouts
  overflows : new.overflows = a.overflows
  origin : ∀ x < new.numSlots, new.Used x → ∃ i < a.numSlots, a.Used i ∧ new.data x = a.data i

/-- **`doubleArray`.** -/
theorem doubleArray_spec [Inhabited V] (fail : JoinSite → Bool) (h : a.Sound)
    (hfits : PairArray.TableFits a.layouts.table (a.numSlots * 2)) :
    (a.doubleArray fail = .notEnoughSpace a ∧ ∃ site, fail site = true) ∨
      ∃ new, a.doubleArray fail = .ret a new ∧ Doubled a new := by
  have h2 := h.two_le
  have hle := length_le h
  have houter : a.layouts.outer.Fits 1 := by
    rw [← h.outer.2]
    exact h.outer.1.fits.mono h.outer.1.pos
  obtain ⟨b, hb, hbs, hnone, hzero, hn, hmax, hl⟩ := create_spec (V := V) hfits houter (by omega)
  have hmany : u32 (a.numSlots * 2) = a.numSlots * 2 := u32_of_lt hfits.2.lt
  have hextra : u32 (a.layouts.table.objSize * (a.numSlots * 2)) =
      a.layouts.table.objSize * (a.numSlots * 2) := u32_of_lt hfits.2.bytes_lt
  have hcopying : Copying a (List.range a.numSlots) b := by
    refine ⟨hbs.of_hashes rfl rfl (fun _ _ => rfl) ?_ ?_ ⟨h.outer.1, ?_⟩ fun v hv => ?_, hl, ?_⟩
    · exact fun i _ hu => absurd hu (hnone i)
    · exact fun i _ j _ hu => absurd hu (hnone i)
    · exact h.outer.2.trans (by rw [← hl]; rfl)
    · have := h.inner v hv
      rwa [← hl] at this
    · exact fun i _ hu => absurd hu (hnone i)
  have hcarries : Carries a (List.range a.numSlots) b := by
    intro i hi _
    rw [if_pos (List.mem_range.mpr hi)]
    exact recordsOf_unused (a := b.withOverflows a) hnone
  simp only [doubleArray, hmany, hextra, hb]
  by_cases hf : fail .array = true
  · rw [if_pos hf]
    exact Or.inl ⟨rfl, _, hf⟩
  · rw [if_neg hf]
    obtain ⟨hfail, hsite⟩ | ⟨new, hrun, hc, hr, hused, hnum, hmax'⟩ :=
      copySlots_spec fail h (List.range a.numSlots) b List.nodup_range
        (fun i hi => List.mem_range.mp hi) hcopying hcarries (by
          rw [toCopy_range h, hzero, hn]
          omega)
    · rw [hfail]
      exact Or.inl ⟨rfl, hsite⟩
    · rw [hrun]
      rw [toCopy_range h, hzero, Nat.zero_add] at hused
      refine Or.inr ⟨_, rfl, hc.sound, ?_, hnum.trans hn, hmax'.trans hmax, hused, hc.layouts, rfl,
        fun x hx hux => ?_⟩
      · funext hv
        rcases a.hash_cases hv with ⟨i, hi, rfl⟩ | hno
        · by_cases hu : a.Used i
          · have := hr i hi hu
            rw [if_neg List.not_mem_nil] at this
            exact this
          · have hui : (a.data i).hash = JM_UNUSED := by simpa [Used] using hu
            rw [recordsOf, recordsOf, if_pos hui, if_pos hui]
        · rw [recordsOf_absent hno]
          by_cases hu : hv = JM_UNUSED
          · rw [recordsOf, if_pos hu]
          · refine recordsOf_absent fun x hx e => ?_
            obtain ⟨i, hi, -, -, he⟩ := hc.origin x hx (by rw [Used]; rw [← e] at hu; exact hu)
            exact hno i hi (by rw [← he]; exact e)
      · obtain ⟨i, hi, -, hu, he⟩ := hc.origin x hx hux
        exact ⟨i, hi, hu, he⟩

/-! ## reading -/

/-- what the operations that read a table rely on -/
structure Readable (a : JoinPairArray V) : Prop where
  distinct : a.Distinct
  next_lt : ∀ i < a.numSlots, a.Used i → (a.data i).next ≠ noNext →
    (a.data i).next < a.overflows.items.length

theorem Sound.readable (h : a.Sound) : a.Readable := ⟨h.distinct, h.next_lt⟩

theorem filterMap_getElem? {α : Type*} (l : List α) :
    (List.range l.length).filterMap (fun i => l[i]?) = l := by
  induction l with
  | nil => rfl
  | cons x l ih =>
    rw [List.length_cons, List.range_succ_eq_map, List.filterMap_cons, List.filterMap_map]
    show x :: (List.range l.length).filterMap (fun i => l[i]?) = x :: l
    rw [ih]

/-- a record list has the values of its slot -/
theorem recordList_eq (h : a.Readable) (hi : i < a.numSlots) (hu : a.Used i) :
    a.recordList i = a.slotRecords i := by
  have hui : ¬ (a.data i).hash = JM_UNUSED := hu
  rw [recordList, recordListSize, if_neg hui, slotRecords]
  by_cases hn : (a.data i).next = noNext
  · rw [if_neg (not_not.mpr hn), if_pos hn]
    rfl
  · rw [if_pos hn, if_pos (h.next_lt i hi hu hn), if_neg hn, List.range_succ_eq_map,
      List.filterMap_cons, List.filterMap_map]
    show (a.data i).value :: (List.range (a.overflowItems (a.data i).next).length).filterMap
      (fun x => (a.overflowItems (a.data i).next)[x]?) = _
    rw [filterMap_getElem?]

theorem recordList_unused (hu : ¬ a.Used i) : a.recordList i = [] := by
  have hui : (a.data i).hash = JM_UNUSED := by simpa [Used] using hu
  rw [recordList, recordListSize, if_pos hui]
  rfl

/-- where the search for a hash ends -/
theorem findSlot_cases (h : a.Sound) (hroom : a.usedSlots < a.numSlots) (me : Nat) :
    ∃ slot, a.findSlot (hashValOf me) = some slot ∧
      ((slot < a.numSlots ∧ a.Used slot ∧ (a.data slot).hash = hashValOf me) ∨
        (¬ a.Used slot ∧ a.recordsOf (hashValOf me) = [])) := by
  rcases a.hash_cases (hashValOf me) with ⟨i, hi, hh⟩ | hno
  · have hu : a.Used i := by
      rw [Used, hh]
      exact hashValOf_ne me
    exact ⟨i, by rw [← hh]; exact findSlot_hit h hi hu, Or.inl ⟨hi, hu, hh⟩⟩
  · obtain ⟨j, hj, -, hun, -⟩ := findSlot_miss h hroom hno
    exact ⟨j, hj, Or.inr ⟨hun, recordsOf_absent hno⟩⟩

/-- **`lookup`.** -/
theorem lookup_eq (h : a.Sound) (hroom : a.usedSlots < a.numSlots) (me : Nat) :
    a.lookup me = some (a.recordsOf (hashValOf me)) := by
  obtain ⟨slot, hslot, ⟨hi, hu, hh⟩ | ⟨hun, hr⟩⟩ := findSlot_cases h hroom me
  · rw [lookup, hslot, Option.map_some, recordList_eq h.readable hi hu, ← hh,
      recordsOf_slot h.distinct hi hu]
  · rw [lookup, hslot, Option.map_some, recordList_unused hun, hr]

theorem toInt_of_lt {n : Nat} (h : n < 2^31) : toInt n = n := by
  have hmod : n % 2^32 = n := Nat.mod_eq_of_lt (by omega)
  rw [toInt, hmod, if_pos h]

/-- **`count`**, of a hash whose number of values is an `int`. -/
theorem count_eq (h : a.Sound) (hroom : a.usedSlots < a.numSlots) {me : Nat}
    (hlt : (a.recordsOf (hashValOf me)).length < 2^31) :
    a.count me = (a.recordsOf (hashValOf me)).length := by
  obtain ⟨slot, hslot, ⟨hi, hu, hh⟩ | ⟨hun, hr⟩⟩ := findSlot_cases h hroom me
  · have hui : ¬ (a.data slot).hash = JM_UNUSED := hu
    rw [← hh, recordsOf_slot h.distinct hi hu, slotRecords] at hlt ⊢
    simp only [count, hslot, if_neg hui]
    by_cases hn : (a.data slot).next = noNext
    · rw [if_neg (not_not.mpr hn), if_pos hn]
      rfl
    · rw [if_neg hn, List.length_cons] at hlt ⊢
      rw [if_pos hn, Nat.add_comm, toInt_of_lt hlt]
  · have hui : (a.data slot).hash = JM_UNUSED := by simpa [Used] using hun
    simp only [count, hslot, if_pos hui, hr, List.length_nil, Int.ofNat_zero]

/-- **Iteration gives every hash once, with its values.** -/
theorem iterate_perm (h : a.Readable) :
    a.iterate.Perm (a.hashes.map fun hv => (hv, a.recordsOf hv)) := by
  refine ((List.perm_insertionSort ByHash _).map _).trans (List.Perm.of_eq ?_)
  rw [hashes, slotList, List.map_filterMap, List.map_filterMap]
  refine List.filterMap_congr fun i hi => ?_
  have hi' : i < a.numSlots := List.mem_range.mp hi
  by_cases hu : a.Used i
  · have hui : (a.data i).hash ≠ JM_UNUSED := hu
    rw [if_pos hu, if_pos hui, Option.map_some, Option.map_some, recordList_eq h hi' hu,
      recordsOf_slot h.distinct hi' hu]
  · have hui : ¬ (a.data i).hash ≠ JM_UNUSED := hu
    rw [if_neg hu, if_neg hui]
    rfl

theorem mem_hashes : hv ∈ a.hashes ↔ hv ≠ JM_UNUSED ∧ ∃ i < a.numSlots, (a.data i).hash = hv := by
  rw [hashes, mem_slotList]
  constructor
  · rintro ⟨i, hi, he⟩
    by_cases hu : a.Used i
    · rw [if_pos hu, Option.some.injEq] at he
      exact ⟨he ▸ hu, i, hi, he⟩
    · rw [if_neg hu] at he
      cases he
  · rintro ⟨hne, i, hi, rfl⟩
    exact ⟨i, hi, if_pos hne⟩

/-- a hash is there as long as it has values -/
theorem mem_hashes_iff (hd : a.Distinct) : hv ∈ a.hashes ↔ a.recordsOf hv ≠ [] := by
  rw [mem_hashes]
  constructor
  · rintro ⟨hne, i, hi, rfl⟩
    rw [recordsOf_slot hd hi hne]
    exact List.cons_ne_nil _ _
  · intro hr
    refine ⟨fun e => hr (by rw [recordsOf, if_pos e]), ?_⟩
    rcases a.hash_cases hv with hyes | hno
    · exact hyes
    · exact absurd (recordsOf_absent hno) hr

theorem hashes_nodup (hd : a.Distinct) : a.hashes.Nodup := by
  rw [hashes, slotList, List.Nodup, List.pairwise_filterMap]
  refine List.pairwise_lt_range.imp_of_mem ?_
  intro i j hi hj hlt x hx y hy hxy
  have hu : a.Used i := by
    by_contra hu
    rw [if_neg hu] at hx
    cases hx
  rw [if_pos hu, Option.some.injEq] at hx
  have hu' : a.Used j := by
    by_contra hu'
    rw [if_neg hu'] at hy
    cases hy
  rw [if_pos hu', Option.some.injEq] at hy
  have := hd i (List.mem_range.mp hi) j (List.mem_range.mp hj) hu (by rw [hx, hy, hxy])
  omega

/-! ## `setUnused` -/

/-- the slot of a hash with one value is given back -/
theorem clearSlot_spec (h : a.Sound) (hi : i < a.numSlots) (hu : a.Used i) {a' : JoinPairArray V}
    (ha' : a' = a.setRecord i { a.data i with hash := JM_UNUSED, next := noNext }) :
    a'.Readable ∧ a'.recordsOf = Function.update a.recordsOf (a.data i).hash [] := by
  have hself : (a'.data i).hash = JM_UNUSED := by
    rw [ha', setRecord_data_self]
  have hother : ∀ x, x ≠ i → a'.data x = a.data x := fun x e => by
    rw [ha']
    exact setRecord_data_of_ne e
  have hnum : a'.numSlots = a.numSlots := by rw [ha']; rfl
  have hover : a'.overflows = a.overflows := by rw [ha']; rfl
  have hused : ∀ x, a'.Used x → x ≠ i ∧ a.Used x := by
    intro x hux
    have e : x ≠ i := fun e => hux (by rw [e]; exact hself)
    exact ⟨e, by rwa [Used, hother x e] at hux⟩
  have hread : a'.Readable := by
    refine ⟨fun x hx y hy hux hh => ?_, fun x hx hux hn => ?_⟩
    · rw [hnum] at hx hy
      obtain ⟨ex, hux'⟩ := hused x hux
      obtain ⟨ey, -⟩ := hused y (by rw [Used, ← hh]; exact hux)
      rw [hother x ex, hother y ey] at hh
      exact h.distinct x hx y hy hux' hh
    · rw [hnum] at hx
      obtain ⟨ex, hux'⟩ := hused x hux
      rw [hother x ex] at hn ⊢
      rw [hover]
      exact h.next_lt x hx hux' hn
  refine ⟨hread, ?_⟩
  funext k
  by_cases hk : k = JM_UNUSED
  · have hne : k ≠ (a.data i).hash := fun e => hu (e ▸ hk)
    rw [Function.update_of_ne hne, recordsOf, recordsOf, if_pos hk, if_pos hk]
  · by_cases e : k = (a.data i).hash
    · subst e
      rw [Function.update_self]
      refine recordsOf_absent fun x hx hh => ?_
      rw [hnum] at hx
      obtain ⟨ex, hux⟩ := hused x (by rw [Used, hh]; exact hu)
      rw [hother x ex] at hh
      exact ex (h.distinct x hx i hi hux hh)
    · rw [Function.update_of_ne e]
      rcases a.hash_cases k with ⟨x, hx, rfl⟩ | hno
      · have ex : x ≠ i := fun ex => e (by rw [ex])
        have hux : a'.Used x := by rw [Used, hother x ex]; exact hk
        rw [recordsOf_slot h.distinct hx hk, ← hother x ex,
          recordsOf_slot hread.distinct (by rw [hnum]; exact hx) hux, slotRecords, slotRecords,
          hother x ex, overflowItems, overflowItems, hover]
      · rw [recordsOf_absent hno]
        refine recordsOf_absent fun x hx hh => ?_
        have ex : x ≠ i := fun ex => hk (by rw [← hh, ex]; exact hself)
        rw [hnum] at hx
        rw [hother x ex] at hh
        exact hno x hx hh

/-- **`setUnused`** takes back the last value of a hash. -/
theorem setUnused_spec [Inhabited V] (h : a.Sound) (hroom : a.usedSlots < a.numSlots) (me : Nat) :
    ∃ a', a.setUnused me = some a' ∧ a'.Readable ∧ a'.layouts = a.layouts ∧ a'.recordsOf =
      Function.update a.recordsOf (hashValOf me) (a.recordsOf (hashValOf me)).dropLast := by
  obtain ⟨slot, hslot, ⟨hi, hu, hh⟩ | ⟨hun, hr⟩⟩ := findSlot_cases h hroom me
  · have hui : ¬ (a.data slot).hash = JM_UNUSED := hu
    simp only [setUnused, hslot, if_neg hui]
    rw [← hh]
    by_cases hlist : (a.data slot).next ≠ noNext ∧
        1 ≤ (a.overflowItems (a.data slot).next).length
    · obtain ⟨hn, hlen⟩ := hlist
      obtain ⟨w, hw, hok, hl⟩ := exists_overflow h hi hu hn
      rw [overflowItems_of_getElem? hw] at hlen
      rw [if_pos ⟨hn, by rw [overflowItems_of_getElem? hw]; exact hlen⟩, hw]
      obtain ⟨hs, hsame, hrec⟩ := setOverflow_spec h hi hu hn hok.pop_back hl
      refine ⟨_, rfl, hs.readable, hsame.layouts, ?_⟩
      have hne : w.items ≠ [] := fun e => by
        rw [e] at hlen
        cases hlen
      rw [hrec, recordsOf_slot h.distinct hi hu, slotRecords, if_neg hn,
        overflowItems_of_getElem? hw, List.dropLast_cons_of_ne_nil hne]
      rfl
    · rw [if_neg hlist]
      obtain ⟨hread, hrec⟩ := clearSlot_spec h hi hu rfl
      refine ⟨_, rfl, hread, rfl, ?_⟩
      have hone : a.slotRecords slot = [(a.data slot).value] := by
        rw [slotRecords]
        by_cases hn : (a.data slot).next = noNext
        · rw [if_pos hn]
        · rw [if_neg hn]
          have hlen : ¬ 1 ≤ (a.overflowItems (a.data slot).next).length := fun h' => hlist ⟨hn, h'⟩
          have hnil : a.overflowItems (a.data slot).next = [] :=
            List.eq_nil_of_length_eq_zero (by omega)
          rw [hnil]
      rw [hrec, recordsOf_slot h.distinct hi hu, hone]
      rfl
  · have hui : (a.data slot).hash = JM_UNUSED := by simpa [Used] using hun
    simp only [setUnused, hslot, if_pos hui]
    refine ⟨a, rfl, h.readable, rfl, ?_⟩
    rw [hr, List.dropLast_nil, ← hr, Function.update_eq_self]

end JoinPairArray

end Netsdb
