import Netsdb.BuiltIn.MapGrowth

/-!
# `setUnused` right after `operator[]` of a `Map`

`setUnused` leaves `usedSlots` as it is.

* `MapUse`, `PDBMap.answers`   a sequence of operations, and what they return;
* `PDBMap.Restores`            the same entries, the same size, the same answers from then on;
* `PDBMap.Called`              the maps that calls on a map can leave, in any order;
* `PDBMap.not_restores`        the insertion of a key is never undone.
-/

set_option linter.unusedSectionVars false

namespace Netsdb

/-- an operation on a map; what runs out of space is told by `fail` -/
inductive MapUse (K V : Type*)
  | index (fail : MapSite → Bool) (k : K)
  /-- the value of the key is written -/
  | write (fail : MapSite → Bool) (k : K) (v : V)
  /-- `operator[]` of a key, and `setUnused` of it if it was not there -/
  | undo (fail : MapSite → Bool) (k : K)
  | count (k : K)
  | size
  | iterate

/-- what an operation returns -/
inductive MapAnswer (K V : Type*)
  | value (v : V)
  | number (n : Nat)
  | entries (l : List (K × V))

namespace PairArray
variable {K V : Type*} [BEq K] [Hashable K] [EquivBEq K] [LawfulHashable K]
  {a a' b : PairArray K V} {fail : MapSite → Bool} {k : K} {slot : Nat}

theorem entries_length_le_of (hn : a'.numSlots = a.numSlots)
    (h : ∀ i, a'.Used i → a.Used i) : a'.entries.length ≤ a.entries.length := by
  unfold entries slotList
  rw [hn, List.length_filterMap_eq_countP, List.length_filterMap_eq_countP]
  refine List.countP_mono_left fun i _ hi => ?_
  have hu : a'.Used i := by
    by_contra hu
    rw [entry_eq_none.mpr hu] at hi
    cases hi
  rw [entry_of_used (h i hu)]
  rfl

/-- no slot but one is written: there is at most one entry more -/
theorem setRecord_length_le (a : PairArray K V) (slot : Nat) (r : MapRecordClass K V) :
    (a.setRecord slot r).entries.length ≤ a.entries.length + 1 := by
  by_cases hs : slot < a.numSlots
  · have hp := slotList_update hs (f := a.entry)
      (if r.hash ≠ UNUSED then some (r.key, r.value) else none)
    rw [← setRecord_entry] at hp
    have hlen := hp.length_eq
    rw [List.length_append, List.length_append] at hlen
    have hone : (if r.hash ≠ UNUSED then some (r.key, r.value) else none).toList.length ≤ 1 := by
      split
      · exact Nat.le_refl _
      · exact Nat.zero_le _
    show (slotList a.numSlots (a.setRecord slot r).entry).length ≤
      (slotList a.numSlots a.entry).length + 1
    omega
  · have hsame : (a.setRecord slot r).entries = a.entries :=
      slotList_congr fun i hi => by
        have hne : i ≠ slot := by
          rintro rfl
          exact hs hi
        rw [setRecord_entry, Function.update_of_ne hne]
    rw [hsame]
    exact Nat.le_succ _

/-- an entry is dropped, or only its key and value are written -/
theorem setRecord_length_le_of {r : MapRecordClass K V} (h : r.hash ≠ UNUSED → a.Used slot) :
    (a.setRecord slot r).entries.length ≤ a.entries.length := by
  refine entries_length_le_of rfl fun i hu => ?_
  by_cases e : i = slot
  · subst e
    rw [Used, setRecord_data_self] at hu
    exact h hu
  · rwa [Used, setRecord_data_of_ne e] at hu

/-- where `findSlot` ends, and why -/
theorem findSlot_lt (h2 : 2 ≤ a.numSlots) (h : a.findSlot k = some slot) :
    slot < a.numSlots ∧ a.stops k slot = true := by
  rw [findSlot_eq] at h
  have hhome : Hasher.hash k % (a.numSlots - 1) < a.numSlots := by
    have := Nat.mod_lt (Hasher.hash k) (show 0 < a.numSlots - 1 by omega)
    omega
  obtain ⟨hs, d, -, rfl, -⟩ := probe_some _ hhome h
  exact ⟨Nat.mod_lt _ (by omega), hs⟩

/-- the search for a key ends at the same slot when the key is put into it, or is taken out of it -/
theorem findSlot_setRecord {r : MapRecordClass K V} (h2 : 2 ≤ a.numSlots)
    (h : a.findSlot k = some slot)
    (hr : r.hash = UNUSED ∨ r.hash = Hasher.hash k ∧ (r.key == k) = true) :
    (a.setRecord slot r).findSlot k = some slot := by
  obtain ⟨-, hstop⟩ := findSlot_lt h2 h
  have hsame : (a.setRecord slot r).stops k = a.stops k := by
    funext x
    by_cases e : x = slot
    · subst e
      rw [hstop, stops, setRecord_data_self]
      obtain hr | ⟨hr, hk⟩ := hr
      · simp [hr]
      · simp [hr, hk]
    · simp only [stops, setRecord_data_of_ne e]
  rw [findSlot_eq] at h ⊢
  rw [hsame]
  exact h

variable [Inhabited V]

/-- `operator[]` that returns: the key was there, or a new entry comes in -/
theorem index_returns (h : a.index fail k = .ret a' slot) : a.findSlot k = some slot ∧
    ((a.data slot).hash ≠ UNUSED ∧ a' = a ∨
      (a.data slot).hash = UNUSED ∧ (fail .construct || fail .copyKey) = false ∧
        a' = a.addRecord slot ⟨Hasher.hash k, k, default⟩) := by
  unfold index at h
  cases hf : a.findSlot k with
  | none =>
    rw [hf] at h
    cases h
  | some j =>
    rw [hf] at h
    dsimp only at h
    split_ifs at h with hu hfail
    · cases h
      exact ⟨rfl, .inr ⟨hu, by simpa using hfail, rfl⟩⟩
    · cases h
      exact ⟨rfl, .inl ⟨hu, rfl⟩⟩

/-- a new entry in an unused slot is counted -/
theorem addRecord_counts (slot : Nat) (r : MapRecordClass K V) (h : a.entries.length ≤ a.usedSlots)
    (hlt : a.usedSlots < 2^32 - 1) : (a.addRecord slot r).entries.length ≤
      (a.addRecord slot r).usedSlots ∧ (a.addRecord slot r).usedSlots = a.usedSlots + 1 := by
  have hused : (a.addRecord slot r).usedSlots = a.usedSlots + 1 := u32_of_lt (by omega)
  have hlen : (a.addRecord slot r).entries.length ≤ a.entries.length + 1 :=
    setRecord_length_le a slot r
  rw [hused]
  exact ⟨hlen.trans (Nat.succ_le_succ h), rfl⟩

/-- the loop of `doubleArray` counts one entry at most for each entry of the old table -/
theorem moveSlots_counts (is : List Nat) : ∀ {old new old' new' : PairArray K V},
    moveSlots fail is old new = .ret old' new' → new.entries.length ≤ new.usedSlots →
    new.usedSlots + (is.filterMap old.entry).length < 2^32 →
    new'.entries.length ≤ new'.usedSlots ∧
      new'.usedSlots ≤ new.usedSlots + (is.filterMap old.entry).length ∧
      new'.numSlots = new.numSlots ∧ new'.maxSlots = new.maxSlots := by
  induction is with
  | nil =>
    intro old new old' new' h hlen _
    cases h
    exact ⟨hlen, Nat.le_refl _, rfl, rfl⟩
  | cons i is ih =>
    intro old new old' new' h hlen hlt
    rw [moveSlots] at h
    split_ifs at h with h0 hf
    · rw [List.filterMap_cons, entry_eq_none.mpr fun hu => hu h0] at hlt ⊢
      exact ih h hlen hlt
    · rw [List.filterMap_cons, entry_of_used h0, List.length_cons] at hlt ⊢
      cases hidx : new.index (fun _ => false) (old.data i).key with
      | fatal =>
        rw [hidx] at h
        cases h
      | notEnoughSpace s =>
        rw [hidx] at h
        cases h
      | ret new₁ j =>
        rw [hidx] at h
        -- the entry of slot `i` is not in the old table any more
        have hrest : (is.filterMap (old.setRecord i { old.data i with hash := UNUSED }).entry).length ≤
            (is.filterMap old.entry).length := by
          rw [List.length_filterMap_eq_countP, List.length_filterMap_eq_countP]
          refine List.countP_mono_left fun x _ hx => ?_
          rw [setRecord_entry] at hx
          by_cases e : x = i
          · subst e
            rw [Function.update_self] at hx
            cases hx
          · rwa [Function.update_of_ne e] at hx
        -- what the call of `operator[]` leaves, and the write of the value
        obtain ⟨hused, hlen₁, hle₁, hn₁, hmax₁⟩ : new₁.Used j ∧ new₁.entries.length ≤ new₁.usedSlots ∧
            new₁.usedSlots ≤ new.usedSlots + 1 ∧ new₁.numSlots = new.numSlots ∧
            new₁.maxSlots = new.maxSlots := by
          obtain ⟨-, ⟨hused, rfl⟩ | ⟨-, -, rfl⟩⟩ := index_returns hidx
          · exact ⟨hused, hlen, Nat.le_succ _, rfl, rfl⟩
          · obtain ⟨h1, h2⟩ := addRecord_counts j
              ⟨Hasher.hash (old.data i).key, (old.data i).key, default⟩ hlen (by omega)
            refine ⟨?_, h1, h2.le, rfl, rfl⟩
            show ((new.setRecord j _).data j).hash ≠ UNUSED
            rw [setRecord_data_self]
            exact Hasher_hash_ne _
        have hlen₂ : (new₁.setValue j (old.data i).value).entries.length ≤ new₁.entries.length :=
          setRecord_length_le_of fun _ => hused
        have hsame : (new₁.setValue j (old.data i).value).usedSlots = new₁.usedSlots := rfl
        obtain ⟨h3, h4, h5, h6⟩ := ih h (by omega) (by omega)
        refine ⟨h3, ?_, h5.trans hn₁, h6.trans hmax₁⟩
        omega

/-- the loop of `doubleArray` when it throws: entries are gone, and nothing else -/
theorem moveSlots_throws (is : List Nat) : ∀ {old new old' : PairArray K V},
    moveSlots fail is old new = .notEnoughSpace old' → old'.usedSlots = old.usedSlots ∧
      SameSize old old' ∧ ∀ x, old'.Used x → old.Used x := by
  induction is with
  | nil =>
    intro old new old' h
    cases h
  | cons i is ih =>
    intro old new old' h
    rw [moveSlots] at h
    split_ifs at h with h0 hf
    · exact ih h
    · cases h
      exact ⟨rfl, ⟨rfl, rfl, rfl⟩, fun _ hu => hu⟩
    · cases hidx : new.index (fun _ => false) (old.data i).key with
      | fatal =>
        rw [hidx] at h
        cases h
      | notEnoughSpace s => exact absurd (index_throws hidx) (by simp)
      | ret new₁ j =>
        rw [hidx] at h
        obtain ⟨h1, h2, h3⟩ := ih h
        refine ⟨h1, h2, fun x hu => ?_⟩
        by_cases e : x = i
        · rw [e]
          exact h0
        · have hu' := h3 x hu
          rwa [Used, setRecord_data_of_ne e] at hu'

end PairArray

namespace PDBMap
variable {K V : Type*} [BEq K] [Hashable K] [EquivBEq K] [LawfulHashable K] [Inhabited K]
  [Inhabited V] {m m' m₂ : PDBMap K V} {fail : MapSite → Bool} {k : K} {slot : Nat}

/-- one operation; `none`: the call does not return -/
def use (m : PDBMap K V) : MapUse K V → Option (PDBMap K V × MapAnswer K V)
  | .index fail k =>
    match m.index fail k with
    | .ret m' slot => some (m', .value (m'.myArray.data slot).value)
    | _ => none
  | .write fail k v =>
    match m.index fail k with
    | .ret m' slot => some (m'.setValue slot v, .value v)
    | _ => none
  | .undo fail k =>
    match m.index fail k with
    | .ret m' _ => some (if m.count k = 0 then m'.setUnused k else m', .number (m.count k))
    | _ => none
  | .count k => some (m, .number (m.count k))
  | .size => some (m, .number m.size)
  | .iterate => some (m, .entries m.iterate)

/-- what a sequence of operations returns -/
def answers : PDBMap K V → List (MapUse K V) → Option (List (MapAnswer K V))
  | _, [] => some []
  | m, u :: us => (m.use u).bind fun x => (answers x.1 us).map (x.2 :: ·)

/-- `m₂` is as `m` was -/
structure Restores (m m₂ : PDBMap K V) : Prop where
  entries : m₂.entries.Perm m.entries
  iterate : m₂.iterate = m.iterate
  size : m₂.size = m.size
  /-- as long as every call returns -/
  later : ∀ us l l₂, m.answers us = some l → m₂.answers us = some l₂ → l₂ = l

/-- the maps that calls on a map can leave -/
inductive Called : PDBMap K V → Prop
  | create {l : ArrayLayout} {initSize : Nat} {n : PDBMap K V} : create l initSize = some n → Called n
  | index {n n' : PDBMap K V} {f : MapSite → Bool} {x : K} {i : Nat} : Called n →
      n.index f x = .ret n' i → Called n'
  /-- through a reference -/
  | write {n : PDBMap K V} (i : Nat) (v : V) : Called n → n.myArray.Used i → Called (n.setValue i v)
  | throws {n n' : PDBMap K V} {f : MapSite → Bool} {x : K} : Called n →
      n.index f x = .notEnoughSpace n' → Called n'
  | setUnused {n : PDBMap K V} (x : K) : Called n → Called (n.setUnused x)

/-- what every call keeps, also when the probe chains are broken -/
structure Counted (a : PairArray K V) : Prop where
  two_le : 2 ≤ a.numSlots
  le : a.numSlots ≤ 2^31
  max : a.maxSlots = PairArray.fill a.numSlots
  entries : a.entries.length ≤ a.usedSlots
  used : a.usedSlots ≤ a.maxSlots

theorem Counted.same {a a' : PairArray K V} (h : Counted a) (hs : PairArray.SameSize a a')
    (hu : a'.usedSlots = a.usedSlots) (hlen : a'.entries.length ≤ a.entries.length) : Counted a' := by
  refine ⟨hs.1 ▸ h.two_le, hs.1 ▸ h.le, ?_, ?_, ?_⟩
  · rw [hs.1, hs.2.1]
    exact h.max
  · rw [hu]
    exact hlen.trans h.entries
  · rw [hu, hs.2.1]
    exact h.used

/-- `operator[]` finds the key, or the table is not full -/
theorem Counted.index {a a' : PairArray K V} (h : Counted a)
    (hroom : a.count k = 0 → a.usedSlots < a.maxSlots) (hret : a.index fail k = .ret a' slot) :
    Counted a' := by
  obtain ⟨hfind, ⟨-, rfl⟩ | ⟨hun, -, rfl⟩⟩ := PairArray.index_returns hret
  · exact h
  · have hlt : a.usedSlots < a.maxSlots := by
      apply hroom
      rw [PairArray.count, hfind]
      exact if_pos hun
    have hmax := fill_lt h.two_le
    have hle := h.le
    rw [← h.max] at hmax
    obtain ⟨h1, h2⟩ := PairArray.addRecord_counts slot
      ⟨Hasher.hash k, k, default⟩ h.entries (by omega)
    exact ⟨h.two_le, hle, h.max, h1, by rw [h2]; exact hlt⟩

/-- the new table has slots just if a key can be looked for in it -/
theorem Counted.doubled {a old new : PairArray K V} (h : Counted a)
    (hrun : a.doubleArray fail = .ret old new) (hpos : 0 < new.numSlots) :
    Counted new ∧ new.usedSlots ≤ a.entries.length ∧ a.maxSlots < new.maxSlots := by
  have h2 := h.two_le
  have hle := h.le
  have hfill := fill_lt h2
  have hfill2 := fill_lt_double h2
  have he := h.entries
  have hu := h.used
  rw [h.max] at hu
  cases hb : PairArray.create (K := K) (V := V) a.layout
      (u32 (a.layout.objSize * u32 (a.numSlots * 2))) (u32 (a.numSlots * 2)) with
  | none =>
    simp only [PairArray.doubleArray, hb] at hrun
    split_ifs at hrun
  | some b =>
    have hmove : PairArray.moveSlots fail (List.range a.numSlots) a b = .ret old new := by
      simp only [PairArray.doubleArray, hb] at hrun
      split_ifs at hrun
      exact hrun
    have hempty : b.entries = [] ∧ b.usedSlots = 0 ∧ b.numSlots = u32 (a.numSlots * 2) ∧
        b.maxSlots = PairArray.fill (u32 (a.numSlots * 2)) ∧ u32 (a.numSlots * 2) ≤ 2^31 := by
      unfold PairArray.create at hb
      split_ifs at hb with hbad
      cases hb
      refine ⟨?_, rfl, rfl, rfl, Nat.le_of_not_lt fun hlt => hbad (.inl hlt)⟩
      refine List.filterMap_eq_nil_iff.mpr fun i _ => PairArray.entry_eq_none.mpr fun hu => hu rfl
    obtain ⟨hb1, hb2, hb3, hb4, hb5⟩ := hempty
    have hlen : ((List.range a.numSlots).filterMap a.entry).length = a.entries.length := rfl
    obtain ⟨h3, h4, h5, h6⟩ := PairArray.moveSlots_counts (List.range a.numSlots) hmove
      (by rw [hb1, hb2]; exact Nat.le_refl _) (by rw [hb2, hlen]; omega)
    rw [hb2, hlen, Nat.zero_add] at h4
    have hmany : u32 (a.numSlots * 2) = a.numSlots * 2 := by
      rw [h5, hb3] at hpos
      unfold u32 at hpos ⊢
      omega
    rw [hmany] at hb3 hb4 hb5
    refine ⟨⟨?_, ?_, ?_, h3, ?_⟩, h4, ?_⟩
    · rw [h5, hb3]
      omega
    · rw [h5, hb3]
      exact hb5
    · rw [h6, h5, hb3, hb4]
    · rw [h6, hb4]
      omega
    · rw [h6, hb4, h.max]
      exact hfill2

theorem findSlot_pos {a : PairArray K V} (h : a.findSlot k = some slot) : 0 < a.numSlots := by
  apply Nat.pos_of_ne_zero
  intro h0
  unfold PairArray.findSlot at h
  rw [h0] at h
  cases h

theorem index_of_doubles (hd : m.Doubles k) : m.index fail k =
    match m.myArray.doubleArray fail with
    | .ret _ temp => (temp.index fail k).lift PDBMap.mk
    | .notEnoughSpace old => .notEnoughSpace ⟨old⟩
    | .fatal => .fatal := if_pos hd

theorem index_of_not_doubles (hd : ¬ m.Doubles k) :
    m.index fail k = (m.myArray.index fail k).lift PDBMap.mk := if_neg hd

theorem lift_ret {a : PairArray K V} (h : (a.index fail k).lift PDBMap.mk = .ret m' slot) :
    a.index fail k = .ret m'.myArray slot := by
  cases hidx : a.index fail k with
  | fatal =>
    rw [hidx] at h
    cases h
  | notEnoughSpace s =>
    rw [hidx] at h
    cases h
  | ret a' s =>
    rw [hidx] at h
    cases h
    rfl

theorem lift_throws {a : PairArray K V} (h : (a.index fail k).lift PDBMap.mk = .notEnoughSpace m') :
    a = m'.myArray ∧ ∃ slot, a.findSlot k = some slot := by
  unfold PairArray.index at h
  cases hf : a.findSlot k with
  | none =>
    rw [hf] at h
    cases h
  | some j =>
    rw [hf] at h
    dsimp only at h
    split_ifs at h
    · cases h
      exact ⟨rfl, j, rfl⟩
    · cases h
    · cases h

/-- `operator[]` in the table as it is, or in the table of twice the size -/
theorem index_table (h : Counted m.myArray) (hret : m.index fail k = .ret m' slot) :
    ∃ a, Counted a ∧ a.index fail k = .ret m'.myArray slot ∧
      ((a = m.myArray ∧ ¬ m.Doubles k) ∨
        (m.Doubles k ∧ a.usedSlots ≤ m.myArray.entries.length ∧ m.myArray.maxSlots < a.maxSlots)) := by
  by_cases hd : m.Doubles k
  · rw [index_of_doubles hd] at hret
    cases hrun : m.myArray.doubleArray fail with
    | fatal =>
      rw [hrun] at hret
      cases hret
    | notEnoughSpace s =>
      rw [hrun] at hret
      cases hret
    | ret old new =>
      rw [hrun] at hret
      have hidx := lift_ret hret
      obtain ⟨hc, hle, hlt⟩ := h.doubled hrun (findSlot_pos (PairArray.index_returns hidx).1)
      exact ⟨new, hc, hidx, .inr ⟨hd, hle, hlt⟩⟩
  · rw [index_of_not_doubles hd] at hret
    exact ⟨m.myArray, h, lift_ret hret, .inl ⟨rfl, hd⟩⟩

/-- the map that a call of `operator[]` leaves when it throws -/
theorem counted_throws (h : Counted m.myArray) (hthrow : m.index fail k = .notEnoughSpace m') :
    Counted m'.myArray := by
  by_cases hd : m.Doubles k
  · rw [index_of_doubles hd] at hthrow
    cases hrun : m.myArray.doubleArray fail with
    | fatal =>
      rw [hrun] at hthrow
      cases hthrow
    | notEnoughSpace old =>
      rw [hrun] at hthrow
      cases hthrow
      show Counted old
      unfold PairArray.doubleArray at hrun
      dsimp only at hrun
      split_ifs at hrun with hf
      · cases hrun
        exact h
      · cases hb : PairArray.create (K := K) (V := V) m.myArray.layout
          (u32 (m.myArray.layout.objSize * u32 (m.myArray.numSlots * 2)))
          (u32 (m.myArray.numSlots * 2)) with
        | none =>
          rw [hb] at hrun
          cases hrun
        | some b =>
          rw [hb] at hrun
          obtain ⟨h1, h2, h3⟩ := PairArray.moveSlots_throws _ hrun
          exact h.same h2 h1 (PairArray.entries_length_le_of h2.1 h3)
    | ret old new =>
      rw [hrun] at hthrow
      obtain ⟨rfl, s, hs⟩ := lift_throws hthrow
      exact (h.doubled hrun (findSlot_pos hs)).1
  · rw [index_of_not_doubles hd] at hthrow
    obtain ⟨he, -⟩ := lift_throws hthrow
    rw [← he]
    exact h

theorem setUnused_same (a : PairArray K V) (k : K) :
    (a.setUnused k).usedSlots = a.usedSlots ∧ (a.setUnused k).maxSlots = a.maxSlots := by
  unfold PairArray.setUnused
  cases a.findSlot k with
  | none => exact ⟨rfl, rfl⟩
  | some slot =>
    dsimp only
    split
    · exact ⟨rfl, rfl⟩
    · exact ⟨rfl, rfl⟩

theorem Counted.setUnused {a : PairArray K V} (h : Counted a) (k : K) : Counted (a.setUnused k) := by
  unfold PairArray.setUnused
  cases a.findSlot k with
  | none => exact h
  | some slot =>
    dsimp only
    split
    · exact h
    · exact h.same ⟨rfl, rfl, rfl⟩ rfl (PairArray.setRecord_length_le_of fun hne => absurd rfl hne)

theorem Called.counted (h : Called m) : Counted m.myArray := by
  induction h with
  | create hc =>
    obtain ⟨a, ha, rfl⟩ := Option.map_eq_some_iff.mp hc
    have h2 : ∀ n : Nat, 2 ≤ if n < 2 then 2 else n := fun n => by split <;> omega
    obtain ⟨hs, he, hn, hmax, -, hle⟩ := PairArray.created ha (h2 _)
    exact ⟨hn ▸ h2 _, hn ▸ hle, by rw [hmax, hn], by rw [he]; exact Nat.zero_le _,
      by rw [hs.used, he]; exact Nat.zero_le _⟩
  | @index n n' f x i _ hret ih =>
    obtain ⟨a, ha, hidx, ⟨rfl, hd⟩ | ⟨-, hle, hlt⟩⟩ := index_table ih hret
    · refine ih.index (fun hzero => ?_) hidx
      have hnot : ¬ n.myArray.isOverFull = true := fun hf => hd ⟨hzero, hf⟩
      simpa [PairArray.isOverFull] using hnot
    · refine ha.index (fun _ => ?_) hidx
      have h1 := ih.entries
      have h2 := ih.used
      omega
  | write i v _ hu ih =>
    exact ih.same ⟨rfl, rfl, rfl⟩ rfl (PairArray.setRecord_length_le_of fun _ => hu)
  | throws _ hthrow ih => exact counted_throws ih hthrow
  | setUnused x _ ih => exact ih.setUnused x

/-- the slot of a key that was taken out is unused, and there is one entry less -/
theorem setUnused_found {a : PairArray K V} (h2 : 2 ≤ a.numSlots) (hf : a.findSlot k = some slot)
    (hu : a.Used slot) : a.setUnused k = a.setRecord slot { a.data slot with hash := UNUSED } ∧
      (a.setUnused k).entries.length + 1 = a.entries.length := by
  have hset : a.setUnused k = a.setRecord slot { a.data slot with hash := UNUSED } := by
    simp only [PairArray.setUnused, hf]
    exact if_neg hu
  refine ⟨hset, ?_⟩
  obtain ⟨hs, -⟩ := PairArray.findSlot_lt h2 hf
  have hp := slotList_update hs (f := a.entry) none
  rw [PairArray.entry_of_used hu] at hp
  have hentry := PairArray.setRecord_entry a slot { a.data slot with hash := UNUSED }
  rw [if_neg fun hne => hne rfl] at hentry
  rw [← hentry] at hp
  have hlen := hp.length_eq
  rw [List.length_append, List.length_append] at hlen
  rw [hset]
  exact hlen

/-- a new key that was entered and taken out: its slot is found again, and it counts -/
theorem addRecord_setUnused {a : PairArray K V} (h2 : 2 ≤ a.numSlots)
    (hf : a.findSlot k = some slot) :
    ((a.addRecord slot ⟨Hasher.hash k, k, default⟩).setUnused k).findSlot k = some slot ∧
      (((a.addRecord slot ⟨Hasher.hash k, k, default⟩).setUnused k).data slot).hash = UNUSED := by
  obtain ⟨b, hb⟩ : ∃ b, b = a.addRecord slot ⟨Hasher.hash k, k, default⟩ := ⟨_, rfl⟩
  have hself : b.data slot = ⟨Hasher.hash k, k, default⟩ := by
    rw [hb]
    exact PairArray.setRecord_data_self a slot _
  have hfb : b.findSlot k = some slot := by
    rw [hb]
    exact PairArray.findSlot_setRecord (r := ⟨Hasher.hash k, k, default⟩) h2 hf (.inr ⟨rfl, BEq.rfl⟩)
  have hub : b.Used slot := by
    rw [PairArray.Used, hself]
    exact PairArray.Hasher_hash_ne k
  have h2b : 2 ≤ b.numSlots := by
    rw [hb]
    exact h2
  rw [← hb, (setUnused_found h2b hfb hub).1]
  exact ⟨PairArray.findSlot_setRecord h2b hfb (.inl rfl),
    by rw [PairArray.setRecord_data_self]⟩

/-- a key enters a table that is not full, and the size is asked for -/
theorem answers_new {a : PairArray K V} (ha : m.myArray = a) (hd : ¬ m.Doubles k)
    (hf : a.findSlot k = some slot) (hun : (a.data slot).hash = UNUSED)
    (hfail : (fail .construct || fail .copyKey) = false) :
    m.answers [.index fail k, .size] = some [.value default, .number (u32 (a.usedSlots + 1))] := by
  have hidx : a.index fail k = .ret (a.addRecord slot ⟨Hasher.hash k, k, default⟩) slot := by
    rw [PairArray.index, hf]
    dsimp only
    rw [if_pos hun, hfail]
    rfl
  have hret : m.index fail k = .ret ⟨a.addRecord slot ⟨Hasher.hash k, k, default⟩⟩ slot := by
    rw [index_of_not_doubles hd, ha, hidx]
    rfl
  have hself : (a.addRecord slot ⟨Hasher.hash k, k, default⟩).data slot =
      ⟨Hasher.hash k, k, default⟩ := PairArray.setRecord_data_self a slot _
  simp only [answers, use, hret, hself]
  rfl

/-- **The insertion of a key is never undone.** -/
theorem not_restores (h : Called m) (hnew : m.count k = 0) (hret : m.index fail k = .ret m' slot) :
    ¬ Restores m (m'.setUnused k) := by
  intro hres
  have hm := h.counted
  have hmu := hm.used
  have hml := hm.le
  have hmf := fill_lt hm.two_le
  rw [← hm.max] at hmf
  have hsize : m'.myArray.usedSlots = m.myArray.usedSlots := by
    rw [← (setUnused_same m'.myArray k).1]
    exact hres.size
  obtain ⟨a, ha, hidx, hcase⟩ := index_table hm hret
  have h2 := ha.two_le
  obtain ⟨hf, ⟨hu, he⟩ | ⟨hun, hfail, he⟩⟩ := PairArray.index_returns hidx
  · obtain ⟨rfl, -⟩ | ⟨-, hle, -⟩ := hcase
    · -- the key is not in the table
      have hone : m.myArray.count k = 1 := by
        rw [PairArray.count, hf]
        exact if_neg hu
      rw [PDBMap.count, hone] at hnew
      cases hnew
    · -- the key comes back to light in the new table: it is gone now
      have hlen := (setUnused_found h2 hf hu).2
      have hperm := hres.entries.length_eq
      have hae := ha.entries
      rw [show (m'.setUnused k).entries = (m'.myArray.setUnused k).entries from rfl, he,
        show m.entries = m.myArray.entries from rfl] at hperm
      omega
  · have hlt : a.usedSlots < 2^32 - 1 := by
      have h1 := ha.used
      have h3 := ha.le
      have h4 := fill_lt h2
      rw [ha.max] at h1
      omega
    have hone : m'.myArray.usedSlots = a.usedSlots + 1 := by
      rw [he]
      exact (PairArray.addRecord_counts slot _ ha.entries hlt).2
    obtain ⟨rfl, -⟩ | ⟨hd, -, hmax⟩ := hcase
    · omega
    · -- the sizes agree, but the next insertion of the key counts it again
      obtain ⟨hf₂, hun₂⟩ := addRecord_setUnused h2 hf
      rw [← he] at hf₂ hun₂
      have hused₂ : (m'.setUnused k).myArray.usedSlots = a.usedSlots + 1 :=
        (setUnused_same m'.myArray k).1.trans hone
      have hmax₂ : (m'.setUnused k).myArray.maxSlots = a.maxSlots := by
        rw [show (m'.setUnused k).myArray = m'.myArray.setUnused k from rfl,
          (setUnused_same m'.myArray k).2, he]
        rfl
      have hd₂ : ¬ (m'.setUnused k).Doubles k := by
        rintro ⟨-, hfull⟩
        have hfull' : a.maxSlots ≤ a.usedSlots + 1 := by
          rw [← hmax₂, ← hused₂]
          exact of_decide_eq_true hfull
        omega
      have hans : m.answers [.index fail k, .size] =
          some [.value (m'.myArray.data slot).value, .number m'.myArray.usedSlots] := by
        simp only [answers, use, hret]
        rfl
      have hans₂ := answers_new (m := m'.setUnused k) rfl hd₂ hf₂ hun₂ hfail
      have heq := hres.later _ _ _ hans hans₂
      rw [hused₂, hone, u32_of_lt (by omega)] at heq
      injection heq with _ heq
      injection heq with heq _
      injection heq with heq
      omega

end PDBMap
end Netsdb
