import Netsdb.BuiltIn.MapRetry

/-!
# `operator[]` of a `Map` that runs out of space

* `Stopped`        the old table, when `doubleArray` could not move an entry;
* `GrowsSafely`    the first entry cannot be moved, or every entry can;
* `Made`           the maps that the constructor, `operator[]` and writes to values make;
* `keeps_iff`      a call of `operator[]` that throws leaves the entries as they were just if the map
                   grows safely.
-/

set_option linter.unusedSectionVars false

namespace Netsdb
namespace PairArray
variable {K V : Type*} [BEq K] [Hashable K] {a : PairArray K V} {fail : MapSite → Bool} {k : K}

/-- the loop of the destructor: the entries that are deleted -/
def deleted (a : PairArray K V) : List (K × V) :=
  (List.range a.numSlots).filterMap fun i =>
    if (a.data i).hash = UNUSED then none else some ((a.data i).key, (a.data i).value)

theorem deleted_eq (a : PairArray K V) : a.deleted = a.entries := by
  apply List.filterMap_congr
  intro i _
  by_cases h : (a.data i).hash = UNUSED
  · rw [if_pos h]
    exact (entry_eq_none.mpr fun hu => hu h).symm
  · rw [if_neg h]
    exact (entry_of_used h).symm

/-- the first entry -/
def IsFirst (a : PairArray K V) (slot : Nat) : Prop := a.Used slot ∧ ∀ x < slot, ¬ a.Used x

instance (a : PairArray K V) (slot : Nat) : Decidable (a.IsFirst slot) :=
  inferInstanceAs (Decidable (_ ∧ _))

/-- when an entry cannot be moved, the first entry cannot -/
def FirstFails (a : PairArray K V) (fail : MapSite → Bool) : Prop :=
  ∀ j < a.numSlots, a.Used j → fail (.moved j) = true →
    ∃ i ≤ j, a.IsFirst i ∧ fail (.moved i) = true

instance (a : PairArray K V) (fail : MapSite → Bool) : Decidable (a.FirstFails fail) :=
  inferInstanceAs (Decidable (∀ j < a.numSlots, a.Used j → fail (.moved j) = true →
    ∃ i, i ≤ j ∧ a.IsFirst i ∧ fail (.moved i) = true))

/-- `old'` is what is left of the table `old`: the entries before the one in slot `j` are gone -/
structure Stopped (fail : MapSite → Bool) (is : List Nat) (old old' : PairArray K V) (j : Nat) :
    Prop where
  mem : j ∈ is
  used : old.Used j
  fails : fail (.moved j) = true
  earlier : ∀ i ∈ is, i < j → old.Used i → fail (.moved i) = false ∧ ¬ old'.Used i
  same : (∀ i ∈ is, i < j → ¬ old.Used i) → old' = old
  size : old'.numSlots = old.numSlots
  kept : ∀ x, old'.Used x → old'.data x = old.data x

variable [EquivBEq K] [LawfulHashable K] [Inhabited V]

theorem index_size {a' : PairArray K V} {slot : Nat} (h : a.index fail k = .ret a' slot) :
    a'.numSlots = a.numSlots ∧ 0 < a.numSlots := by
  unfold index at h
  have hpos : ∀ j, a.findSlot k = some j → 0 < a.numSlots := by
    intro j hj
    apply Nat.pos_of_ne_zero
    intro h0
    unfold findSlot at hj
    rw [h0] at hj
    cases hj
  cases hf : a.findSlot k with
  | none =>
    rw [hf] at h
    cases h
  | some j =>
    rw [hf] at h
    refine ⟨?_, hpos j hf⟩
    dsimp only at h
    split_ifs at h
    · cases h
      rfl
    · cases h
      rfl

theorem index_throws {a' : PairArray K V} (h : a.index fail k = .notEnoughSpace a') :
    (fail .construct || fail .copyKey) = true := by
  unfold index at h
  cases hf : a.findSlot k with
  | none =>
    rw [hf] at h
    cases h
  | some j =>
    rw [hf] at h
    dsimp only at h
    split_ifs at h with h1 h2
    exact h2

theorem setRecord_used {i j : Nat} {r : MapRecordClass K V} (h : j ≠ i) :
    (a.setRecord i r).Used j ↔ a.Used j := by
  unfold Used
  rw [setRecord_data_of_ne h]

/-- `moveSlots` with all entries moved -/
theorem moveSlots_ret (is : List Nat) (hsort : is.Pairwise (· < ·)) :
    ∀ {old new old' new' : PairArray K V}, moveSlots fail is old new = .ret old' new' →
      ∀ i ∈ is, old.Used i → fail (.moved i) = false ∧ 0 < new.numSlots := by
  induction is with
  | nil => exact fun _ i hi => absurd hi List.not_mem_nil
  | cons i is ih =>
    intro old new old' new' h j hj hu
    obtain ⟨hlt, hsort'⟩ := List.pairwise_cons.mp hsort
    rw [moveSlots] at h
    split_ifs at h with h0 hf
    · rcases List.mem_cons.mp hj with rfl | hj
      · exact absurd h0 hu
      · exact ih hsort' h j hj hu
    · cases hidx : new.index (fun _ => false) (old.data i).key with
      | fatal =>
        rw [hidx] at h
        cases h
      | notEnoughSpace s =>
        rw [hidx] at h
        cases h
      | ret new₁ slot =>
        rw [hidx] at h
        obtain ⟨hsize, hpos⟩ := index_size hidx
        rcases List.mem_cons.mp hj with rfl | hj
        · exact ⟨by simpa using hf, hpos⟩
        · have hne : j ≠ i := (hlt j hj).ne'
          obtain ⟨hfj, -⟩ := ih hsort' h j hj ((setRecord_used hne).mpr hu)
          exact ⟨hfj, hpos⟩

/-- `moveSlots` at the entry that cannot be moved -/
theorem moveSlots_stopped (is : List Nat) (hsort : is.Pairwise (· < ·)) :
    ∀ {old new old' : PairArray K V}, moveSlots fail is old new = .notEnoughSpace old' →
      ∃ j, Stopped fail is old old' j := by
  induction is with
  | nil =>
    intro old new old' h
    cases h
  | cons i is ih =>
    intro old new old' h
    obtain ⟨hlt, hsort'⟩ := List.pairwise_cons.mp hsort
    rw [moveSlots] at h
    split_ifs at h with h0 hf
    · obtain ⟨j, hst⟩ := ih hsort' h
      refine ⟨j, List.mem_cons_of_mem i hst.mem, hst.used, hst.fails, fun x hx hxj hux => ?_,
        fun hno => hst.same fun x hx => hno x (List.mem_cons_of_mem i hx), hst.size, hst.kept⟩
      rcases List.mem_cons.mp hx with rfl | hx
      · exact absurd h0 hux
      · exact hst.earlier x hx hxj hux
    · cases h
      refine ⟨i, List.mem_cons_self, h0, hf, fun x hx hxi _ => ?_, fun _ => rfl, rfl, fun _ _ => rfl⟩
      rcases List.mem_cons.mp hx with rfl | hx
      · exact absurd hxi (Nat.lt_irrefl _)
      · exact absurd (hlt x hx) (Nat.lt_asymm hxi)
    · cases hidx : new.index (fun _ => false) (old.data i).key with
      | fatal =>
        rw [hidx] at h
        cases h
      | notEnoughSpace s => exact absurd (index_throws hidx) (by simp)
      | ret new₁ slot =>
        rw [hidx] at h
        obtain ⟨j, hst⟩ := ih hsort' h
        have hij : i < j := hlt j hst.mem
        -- slot `i` is unused from now on
        have hgone : ¬ old'.Used i := by
          intro hu
          apply hu
          rw [hst.kept i hu, setRecord_data_self]
        refine ⟨j, List.mem_cons_of_mem i hst.mem, (setRecord_used hij.ne').mp hst.used, hst.fails,
          fun x hx hxj hux => ?_, fun hno => absurd h0 (hno i List.mem_cons_self hij), hst.size,
          fun x hx => ?_⟩
        · rcases List.mem_cons.mp hx with rfl | hx
          · exact ⟨by simpa using hf, hgone⟩
          · exact hst.earlier x hx hxj ((setRecord_used (hlt x hx).ne').mpr hux)
        · have hne : x ≠ i := fun e => hgone (e ▸ hx)
          rw [hst.kept x hx, setRecord_data_of_ne hne]

variable [Inhabited K]

/-- what `doubleArray` does: the state is as it was, or the entries before some entry are lost, or
all entries are in the new table -/
theorem doubleArray_outcome (h : a.Sound) (hle : a.numSlots ≤ 2^31) (hused : a.usedSlots ≠ 0) :
    a.doubleArray fail = .fatal ∨
      a.doubleArray fail = .notEnoughSpace a ∧ fail .array = true ∨
      (∃ old j, a.doubleArray fail = .notEnoughSpace old ∧ fail .array = false ∧
        Stopped fail (List.range a.numSlots) a old j) ∨
      ∃ old new, a.doubleArray fail = .ret old new ∧
        (∀ i < a.numSlots, a.Used i → fail (.moved i) = false) ∧ new.Sound ∧
        new.entries.Perm a.entries ∧ new.numSlots = a.numSlots * 2 ∧
        new.maxSlots = fill (a.numSlots * 2) ∧ a.numSlots * 2 ≤ 2^31 := by
  have h2 := h.two_le
  cases harr : fail .array with
  | true =>
    refine .inr (.inl ⟨?_, rfl⟩)
    simp only [doubleArray, harr, if_true]
  | false =>
    cases hb : create (K := K) (V := V) a.layout
        (u32 (a.layout.objSize * u32 (a.numSlots * 2))) (u32 (a.numSlots * 2)) with
    | none =>
      left
      simp only [doubleArray, harr, hb, Bool.false_eq_true, if_false]
    | some b =>
      have hrun : a.doubleArray fail = moveSlots fail (List.range a.numSlots) a b := by
        simp only [doubleArray, harr, hb, Bool.false_eq_true, if_false]
      cases hmove : moveSlots fail (List.range a.numSlots) a b with
      | fatal => exact .inl (hrun.trans hmove)
      | notEnoughSpace old =>
        obtain ⟨j, hst⟩ := moveSlots_stopped (List.range a.numSlots) List.pairwise_lt_range hmove
        exact .inr (.inr (.inl ⟨old, j, hrun.trans hmove, rfl, hst⟩))
      | ret old new =>
        have hall := moveSlots_ret (List.range a.numSlots) List.pairwise_lt_range hmove
        have hfail : ∀ i < a.numSlots, a.Used i → fail (.moved i) = false := fun i hi hu =>
          (hall i (List.mem_range.mpr hi) hu).1
        -- some entry was moved, so that the new table has slots
        obtain ⟨e, he⟩ : ∃ e, e ∈ a.entries := by
          apply List.exists_mem_of_length_pos
          rw [← h.used]
          exact Nat.pos_of_ne_zero hused
        obtain ⟨i, hi, hu, -⟩ := mem_entries.mp he
        have hpos := (hall i (List.mem_range.mpr hi) hu).2
        have hslots : b.numSlots = u32 (a.numSlots * 2) := by
          unfold create at hb
          split_ifs at hb
          cases hb
          rfl
        have hmany : u32 (a.numSlots * 2) = a.numSlots * 2 := by
          rw [hslots] at hpos
          apply u32_of_lt
          unfold u32 at hpos
          omega
        rw [hmany] at hb
        obtain ⟨-, -, -, -, -, hle'⟩ := created hb (by omega)
        obtain ⟨old', new', hret, hs, hp, hn, hmax, -⟩ :=
          doubleArray_moves h hmany harr hb hfail
        exact .inr (.inr (.inr ⟨old', new', hret, hfail, hs, hp, hn, hmax, hle'⟩))

/-- nothing is lost just if already the first entry cannot be moved -/
theorem Stopped.firstFails_iff {old : PairArray K V} {j : Nat}
    (h : Stopped fail (List.range a.numSlots) a old j) :
    a.FirstFails fail ↔ ∀ i < j, ¬ a.Used i := by
  have hj : j < a.numSlots := List.mem_range.mp h.mem
  constructor
  · intro hfirst i hi hu
    obtain ⟨x, hx, ⟨hux, hno⟩, hfx⟩ := hfirst j hj h.used h.fails
    have hxj : x = j := by
      by_contra hne
      have hlt : x < j := by omega
      have hnot := (h.earlier x (List.mem_range.mpr (hlt.trans hj)) hlt hux).1
      rw [hfx] at hnot
      cases hnot
    exact hno i (hxj ▸ hi) hu
  · intro hno i hi hu hf
    refine ⟨j, ?_, ⟨h.used, hno⟩, h.fails⟩
    by_contra hlt
    exact hno i (by omega) hu

/-- an entry that was moved is not in the old table any more -/
theorem Stopped.lost {old : PairArray K V} {i j : Nat} (hs : a.Sound)
    (h : Stopped fail (List.range a.numSlots) a old j) (hi : i < j) (hu : a.Used i) :
    ¬ old.entries.Perm a.entries := by
  intro hperm
  have hin : i < a.numSlots := hi.trans (List.mem_range.mp h.mem)
  have hmem : ((a.data i).key, (a.data i).value) ∈ old.entries :=
    hperm.mem_iff.mpr (mem_entries.mpr ⟨i, hin, hu, rfl⟩)
  obtain ⟨x, hx, hux, he⟩ := mem_entries.mp hmem
  have hdata := h.kept x hux
  rw [h.size] at hx
  have hux' : a.Used x := by
    unfold Used at hux ⊢
    rwa [hdata] at hux
  have hkey : ((a.data i).key == (a.data x).key) = true := by
    have hkeys : (a.data i).key = (old.data x).key := congrArg Prod.fst he
    rw [← hdata, hkeys]
    exact BEq.rfl
  have hix := hs.distinct i hin x hx hu hux' hkey
  exact (h.earlier i (List.mem_range.mpr hin) hi hu).2 (hix ▸ hux)

end PairArray

namespace PDBMap
variable {K V : Type*} [BEq K] [Hashable K] [Inhabited K] [Inhabited V]

/-- the condition: when the table is doubled for the key, there is no memory for the new table, or
the first entry cannot be moved, or every entry can -/
def GrowsSafely (m : PDBMap K V) (fail : MapSite → Bool) (k : K) : Prop :=
  m.Doubles k → fail .array = true ∨ m.myArray.FirstFails fail

instance (m : PDBMap K V) (fail : MapSite → Bool) (k : K) : Decidable (m.GrowsSafely fail k) :=
  inferInstanceAs (Decidable (_ → _))

/-- the maps on which `operator[]` is called -/
inductive Made : PDBMap K V → Prop
  | create {l initSize m} : create l initSize = some m → Made m
  | index {m m' fail k slot} : Made m → m.index fail k = .ret m' slot → Made m'
  /-- a value is written through the reference -/
  | write {m m' fail k slot} (v : V) : Made m → m.index fail k = .ret m' slot →
      Made (m'.setValue slot v)
  | throws {m m' fail k} : Made m → m.index fail k = .notEnoughSpace m' → m.GrowsSafely fail k →
      Made m'

/-- `m'` has the entries of `m` and can be used as before -/
structure Keeps (m m' : PDBMap K V) : Prop where
  entries : m'.myArray.entries.Perm m.myArray.entries
  count : ∀ k, m'.count k = m.count k
  index : ∀ e ∈ m.myArray.entries, ∀ fail, ∃ slot, m'.index fail e.1 = .ret m' slot ∧
    (m'.myArray.data slot).value = e.2
  iterate : m'.iterate.Perm m.myArray.entries
  deleted : m'.myArray.deleted.Perm m.myArray.entries

/-- the size is one that the constructor accepts -/
structure WellMade (m : PDBMap K V) : Prop where
  good : m.Good
  size : m.myArray.numSlots ≤ 2^31

/-- pairs are entered one after another -/
def enterAll (m : PDBMap K V) : List (K × V) → Option (PDBMap K V)
  | [] => some m
  | (k, v) :: es =>
    match m.index (fun _ => false) k with
    | .ret m' slot => enterAll (m'.setValue slot v) es
    | _ => none

variable [EquivBEq K] [LawfulHashable K] {m m' : PDBMap K V} {fail : MapSite → Bool} {k : K}

theorem keeps_of_perm (h : m.Good) (h' : m'.Good)
    (hp : m'.myArray.entries.Perm m.myArray.entries) : Keeps m m' := by
  classical
  have hhas : ∀ k, m'.myArray.Has k ↔ m.myArray.Has k := by
    intro k
    rw [PairArray.has_iff, PairArray.has_iff]
    exact FiniteMap.has_perm hp
  refine ⟨hp, fun k => ?_, fun e he fail => ?_, ?_, ?_⟩
  · show m'.myArray.count k = m.myArray.count k
    rw [count_eq h, count_eq h']
    exact if_congr (hhas k) rfl rfl
  · obtain ⟨i, hi, hu, rfl⟩ := PairArray.mem_entries.mp (hp.mem_iff.mpr he)
    obtain ⟨slot, hret, hslot, hus, hkey⟩ := index_hit fail h' ⟨i, hi, hu, BEq.rfl⟩
    have hsame := h'.sound.distinct slot hslot i hi hus hu hkey
    exact ⟨slot, hret, by rw [hsame]⟩
  · rw [iterate_eq]
    exact hp
  · rw [PairArray.deleted_eq]
    exact hp

/-- the table that `operator[]` of a new key leaves -/
theorem wellMade_of_index {a : PairArray K V} {slot : Nat} (hsize : a.numSlots ≤ 2^31)
    (hret : (a.index fail k).lift PDBMap.mk = .ret m' slot) (hgood : m'.Good)
    (hdata : m'.myArray.data slot = ⟨Hasher.hash k, k, default⟩) :
    m'.WellMade ∧ m'.myArray.Used slot ∧ ((m'.myArray.data slot).key == k) = true := by
  refine ⟨⟨hgood, ?_⟩, ?_, ?_⟩
  · cases hidx : a.index fail k with
    | fatal =>
      rw [hidx] at hret
      cases hret
    | notEnoughSpace s =>
      rw [hidx] at hret
      cases hret
    | ret a' slot' =>
      rw [hidx] at hret
      cases hret
      show a'.numSlots ≤ 2^31
      rw [(PairArray.index_size hidx).1]
      exact hsize
  · unfold PairArray.Used
    rw [hdata]
    exact PairArray.Hasher_hash_ne k
  · rw [hdata]
    exact BEq.rfl

/-- how a call of `operator[]` ends: it returns, or it throws, with the same entries just if the map
grows safely -/
inductive Ends (m : PDBMap K V) (fail : MapSite → Bool) (k : K) : Outcome (PDBMap K V) Nat → Prop
  | fatal : Ends m fail k .fatal
  | ret (n : PDBMap K V) (slot : Nat) : n.WellMade → slot < n.myArray.numSlots →
      n.myArray.Used slot → ((n.myArray.data slot).key == k) = true → Ends m fail k (.ret n slot)
  | kept (n : PDBMap K V) : m.GrowsSafely fail k → n.WellMade →
      n.myArray.entries.Perm m.myArray.entries → Ends m fail k (.notEnoughSpace n)
  | lost (n : PDBMap K V) : ¬ m.GrowsSafely fail k →
      ¬ n.myArray.entries.Perm m.myArray.entries → Ends m fail k (.notEnoughSpace n)

/-- a new key in a table with room, which has the entries of `m` -/
theorem ends_room {a : PairArray K V} (hs : a.Sound) (hmax : a.maxSlots = PairArray.fill a.numSlots)
    (hlt : a.usedSlots < a.maxSlots) (hk : ¬ a.Has k) (hsize : a.numSlots ≤ 2^31)
    (hsafe : m.GrowsSafely fail k) (hp : a.entries.Perm m.myArray.entries) :
    Ends m fail k ((a.index fail k).lift PDBMap.mk) := by
  obtain hno | ⟨m', slot, hret, hg, -, hslot, hdata⟩ := index_room fail hs hmax hlt hk
  · rw [hno]
    exact .kept _ hsafe ⟨⟨hs, hmax, hlt.le⟩, hsize⟩ hp
  · obtain ⟨hw, hu, hkey⟩ := wellMade_of_index hsize hret hg hdata
    rw [hret]
    exact .ret _ _ hw hslot hu hkey

/-- a new key in a full table -/
theorem ends_doubles (h : m.WellMade) (hk : ¬ m.myArray.Has k) (hd : m.Doubles k) :
    Ends m fail k (m.index fail k) := by
  have hsound := h.good.sound
  have hidx : m.index fail k = _ := if_pos hd
  have hused : m.myArray.usedSlots ≠ 0 := by
    have hmax := h.good.max
    have htwo := hsound.two_le
    have hover : m.myArray.maxSlots ≤ m.myArray.usedSlots := by
      simpa [PairArray.isOverFull] using hd.2
    unfold PairArray.fill at hmax
    omega
  obtain hrun | ⟨hrun, harr⟩ | ⟨old, j, hrun, harr, hst⟩ |
    ⟨old, new, hrun, hall, hs, hp, hn, hmax, hle⟩ :=
      PairArray.doubleArray_outcome hsound h.size hused
  · rw [hidx, hrun]
    exact .fatal
  · rw [hidx, hrun]
    exact .kept _ (fun _ => .inl harr) h (.refl _)
  · rw [hidx, hrun]
    by_cases hno : ∀ i < j, ¬ m.myArray.Used i
    · rw [hst.same fun i _ hi => hno i hi]
      exact .kept _ (fun _ => .inr (hst.firstFails_iff.mpr hno)) h (.refl _)
    · have hsafe : ¬ m.GrowsSafely fail k := by
        intro hsafe
        rcases hsafe hd with hf | hfirst
        · rw [harr] at hf
          cases hf
        · exact hno (hst.firstFails_iff.mp hfirst)
      push Not at hno
      obtain ⟨i, hi, hu⟩ := hno
      exact .lost _ hsafe (hst.lost hsound hi hu)
  · rw [hidx, hrun]
    have hused' : new.usedSlots = m.myArray.usedSlots := by
      rw [hs.used, hp.length_eq, hsound.used]
    have hlt : new.usedSlots < new.maxSlots := by
      have h1 := h.good.le_max
      have h2 := fill_lt_double hsound.two_le
      rw [h.good.max] at h1
      omega
    have hmax' : new.maxSlots = PairArray.fill new.numSlots := by rw [hmax, hn]
    have hk' : ¬ new.Has k := fun hh =>
      hk (PairArray.has_iff.mpr ((PairArray.has_iff.mp hh).perm hp))
    have hsafe : m.GrowsSafely fail k := by
      refine fun _ => .inr fun j hj hu hf => ?_
      rw [hall j hj hu] at hf
      cases hf
    exact ends_room hs hmax' hlt hk' (by rw [hn]; exact hle) hsafe hp

theorem index_ends (h : m.WellMade) (fail : MapSite → Bool) (k : K) :
    Ends m fail k (m.index fail k) := by
  classical
  by_cases hk : m.myArray.Has k
  · obtain ⟨slot, hret, hslot, hu, hkey⟩ := index_hit fail h.good hk
    rw [hret]
    exact .ret _ _ h hslot hu hkey
  · have hcount : m.myArray.count k = 0 := by
      rw [count_eq h.good, if_neg hk]
    by_cases hfull : m.myArray.isOverFull = true
    · exact ends_doubles h hk ⟨hcount, hfull⟩
    · have hidx : m.index fail k = (m.myArray.index fail k).lift PDBMap.mk :=
        if_neg fun hh => hfull hh.2
      have hlt : m.myArray.usedSlots < m.myArray.maxSlots := by
        simpa [PairArray.isOverFull] using hfull
      rw [hidx]
      exact ends_room h.good.sound h.good.max hlt hk h.size (fun hd => absurd hd.2 hfull) (.refl _)

theorem Made.wellMade (h : Made m) : m.WellMade := by
  induction h with
  | create hc =>
    obtain ⟨a, ha, rfl⟩ := Option.map_eq_some_iff.mp hc
    obtain ⟨hs, he, hn, hmax, -, hle⟩ := PairArray.created ha (by split <;> omega)
    refine ⟨⟨hs, ?_, ?_⟩, ?_⟩
    · show a.maxSlots = PairArray.fill a.numSlots
      rw [hmax, hn]
    · show a.usedSlots ≤ a.maxSlots
      rw [hs.used, he]
      exact Nat.zero_le _
    · show a.numSlots ≤ 2^31
      rw [hn]
      exact hle
  | @index _ _ fail k _ _ hret ih =>
    have hends := index_ends ih fail k
    rw [hret] at hends
    cases hends with
    | ret _ _ hw _ _ _ => exact hw
  | @write _ _ fail k _ v _ hret ih =>
    have hends := index_ends ih fail k
    rw [hret] at hends
    cases hends with
    | ret _ _ hw hslot hu hkey => exact ⟨(setValue_spec hw.good hslot hu hkey v).1, hw.size⟩
  | @throws _ _ fail k _ hthrow hsafe ih =>
    have hends := index_ends ih fail k
    rw [hthrow] at hends
    cases hends with
    | kept _ _ hw _ => exact hw
    | lost _ hnot _ => exact absurd hsafe hnot

theorem Made.enterAll (es : List (K × V)) : ∀ {m m' : PDBMap K V}, Made m →
    m.enterAll es = some m' → Made m' := by
  induction es with
  | nil =>
    intro m m' h hm
    cases hm
    exact h
  | cons e es ih =>
    intro m m' h hm
    unfold PDBMap.enterAll at hm
    cases hidx : m.index (fun _ => false) e.1 with
    | fatal =>
      rw [hidx] at hm
      cases hm
    | notEnoughSpace s =>
      rw [hidx] at hm
      cases hm
    | ret m₁ slot =>
      rw [hidx] at hm
      exact ih (.write e.2 h hidx) hm

/-- four slots, two of them used -/
def twoKeys : Option (PDBMap Nat Nat) :=
  (create ⟨16, 32, 0, ArrayLayout.twoWords_pos⟩ 4).bind fun m => m.enterAll [(5, 50), (6, 60)]

theorem twoKeys_made {m : PDBMap Nat Nat} (h : twoKeys = some m) : Made m := by
  obtain ⟨m₀, hm₀, hm⟩ := Option.bind_eq_some_iff.mp h
  exact (Made.create hm₀).enterAll _ hm

end PDBMap
end Netsdb
