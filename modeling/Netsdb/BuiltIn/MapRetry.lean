import Netsdb.BuiltIn.PDBMap
import Netsdb.Lib.KeySum

/-!
# `Map` when an allocation fails

* `PairArray.setUnused`   takes an entry out again; `usedSlots` is left as it is;
* `KeepsEntries`          `doubleArray` does not run out of space behind the first entry it has moved:
                          it moves entry after entry out of the old table, which stays in the map;
* `index_cases`           then a call of `operator[]` for a new key adds an entry or changes nothing;
* `Placed`, `rest`        an iterator that is kept from call to call, and the entries before it.
-/

set_option linter.unusedSectionVars false

namespace Netsdb
namespace PairArray
variable {K V : Type*} [BEq K] [Hashable K] {a : PairArray K V} {fail : MapSite → Bool} {k : K}

/-- for a key that is not there, the call does nothing but write a warning -/
def setUnused (a : PairArray K V) (me : K) : PairArray K V :=
  match a.findSlot me with
  | some slot =>
    if (a.data slot).hash = UNUSED then a
    else a.setRecord slot { a.data slot with hash := UNUSED }
  | none => a

/-- running out of space while an entry is moved loses the entries moved before it -/
def KeepsEntries (a : PairArray K V) (fail : MapSite → Bool) : Prop :=
  ∀ j < a.numSlots, a.Used j → fail (.moved j) = true → ∀ i < j, ¬ a.Used i

instance (a : PairArray K V) (fail : MapSite → Bool) : Decidable (a.KeepsEntries fail) :=
  inferInstanceAs (Decidable (∀ j < a.numSlots, a.Used j → fail (.moved j) = true →
    ∀ i < j, ¬ a.Used i))

variable [EquivBEq K] [LawfulHashable K]

/-- a value is overwritten and put back -/
theorem setValue_back (a : PairArray K V) (slot : Nat) (left : V) :
    (a.setValue slot left).setValue slot (a.data slot).value = a := by
  have hdata : (a.setValue slot left).data slot = { a.data slot with value := left } :=
    setRecord_data_self _ _ _
  have hrec : (a.setValue slot left).setValue slot (a.data slot).value =
      (a.setValue slot left).setRecord slot (a.data slot) := by
    unfold setValue at hdata ⊢
    rw [hdata]
  rw [hrec]
  show { a with data := Function.update (Function.update a.data slot _) slot (a.data slot) } = a
  rw [Function.update_idem, Function.update_eq_self]

/-- the entry of the key goes, and no other -/
theorem setUnused_spec {slot : Nat} (h : a.Sound) (hs : slot < a.numSlots) (hu : a.Used slot)
    (hk : ((a.data slot).key == k) = true) :
    a.entries.Perm (((a.data slot).key, (a.data slot).value) :: (a.setUnused k).entries) := by
  have hset : a.setUnused k = a.setRecord slot { a.data slot with hash := UNUSED } := by
    simp only [setUnused, findSlot_hit h hs hu hk]
    exact if_neg hu
  have hentry : (a.setRecord slot { a.data slot with hash := UNUSED }).entry =
      Function.update a.entry slot none := by
    rw [setRecord_entry]
    rfl
  have hback : a.entry = Function.update (Function.update a.entry slot none) slot
      (some ((a.data slot).key, (a.data slot).value)) := by
    rw [Function.update_idem, ← entry_of_used hu, Function.update_eq_self]
  have hins := slotList_insert hs (f := Function.update a.entry slot none)
    (Function.update_self slot none a.entry) ((a.data slot).key, (a.data slot).value)
  rw [← hback] at hins
  rw [hset]
  show a.entries.Perm (_ :: slotList a.numSlots (a.setRecord slot _).entry)
  rw [hentry]
  exact hins

variable [Inhabited K] [Inhabited V]

/-- nothing used is moved before the entry that fails: the old table is as it was -/
theorem moveSlots_fails {j : Nat} (hu : a.Used j) (hf : fail (.moved j) = true)
    (hfirst : ∀ i < j, ¬ a.Used i) (is : List Nat) (hj : j ∈ is) (hsort : is.Pairwise (· < ·))
    (new : PairArray K V) : moveSlots fail is a new = .notEnoughSpace a := by
  induction is with
  | nil => cases hj
  | cons i is ih =>
    obtain ⟨hlt, hsort'⟩ := List.pairwise_cons.mp hsort
    rw [moveSlots]
    rcases List.mem_cons.mp hj with rfl | hj
    · rw [if_neg hu, if_pos hf]
    · have hi : (a.data i).hash = UNUSED := not_not.mp (hfirst i (hlt j hj))
      rw [if_pos hi]
      exact ih hj hsort'

/-- `doubleArray` gives a table with the same entries, or fails and leaves the old one as it was -/
theorem doubleArray_cases (h : a.Sound) (hfits : TableFits a.layout (a.numSlots * 2))
    (hkeep : a.KeepsEntries fail) :
    a.doubleArray fail = .notEnoughSpace a ∨
      ∃ old new, a.doubleArray fail = .ret old new ∧ new.Sound ∧ new.entries.Perm a.entries ∧
        new.numSlots = a.numSlots * 2 ∧ new.maxSlots = fill (a.numSlots * 2) ∧
        new.layout = a.layout := by
  cases harr : fail .array with
  | true =>
    left
    simp only [doubleArray, harr, if_true]
  | false =>
    by_cases hno : ∀ i < a.numSlots, a.Used i → fail (.moved i) = false
    · exact .inr (doubleArray_spec h hfits harr hno)
    · left
      push Not at hno
      obtain ⟨j, hj, hu, hf⟩ := hno
      have hf' : fail (.moved j) = true := by simpa using hf
      obtain ⟨b, hb, -⟩ := create_spec (K := K) (V := V) hfits (by have := h.two_le; omega)
      have hmany : u32 (a.numSlots * 2) = a.numSlots * 2 := u32_of_lt hfits.2.lt
      have hextra : u32 (a.layout.objSize * (a.numSlots * 2)) =
          a.layout.objSize * (a.numSlots * 2) := u32_of_lt hfits.2.bytes_lt
      have hmove := moveSlots_fails hu hf' (hkeep j hj hu hf') (List.range a.numSlots)
        (List.mem_range.mpr hj) List.pairwise_lt_range b
      simp only [doubleArray, harr, hmany, hextra, hb, hmove, Bool.false_eq_true, if_false]

/-- `operator[]` of a new key: the entry comes in, or nothing is changed -/
theorem index_cases (fail : MapSite → Bool) (h : a.Sound) (hroom : a.usedSlots < a.numSlots)
    (hk : ¬ a.Has k) :
    a.index fail k = .notEnoughSpace a ∨
      ∃ a' j, a.index fail k = .ret a' j ∧ a'.Sound ∧ a'.entries.Perm ((k, default) :: a.entries) ∧
        a'.usedSlots = a.usedSlots + 1 ∧ SameSize a a' ∧ j < a'.numSlots ∧
        a'.data j = ⟨Hasher.hash k, k, default⟩ := by
  obtain ⟨a', j, hidx, hs, hp, hu, hsize, hj, hdata, -⟩ := index_miss fail h hroom hk
  cases hf : fail .construct || fail .copyKey with
  | true =>
    rw [hf, if_pos rfl] at hidx
    exact .inl hidx
  | false =>
    rw [hf] at hidx
    exact .inr ⟨a', j, hidx, hs, hp, hu, hsize, hj, hdata⟩

end PairArray

namespace PDBMap
variable {K V : Type*} [BEq K] [Hashable K] {m : PDBMap K V} {fail : MapSite → Bool} {k : K}

def setUnused (m : PDBMap K V) (clearMe : K) : PDBMap K V := ⟨m.myArray.setUnused clearMe⟩

/-- `operator[]` of the key doubles the table -/
def Doubles (m : PDBMap K V) (k : K) : Prop := m.count k = 0 ∧ m.myArray.isOverFull = true

instance (m : PDBMap K V) (k : K) : Decidable (m.Doubles k) := inferInstanceAs (Decidable (_ ∧ _))

/-- the condition on a call of `operator[]`, which may run out of space -/
def CanIndex (m : PDBMap K V) (fail : MapSite → Bool) (k : K) : Prop :=
  m.Doubles k → PairArray.TableFits m.myArray.layout (m.myArray.numSlots * 2) ∧
    m.myArray.KeepsEntries fail

instance (m : PDBMap K V) (fail : MapSite → Bool) (k : K) : Decidable (m.CanIndex fail k) :=
  inferInstanceAs (Decidable (_ → _))

variable [EquivBEq K] [LawfulHashable K] [Inhabited K] [Inhabited V]

/-- a new key in a table that has room -/
theorem index_room (fail : MapSite → Bool) {a : PairArray K V} (hs : a.Sound)
    (hmax : a.maxSlots = PairArray.fill a.numSlots) (hlt : a.usedSlots < a.maxSlots)
    (hk : ¬ a.Has k) :
    (a.index fail k).lift PDBMap.mk = .notEnoughSpace ⟨a⟩ ∨
      ∃ m' slot, (a.index fail k).lift PDBMap.mk = .ret m' slot ∧ m'.Good ∧
        m'.entries.Perm ((k, default) :: a.entries) ∧ slot < m'.myArray.numSlots ∧
        m'.myArray.data slot = ⟨Hasher.hash k, k, default⟩ := by
  have hroom : a.usedSlots < a.numSlots := by
    have := fill_lt hs.two_le
    omega
  obtain hno | ⟨a', slot, hidx, hs', hp, hu, hsize, hslot, hdata⟩ :=
    PairArray.index_cases fail hs hroom hk
  · left
    rw [hno]
    rfl
  · refine .inr ⟨⟨a'⟩, slot, ?_, ⟨hs', ?_, ?_⟩, hp, hslot, hdata⟩
    · rw [hidx]
      rfl
    · show a'.maxSlots = PairArray.fill a'.numSlots
      rw [hsize.2.1, hsize.1, hmax]
    · show a'.usedSlots ≤ a'.maxSlots
      rw [hu, hsize.2.1]
      exact hlt

/-- **`operator[]` of a new key.** -/
theorem index_cases (h : m.Good) (hk : ¬ m.myArray.Has k) (hc : m.CanIndex fail k) :
    (∃ m', m.index fail k = .notEnoughSpace m' ∧ m'.Good ∧ m'.entries.Perm m.entries) ∨
      ∃ m' slot, m.index fail k = .ret m' slot ∧ m'.Good ∧
        m'.entries.Perm ((k, default) :: m.entries) ∧ slot < m'.myArray.numSlots ∧
        m'.myArray.data slot = ⟨Hasher.hash k, k, default⟩ := by
  classical
  have hcount : m.myArray.count k = 0 := by
    have := count_eq h k
    rwa [if_neg hk] at this
  by_cases hfull : m.myArray.isOverFull = true
  · obtain ⟨hfits, hkeep⟩ := hc ⟨hcount, hfull⟩
    have hidx : m.index fail k = _ := if_pos ⟨hcount, hfull⟩
    obtain hno | ⟨old, new, hrun, hs, hp, hn, hmax, -⟩ :=
      PairArray.doubleArray_cases h.sound hfits hkeep
    · left
      rw [hno] at hidx
      exact ⟨m, hidx, h, .refl _⟩
    · rw [hrun] at hidx
      have hused : new.usedSlots = m.myArray.usedSlots := by
        rw [hs.used, hp.length_eq, h.sound.used]
      have hlt : new.usedSlots < new.maxSlots := by
        have h1 := h.le_max
        have h2 := fill_lt_double h.sound.two_le
        rw [h.max] at h1
        omega
      have hmax' : new.maxSlots = PairArray.fill new.numSlots := by rw [hmax, hn]
      have hk' : ¬ new.Has k := fun hh =>
        hk (PairArray.has_iff.mpr ((PairArray.has_iff.mp hh).perm hp))
      obtain hno | ⟨m', slot, hret, hg, hp', hslot, hdata⟩ := index_room fail hs hmax' hlt hk'
      · exact .inl ⟨⟨new⟩, hidx.trans hno, ⟨hs, hmax', hlt.le⟩, hp⟩
      · exact .inr ⟨m', slot, hidx.trans hret, hg, hp'.trans (hp.cons _), hslot, hdata⟩
  · have hidx : m.index fail k = (m.myArray.index fail k).lift PDBMap.mk :=
      if_neg fun hh => hfull hh.2
    have hlt : m.myArray.usedSlots < m.myArray.maxSlots := by
      simpa [PairArray.isOverFull] using hfull
    obtain hno | ⟨m', slot, hret, hg, hp', hslot, hdata⟩ :=
      index_room fail h.sound h.max hlt hk
    · exact .inl ⟨m, hidx.trans hno, h, .refl _⟩
    · exact .inr ⟨m', slot, hidx.trans hret, hg, hp', hslot, hdata⟩

/-! ## an iterator that is kept from call to call -/

/-- the iterator is at an entry or at the end -/
structure Placed (m : PDBMap K V) (it : PDBMapIterator) : Prop where
  le : it.slot ≤ m.myArray.numSlots
  done : it.done = (it.slot == m.myArray.numSlots)
  used : it.slot ≠ m.myArray.numSlots → m.myArray.Used it.slot

/-- the entries from the iterator on -/
def rest (m : PDBMap K V) (it : PDBMapIterator) : List (K × V) :=
  slotsFrom m.myArray.numSlots m.myArray.entry it.slot

theorem placed_begin (m : PDBMap K V) : m.Placed m.begin ∧ m.rest m.begin = m.entries := by
  obtain ⟨hle, -, hrest, hused⟩ := m.skipUnused_spec (Nat.zero_le _)
  refine ⟨⟨hle, rfl, hused⟩, ?_⟩
  show slotsFrom _ _ (m.skipUnused 0).slot = m.entries
  rw [← hrest, slotsFrom_zero]
  rfl

theorem rest_of_done {it : PDBMapIterator} (h : m.Placed it) (hd : it.done = true) :
    m.rest it = [] := by
  have hslot : it.slot = m.myArray.numSlots := by
    have := h.done
    rw [hd] at this
    exact eq_of_beq this.symm
  rw [rest, slotsFrom, hslot, Nat.sub_self]
  rfl

/-- one entry further -/
theorem placed_next {it : PDBMapIterator} (h : m.Placed it) (hd : it.done = false) :
    m.Placed (m.next it) ∧ it.slot < (m.next it).slot ∧ (m.next it).slot ≤ m.myArray.numSlots ∧
      m.rest it = ((m.myArray.data it.slot).key, (m.myArray.data it.slot).value) ::
        m.rest (m.next it) := by
  have hne : it.slot ≠ m.myArray.numSlots := by
    have := h.done
    rw [hd] at this
    exact ne_of_beq_false this.symm
  have hlt : it.slot < m.myArray.numSlots := lt_of_le_of_ne h.le hne
  obtain ⟨hle, hge, hrest, hused⟩ := m.skipUnused_spec (Nat.succ_le_of_lt hlt)
  have hnext : m.next it = m.skipUnused (it.slot + 1) := by
    unfold next
    rw [hd]
    rfl
  rw [hnext]
  refine ⟨⟨hle, rfl, hused⟩, hge, hle, ?_⟩
  rw [rest, rest, slotsFrom_step hlt, PairArray.entry_of_used (h.used hne), ← hrest]
  rfl

end PDBMap
end Netsdb
