import Netsdb.BuiltIn.MapUndo

/-!
# A `Map` that keys are taken out of

`setUnused` frees the slot of a key.  The slot stays counted, and a search for another key that went
through it ends there from then on.

* `PairArray.Worn`          a table in which more slots are counted than are used;
* `PairArray.find?`         what a search for a key finds;
* `PDBMap.put`              `m[k] = v`, the only call that needs memory;
* `PairArray.Loose`         no other key is behind the slot on its way;
* `setUnused_loose`, `setUnused_lost`   then only the key goes, else another one is lost with it.
-/

set_option linter.unusedSectionVars false

namespace Netsdb
namespace PairArray
variable {K V : Type*} [DecidableEq K] [Hashable K] {a a' : PairArray K V} {i j slot u : Nat} {k x : K}
  {v w : V}

/-- the counter of the slots replaced -/
def withUsed (a : PairArray K V) (u : Nat) : PairArray K V := { a with usedSlots := u }

/-- what a search for the key finds -/
def find? (a : PairArray K V) (me : K) : Option V :=
  (a.findSlot me).bind fun slot => if a.Used slot then some (a.data slot).value else none

/-- every other key is still found when the slot is given back -/
def Loose (a : PairArray K V) (i : Nat) : Prop :=
  ∀ x < a.numSlots, a.Used x → x ≠ i →
    Chained (fun y => a.Used y ∧ y ≠ i) a.numSlots ((a.data x).hash % (a.numSlots - 1)) x

instance (a : PairArray K V) (i : Nat) : Decidable (a.Loose i) :=
  inferInstanceAs (Decidable (∀ x < a.numSlots, a.Used x → x ≠ i → ∃ d < a.numSlots,
    x = ((a.data x).hash % (a.numSlots - 1) + d) % a.numSlots ∧
      ∀ e < d, a.Used (((a.data x).hash % (a.numSlots - 1) + e) % a.numSlots) ∧
        ((a.data x).hash % (a.numSlots - 1) + e) % a.numSlots ≠ i))

/-- every used slot is counted, and others may be -/
structure Worn (a : PairArray K V) : Prop where
  sound : (a.withUsed a.entries.length).Sound
  counted : PDBMap.Counted a

theorem Worn.of_sound (hs : (a.withUsed u).Sound) (hc : PDBMap.Counted a) : a.Worn := by
  have hlen : u = a.entries.length := hs.used
  exact ⟨hlen ▸ hs, hc⟩

theorem Worn.room (h : a.Worn) : a.entries.length < a.numSlots := by
  have h1 := h.counted.entries
  have h2 := h.counted.used
  have h3 := PDBMap.fill_lt h.counted.two_le
  rw [h.counted.max] at h2
  exact Nat.lt_of_le_of_lt (h1.trans h2) h3

theorem Worn.hash_eq (h : a.Worn) (hi : i < a.numSlots) (hu : a.Used i) :
    (a.data i).hash = Hasher.hash (a.data i).key := h.sound.hashes i hi hu

theorem Worn.chained (h : a.Worn) (hi : i < a.numSlots) (hu : a.Used i) :
    Chained a.Used a.numSlots ((a.data i).hash % (a.numSlots - 1)) i := h.sound.chained i hi hu

/-- a key has one slot -/
theorem Worn.slot_inj (h : a.Worn) (hi : i < a.numSlots) (hj : j < a.numSlots) (hui : a.Used i)
    (huj : a.Used j) (hk : (a.data i).key = (a.data j).key) : i = j :=
  h.sound.distinct i hi j hj hui huj (beq_iff_eq.mpr hk)

/-! ## searching -/

theorem find?_slot (h : a.find? k = some v) :
    ∃ slot, a.findSlot k = some slot ∧ a.Used slot ∧ (a.data slot).value = v := by
  obtain ⟨slot, hf, hv⟩ := Option.bind_eq_some_iff.mp h
  by_cases hu : a.Used slot
  · rw [if_pos hu] at hv
    exact ⟨slot, hf, hu, Option.some.inj hv⟩
  · rw [if_neg hu] at hv
    cases hv

theorem find?_of_slot (hf : a.findSlot k = some slot) (hu : a.Used slot) :
    a.find? k = some (a.data slot).value := by
  rw [find?, hf, Option.bind_some, if_pos hu]

theorem count_eq_zero : a.count k = 0 ↔ a.find? k = none := by
  unfold count find?
  cases a.findSlot k with
  | none => exact ⟨fun _ => rfl, fun _ => rfl⟩
  | some slot =>
    show (if (a.data slot).hash = UNUSED then 0 else 1) = 0 ↔
      (if a.Used slot then some (a.data slot).value else none) = none
    by_cases hu : a.Used slot
    · rw [if_neg hu, if_pos hu]
      exact ⟨nofun, nofun⟩
    · rw [if_pos (not_not.mp hu), if_neg hu]
      exact ⟨fun _ => rfl, fun _ => rfl⟩

/-- the slot at which the search for a key ends holds the key, if it is used -/
theorem key_of_findSlot (h2 : 2 ≤ a.numSlots) (hf : a.findSlot k = some slot) (hu : a.Used slot) :
    slot < a.numSlots ∧ (a.data slot).key = k := by
  obtain ⟨hlt, hstop⟩ := findSlot_lt h2 hf
  have hused : ((a.data slot).hash == UNUSED) = false := by simpa [Used] using hu
  rw [stops, hused, Bool.false_or, Bool.and_eq_true] at hstop
  exact ⟨hlt, eq_of_beq hstop.2⟩

theorem Worn.findSlot (h : a.Worn) (hi : i < a.numSlots) (hu : a.Used i) :
    a.findSlot (a.data i).key = some i :=
  findSlot_hit (a := a.withUsed a.entries.length) h.sound hi hu BEq.rfl

/-- **A search finds what is in the table.** -/
theorem Worn.find?_eq_some (h : a.Worn) : a.find? k = some v ↔ (k, v) ∈ a.entries := by
  rw [mem_entries]
  constructor
  · intro hv
    obtain ⟨slot, hf, hu, rfl⟩ := find?_slot hv
    obtain ⟨hlt, hk⟩ := key_of_findSlot h.counted.two_le hf hu
    exact ⟨slot, hlt, hu, by rw [hk]⟩
  · rintro ⟨i, hi, hu, he⟩
    obtain ⟨rfl, rfl⟩ := Prod.mk.inj he
    exact find?_of_slot (h.findSlot hi hu) hu

theorem Worn.find?_slot_eq (h : a.Worn) (hi : i < a.numSlots) (hu : a.Used i) :
    a.find? (a.data i).key = some (a.data i).value :=
  find?_of_slot (h.findSlot hi hu) hu

theorem Worn.not_has (h : a.Worn) (hk : a.find? k = none) : ¬ a.Has k := by
  rintro ⟨i, hi, hu, he⟩
  have hv := h.find?_slot_eq hi hu
  rw [eq_of_beq he, hk] at hv
  cases hv

/-- the entries tell what is found -/
theorem Worn.find?_ext {f : K → Option V} (h : a.Worn)
    (he : ∀ x w, (x, w) ∈ a.entries ↔ f x = some w) : a.find? = f := by
  funext x
  exact Option.ext fun w => h.find?_eq_some.trans (he x w)

/-! ## writing -/

variable [Inhabited K] [Inhabited V]

/-- a write to a value -/
theorem Worn.setValue (h : a.Worn) (hs : slot < a.numSlots) (hu : a.Used slot)
    (hk : (a.data slot).key = k) (v : V) : (a.setValue slot v).Worn ∧
      (a.setValue slot v).find? = Function.update a.find? k (some v) := by
  have hkey : ((a.data slot).key == k) = true := by rw [hk]; exact BEq.rfl
  obtain ⟨hsound, hentries⟩ := setValue_spec (a := a.withUsed a.entries.length) h.sound hs hu hkey v
  have hentries' : (a.setValue slot v).entries = FiniteMap.assign a.entries k v := hentries
  have hc : PDBMap.Counted (a.setValue slot v) := by
    refine h.counted.same ⟨rfl, rfl, rfl⟩ rfl ?_
    rw [hentries', FiniteMap.assign, List.length_map]
  have hworn : (a.setValue slot v).Worn := .of_sound (u := a.entries.length) hsound hc
  have hhas : FiniteMap.Has a.entries k := has_iff.mp ⟨slot, hs, hu, hkey⟩
  refine ⟨hworn, hworn.find?_ext fun x w => ?_⟩
  rw [hentries', FiniteMap.mem_assign]
  by_cases e : x = k
  · rw [e, Function.update_self, Option.some_inj, eq_comm (a := v)]
    simp [hhas]
  · rw [Function.update_of_ne e, h.find?_eq_some]
    simp [e]

/-- a new key, in a table that is not full -/
theorem Worn.index_new (h : a.Worn) (hk : a.find? k = none) (hlt : a.usedSlots < a.maxSlots) :
    ∃ a' slot, a.index (fun _ => false) k = .ret a' slot ∧ a'.Worn ∧ slot < a'.numSlots ∧
      a'.data slot = ⟨Hasher.hash k, k, default⟩ ∧
      a'.find? = Function.update a.find? k (some default) := by
  have hnot : ¬ (a.withUsed a.entries.length).Has k := h.not_has hk
  obtain ⟨j, hj, hjlt, hun, hchain⟩ := findSlot_miss h.sound h.room (not_has_slot hnot)
  obtain ⟨hsound, hp, -⟩ := addRecord_spec h.sound h.room hnot default hjlt hun hchain
  have hret : a.index (fun _ => false) k = .ret (a.addRecord j ⟨Hasher.hash k, k, default⟩) j := by
    have hj' : a.findSlot k = some j := hj
    rw [index, hj']
    exact if_pos (by simpa [Used, withUsed] using hun)
  have hp' : (a.addRecord j ⟨Hasher.hash k, k, default⟩).entries.Perm ((k, default) :: a.entries) := hp
  have hworn : (a.addRecord j ⟨Hasher.hash k, k, default⟩).Worn :=
    .of_sound hsound (h.counted.index (fun _ => hlt) hret)
  refine ⟨_, j, hret, hworn, hjlt, setRecord_data_self _ _ _, hworn.find?_ext fun x w => ?_⟩
  rw [hp'.mem_iff, List.mem_cons, Prod.mk.injEq, ← h.find?_eq_some]
  by_cases e : x = k
  · rw [e, Function.update_self, hk, Option.some_inj, eq_comm (a := default)]
    simp
  · rw [Function.update_of_ne e]
    simp [e]

/-! ## the counter is not read when the table is doubled -/

theorem moveSlots_withUsed (fail : MapSite → Bool) (u : Nat) (is : List Nat) :
    ∀ old new : PairArray K V, moveSlots fail is (old.withUsed u) new =
      (moveSlots fail is old new).lift fun b => b.withUsed u := by
  induction is with
  | nil => exact fun old new => rfl
  | cons i is ih =>
    intro old new
    rw [moveSlots, moveSlots]
    show (if (old.data i).hash = UNUSED then _ else _) = _
    split_ifs with h0 hf
    · exact ih old new
    · rfl
    · rw [show (old.withUsed u).data = old.data from rfl]
      cases new.index (fun _ => false) (old.data i).key with
      | notEnoughSpace b => rfl
      | fatal => rfl
      | ret new' slot => exact ih (old.setRecord i { old.data i with hash := UNUSED }) _

theorem moveSlots_numSlots {fail : MapSite → Bool} (is : List Nat) :
    ∀ {old new old' new' : PairArray K V}, moveSlots fail is old new = .ret old' new' →
      new'.numSlots = new.numSlots := by
  induction is with
  | nil =>
    intro old new old' new' h
    cases h
    rfl
  | cons i is ih =>
    intro old new old' new' h
    rw [moveSlots] at h
    split_ifs at h with h0 hf
    · exact ih h
    · cases hidx : new.index (fun _ => false) (old.data i).key with
      | fatal =>
        rw [hidx] at h
        cases h
      | notEnoughSpace s =>
        rw [hidx] at h
        cases h
      | ret new₁ j =>
        rw [hidx] at h
        exact (ih h).trans (index_size hidx).1

/-- the table of twice the size is accepted -/
def CanDouble (a : PairArray K V) : Prop :=
  (create a.layout (u32 (a.layout.objSize * (a.numSlots * 2))) (a.numSlots * 2) :
    Option (PairArray K V)).isSome = true

instance (a : PairArray K V) : Decidable a.CanDouble := inferInstanceAs (Decidable (_ = true))

theorem doubleArray_withUsed (fail : MapSite → Bool) (a : PairArray K V) (u : Nat) :
    (a.withUsed u).doubleArray fail = (a.doubleArray fail).lift fun b => b.withUsed u := by
  unfold doubleArray
  dsimp only
  show (if fail .array = true then _ else _) = _
  split_ifs
  · rfl
  · rw [show (a.withUsed u).layout = a.layout from rfl,
      show (a.withUsed u).numSlots = a.numSlots from rfl]
    cases (create a.layout (u32 (a.layout.objSize * u32 (a.numSlots * 2)))
        (u32 (a.numSlots * 2)) : Option (PairArray K V)) with
    | none => rfl
    | some new => exact moveSlots_withUsed fail u (List.range a.numSlots) a new

theorem CanDouble.le (h : a.CanDouble) : a.numSlots * 2 ≤ 2^31 := by
  unfold CanDouble create at h
  by_contra hgt
  rw [if_pos (.inl (Nat.lt_of_not_le hgt))] at h
  cases h

/-- a table of twice the size, in which only the used slots are counted -/
theorem Worn.doubled (h : a.Worn) (hd : a.CanDouble) :
    ∃ old new, a.doubleArray (fun _ => false) = .ret old new ∧ new.Worn ∧ new.find? = a.find? ∧
      new.usedSlots < new.maxSlots := by
  have hle := hd.le
  have hmany : u32 (a.numSlots * 2) = a.numSlots * 2 := u32_of_lt (by omega)
  obtain ⟨b, hb⟩ := Option.isSome_iff_exists.mp hd
  obtain ⟨fail, hfail⟩ : ∃ fail : MapSite → Bool, fail = fun _ => false := ⟨_, rfl⟩
  have hno : ∀ site, fail site = false := fun site => by rw [hfail]
  obtain ⟨old, new, hrun, hs, hp, hn, -, -⟩ := doubleArray_moves h.sound hmany (hno _) hb
    fun _ _ _ => hno _
  subst hfail
  rw [doubleArray_withUsed] at hrun
  cases hrun' : a.doubleArray fun _ => false with
  | fatal =>
    rw [hrun'] at hrun
    cases hrun
  | notEnoughSpace s =>
    rw [hrun'] at hrun
    cases hrun
  | ret old₁ new₁ =>
    rw [hrun'] at hrun
    injection hrun with _ hnew
    subst hnew
    have h2 := h.counted.two_le
    have hn' : new₁.numSlots = a.numSlots * 2 := hn
    obtain ⟨hc, hused, hmax⟩ := h.counted.doubled hrun' (by omega)
    have hworn : new₁.Worn := .of_sound (u := new₁.usedSlots) hs hc
    have hp' : new₁.entries.Perm a.entries := hp
    have he := h.counted.entries
    have hu := h.counted.used
    refine ⟨old₁, new₁, rfl, hworn, hworn.find?_ext fun x w => ?_, by omega⟩
    rw [hp'.mem_iff, h.find?_eq_some]

/-- a table that cannot be doubled is not used on -/
theorem canDouble_of_ret {fail : MapSite → Bool} {old new : PairArray K V} (h : PDBMap.Counted a)
    (hrun : a.doubleArray fail = .ret old new) (hpos : 0 < new.numSlots) : a.CanDouble := by
  have hle := h.le
  cases hb : create (K := K) (V := V) a.layout (u32 (a.layout.objSize * u32 (a.numSlots * 2)))
      (u32 (a.numSlots * 2)) with
  | none =>
    simp only [doubleArray, hb] at hrun
    split_ifs at hrun
  | some b =>
    have hmove : moveSlots fail (List.range a.numSlots) a b = .ret old new := by
      simp only [doubleArray, hb] at hrun
      split_ifs at hrun
      exact hrun
    have hsize : b.numSlots = u32 (a.numSlots * 2) := by
      unfold create at hb
      split_ifs at hb
      cases hb
      rfl
    rw [moveSlots_numSlots _ hmove, hsize] at hpos
    have hmany : u32 (a.numSlots * 2) = a.numSlots * 2 := by
      unfold u32 at hpos ⊢
      omega
    rw [hmany] at hb
    rw [CanDouble, hb]
    rfl

/-! ## taking a key out -/

/-- a key that is not there -/
theorem setUnused_absent (hk : a.find? k = none) : a.setUnused k = a := by
  unfold setUnused
  cases hf : a.findSlot k with
  | none => rfl
  | some slot =>
    have hun : ¬ a.Used slot := by
      intro hu
      rw [find?_of_slot hf hu] at hk
      cases hk
    exact if_pos (not_not.mp hun)

/-- the slots of the other keys are as they were -/
theorem setUnused_slots (h : a.Worn) (hf : a.findSlot k = some slot) (hu : a.Used slot) :
    (a.setUnused k).numSlots = a.numSlots ∧ ¬ (a.setUnused k).Used slot ∧
      ∀ i, i ≠ slot → (a.setUnused k).data i = a.data i := by
  rw [(PDBMap.setUnused_found h.counted.two_le hf hu).1]
  refine ⟨rfl, fun hu' => ?_, fun i e => setRecord_data_of_ne e⟩
  rw [Used, setRecord_data_self] at hu'
  exact hu' rfl

/-- **A slot that no other key is behind is given back**: the key is gone, and nothing else. -/
theorem setUnused_loose (h : a.Worn) (hf : a.findSlot k = some slot) (hu : a.Used slot)
    (hl : a.Loose slot) : (a.setUnused k).Worn ∧
      (a.setUnused k).find? = Function.update a.find? k none := by
  obtain ⟨hlt, hkey⟩ := key_of_findSlot h.counted.two_le hf hu
  obtain ⟨hn, hfree, hother⟩ := setUnused_slots h hf hu
  have hold : ∀ i, (a.setUnused k).Used i ↔ a.Used i ∧ i ≠ slot := by
    intro i
    by_cases e : i = slot
    · rw [e]
      exact ⟨fun hu' => absurd hu' hfree, fun hu' => absurd rfl hu'.2⟩
    · rw [Used, hother i e]
      exact ⟨fun hu' => ⟨hu', e⟩, fun hu' => hu'.1⟩
  have hdata : ∀ i, (a.setUnused k).Used i → (a.setUnused k).data i = a.data i := fun i hu' =>
    hother i ((hold i).mp hu').2
  have hsound : ((a.setUnused k).withUsed (a.setUnused k).entries.length).Sound := by
    refine ⟨?_, ?_, rfl, ?_, ?_, ?_⟩
    · exact hn.symm ▸ h.sound.two_le
    · exact hn.symm ▸ h.sound.lt
    · intro i hi hui
      show ((a.setUnused k).data i).hash = Hasher.hash ((a.setUnused k).data i).key
      rw [hdata i hui]
      exact h.hash_eq (hn ▸ hi) ((hold i).mp hui).1
    · intro i hi hui
      obtain ⟨hui', hne⟩ := (hold i).mp hui
      show Chained (a.setUnused k).Used (a.setUnused k).numSlots
        (((a.setUnused k).data i).hash % ((a.setUnused k).numSlots - 1)) i
      rw [hdata i hui, hn]
      exact (hl i (hn ▸ hi) hui' hne).mono fun y hy => (hold y).mpr hy
    · intro i hi j hj hui huj hkeys
      have hkeys' : (a.data i).key = (a.data j).key := by
        rw [← hdata i hui, ← hdata j huj]
        exact eq_of_beq hkeys
      exact h.slot_inj (hn ▸ hi) (hn ▸ hj) ((hold i).mp hui).1 ((hold j).mp huj).1 hkeys'
  have hworn : (a.setUnused k).Worn := ⟨hsound, h.counted.setUnused k⟩
  refine ⟨hworn, hworn.find?_ext fun x w => ?_⟩
  rw [mem_entries, hn]
  by_cases e : x = k
  · rw [e, Function.update_self]
    refine ⟨?_, fun hnone => absurd hnone (Option.not_mem_none w)⟩
    rintro ⟨i, hi, hui, he⟩
    -- the slot is the only one with the key
    obtain ⟨hui', hne⟩ := (hold i).mp hui
    rw [hdata i hui] at he
    have hkeys : (a.data i).key = (a.data slot).key := (Prod.mk.inj he).1.symm.trans hkey.symm
    exact absurd (h.slot_inj hi hlt hui' hu hkeys) hne
  · rw [Function.update_of_ne e, h.find?_eq_some, mem_entries]
    constructor
    · rintro ⟨i, hi, hui, he⟩
      rw [hdata i hui] at he
      exact ⟨i, hi, ((hold i).mp hui).1, he⟩
    · rintro ⟨i, hi, hui, he⟩
      have hne : i ≠ slot := by
        rintro rfl
        exact e ((Prod.mk.inj he).1.trans hkey)
      have hui' := (hold i).mpr ⟨hui, hne⟩
      exact ⟨i, hi, hui', by rw [hdata i hui']; exact he⟩

/-- **A slot on the way to another key is given back**: that key is not found any more. -/
theorem setUnused_lost (h : a.Worn) (hf : a.findSlot k = some slot) (hu : a.Used slot)
    (hl : ¬ a.Loose slot) : ∃ x, x ≠ k ∧ a.find? x ≠ none ∧ (a.setUnused k).find? x = none := by
  obtain ⟨hlt, hkey⟩ := key_of_findSlot h.counted.two_le hf hu
  obtain ⟨hn, hfree, hother⟩ := setUnused_slots h hf hu
  unfold Loose at hl
  push Not at hl
  obtain ⟨i, hi, hui, hne, hbroken⟩ := hl
  refine ⟨(a.data i).key, fun e => hne ?_, ?_, ?_⟩
  · exact h.slot_inj hi hlt hui hu (e.trans hkey.symm)
  · rw [h.find?_slot_eq hi hui]
    nofun
  · obtain ⟨home, hhome⟩ : ∃ home, home = (a.data i).hash % (a.numSlots - 1) := ⟨_, rfl⟩
    have hstart : home < a.numSlots := hhome ▸ home_lt h.sound _
    obtain ⟨d, hd, hend, hall⟩ := h.chained hi hui
    rw [← hhome] at hend hall hbroken
    -- the first slot on the way that is the key's own one or the one that is free now
    have hex : ∃ e, (home + e) % a.numSlots = slot ∨ (home + e) % a.numSlots = i :=
      ⟨d, .inr hend.symm⟩
    have hle : Nat.find hex ≤ d := Nat.find_min' hex (.inr hend.symm)
    have hbefore : ∀ e < Nat.find hex, a.Used ((home + e) % a.numSlots) ∧
        (home + e) % a.numSlots ≠ slot ∧ (home + e) % a.numSlots ≠ i := by
      intro e he
      exact ⟨hall e (he.trans_le hle), not_or.mp (Nat.find_min hex he)⟩
    have hfirst : (home + Nat.find hex) % a.numSlots = slot := by
      refine (Nat.find_spec hex).resolve_right fun hat => hbroken ?_
      exact ⟨Nat.find hex, hle.trans_lt hd, hat.symm,
        fun e he => ⟨(hbefore e he).1, (hbefore e he).2.1⟩⟩
    -- the search for the key ends there
    have hfind : (a.setUnused k).findSlot (a.data i).key = some slot := by
      rw [findSlot_eq, hn, ← h.hash_eq hi hui, ← hhome, ← hfirst]
      refine probe_stop hstart (hle.trans_lt hd) (fun e he => ?_) ?_
      · obtain ⟨hue, hnslot, hni⟩ := hbefore e he
        have hused : ((a.data ((home + e) % a.numSlots)).hash == UNUSED) = false := by
          simpa [Used] using hue
        have hkeys : ((a.data ((home + e) % a.numSlots)).key == (a.data i).key) = false :=
          beq_eq_false_iff_ne.mpr fun heq =>
            hni (h.slot_inj (Nat.mod_lt _ (by omega)) hi hue hui heq)
        rw [stops, hother _ hnslot, hused, hkeys, Bool.false_or, Bool.and_false]
      · rw [hfirst, stops, not_not.mp hfree]
        rfl
    rw [find?, hfind, Option.bind_some, if_neg hfree]

end PairArray

namespace PDBMap
variable {K V : Type*} [DecidableEq K] [Hashable K] [Inhabited K] [Inhabited V] {m : PDBMap K V}
  {k : K} {l : ArrayLayout}

/-- `m[k] = v`, when no allocation fails; `none`: the call does not return -/
def put (m : PDBMap K V) (k : K) (v : V) : Option (PDBMap K V) :=
  match m.index (fun _ => false) k with
  | .ret m' slot => some (m'.setValue slot v)
  | _ => none

def find? (m : PDBMap K V) (k : K) : Option V := m.myArray.find? k

def Worn (m : PDBMap K V) : Prop := m.myArray.Worn

/-- if the table is to be doubled for the key, it can be -/
def CanPut (m : PDBMap K V) (k : K) : Prop := m.Doubles k → m.myArray.CanDouble

instance (m : PDBMap K V) (k : K) : Decidable (m.CanPut k) := inferInstanceAs (Decidable (_ → _))

theorem count_eq_zero : m.count k = 0 ↔ m.find? k = none := PairArray.count_eq_zero

/-- `operator[]` of a key that is there -/
theorem index_found {v : V} (hf : m.find? k = some v) (fail : MapSite → Bool) :
    ∃ slot, m.index fail k = .ret m slot ∧ m.myArray.findSlot k = some slot ∧
      m.myArray.Used slot ∧ (m.myArray.data slot).value = v := by
  obtain ⟨slot, hs, hu, hv⟩ := PairArray.find?_slot hf
  refine ⟨slot, ?_, hs, hu, hv⟩
  have hnot : ¬ m.Doubles k := by
    rintro ⟨hc, -⟩
    rw [count_eq_zero, hf] at hc
    cases hc
  have hidx : m.myArray.index fail k = .ret m.myArray slot := by
    rw [PairArray.index, hs]
    exact if_neg hu
  rw [index_of_not_doubles hnot, hidx]
  rfl

/-- the value of a key that is there is overwritten -/
theorem setValue_worn {slot : Nat} (h : m.Worn) (hs : m.myArray.findSlot k = some slot)
    (hu : m.myArray.Used slot) (v : V) : (m.setValue slot v).Worn ∧
      (m.setValue slot v).find? = Function.update m.find? k (some v) := by
  obtain ⟨hlt, hkey⟩ := PairArray.key_of_findSlot h.counted.two_le hs hu
  exact PairArray.Worn.setValue h hlt hu hkey v

/-- **`m[k] = v`.** -/
theorem put_spec (h : m.Worn) (hc : m.CanPut k) (v : V) :
    ∃ m', m.put k v = some m' ∧ m'.Worn ∧ m'.find? = Function.update m.find? k (some v) := by
  -- a new key comes into a table that has room
  have hnew : ∀ a : PairArray K V, a.Worn → a.find? = m.find? → m.find? k = none →
      a.usedSlots < a.maxSlots → m.index (fun _ => false) k = (a.index (fun _ => false) k).lift mk →
      ∃ m', m.put k v = some m' ∧ m'.Worn ∧ m'.find? = Function.update m.find? k (some v) := by
    intro a ha hfind hk hlt hidx
    obtain ⟨a', slot, hret, hw, hslot, hdata, hfind'⟩ := ha.index_new (by rw [hfind]; exact hk) hlt
    have hu : a'.Used slot := by
      rw [PairArray.Used, hdata]
      exact PairArray.Hasher_hash_ne k
    obtain ⟨hw', hput⟩ := hw.setValue hslot hu (by rw [hdata]) v
    refine ⟨⟨a'.setValue slot v⟩, ?_, hw', ?_⟩
    · rw [put, hidx, hret]
      rfl
    · show (a'.setValue slot v).find? = _
      rw [hput, hfind', Function.update_idem, hfind]
  by_cases hd : m.Doubles k
  · obtain ⟨old, new, hrun, hw, hfind, hlt⟩ := PairArray.Worn.doubled h (hc hd)
    exact hnew new hw hfind (count_eq_zero.mp hd.1) hlt (by rw [index_of_doubles hd, hrun])
  · cases hk : m.find? k with
    | none =>
      have hlt : m.myArray.usedSlots < m.myArray.maxSlots := by
        by_contra hge
        exact hd ⟨count_eq_zero.mpr hk, decide_eq_true (Nat.le_of_not_lt hge)⟩
      exact hnew m.myArray h rfl hk hlt (index_of_not_doubles hd)
    | some w =>
      obtain ⟨slot, hret, hs, hu, -⟩ := index_found hk fun _ => false
      obtain ⟨hw, hput⟩ := setValue_worn h hs hu v
      exact ⟨m.setValue slot v, by rw [put, hret], hw, hput⟩

theorem put_none (h : m.Worn) (hc : ¬ m.CanPut k) (v : V) : m.put k v = none := by
  obtain ⟨hd, hno⟩ := Classical.not_imp.mp hc
  unfold put
  rw [index_of_doubles hd]
  cases hrun : m.myArray.doubleArray fun _ => false with
  | fatal => rfl
  | notEnoughSpace s => rfl
  | ret old new =>
    dsimp only
    cases hidx : new.index (fun _ => false) k with
    | fatal => rfl
    | notEnoughSpace s => rfl
    | ret a' slot =>
      exact absurd (PairArray.canDouble_of_ret h.counted hrun (PairArray.index_size hidx).2) hno

/-- an empty map, with two slots -/
theorem create_worn {n : PDBMap K V} (h : create l 2 = some n) : n.Worn ∧ n.find? = fun _ => none := by
  have hc := (Called.create h).counted
  obtain ⟨a, ha, rfl⟩ := Option.map_eq_some_iff.mp h
  obtain ⟨hs, he, -⟩ := PairArray.created ha (by decide)
  have hw : a.Worn := .of_sound (u := a.usedSlots) hs hc
  refine ⟨hw, hw.find?_ext fun x w => ?_⟩
  rw [he]
  exact ⟨nofun, nofun⟩

theorem canPut_create {n : PDBMap K V} (h : create l 2 = some n) (k : K) : n.CanPut k := by
  rintro ⟨-, hfull⟩
  obtain ⟨a, ha, rfl⟩ := Option.map_eq_some_iff.mp h
  obtain ⟨hs, he, -, hmax, -⟩ := PairArray.created ha (by decide)
  have hzero : a.usedSlots = 0 := by rw [hs.used, he]; rfl
  have hge : a.maxSlots ≤ a.usedSlots := of_decide_eq_true hfull
  rw [hzero, hmax] at hge
  exact absurd hge (by decide)

end PDBMap
end Netsdb
