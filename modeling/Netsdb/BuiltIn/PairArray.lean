import Netsdb.BuiltIn.Storage
import Netsdb.Lib.FiniteMap
import Netsdb.Lib.Probe

/-!
# The hash table of `Map` (`PairArray.cc`)

* `PairArray.count`, `PairArray.index`   the loops of `count` and `operator[]`;
* `PairArray.doubleArray`                moves the entries into a table of twice the size;
* `PairArray.Sound`                      no free slot between an entry's home slot and its place.

A call is told by `fail` which of its steps run out of space.
-/

set_option linter.unusedSectionVars false

namespace Netsdb

structure MapRecordClass (K V : Type*) where
  hash : Nat
  key : K
  value : V

/-- tells us when a hash slot is unused -/
def UNUSED : Nat := 493295393

/-- `Hasher::hash`, which does not return `UNUSED` -/
def Hasher.hash {K : Type*} [Hashable K] (k : K) : Nat :=
  let temp := (Hashable.hash k).toNat
  if temp = UNUSED then 858931273 else temp

structure PairArray (K V : Type*) where
  layout : ArrayLayout
  usedSlots : Nat
  numSlots : Nat
  maxSlots : Nat
  data : Nat → MapRecordClass K V

/-- the steps that allocate -/
inductive MapSite
  /-- the memory for the new table, in `doubleArray` -/
  | array
  /-- the entry of slot `i` built in the new table -/
  | moved (i : Nat)
  /-- `new KeyType ()` and `new ValueType ()` -/
  | construct
  /-- the assignment of the key -/
  | copyKey
deriving DecidableEq, Repr

namespace PairArray
variable {K V : Type*}

/-- `.667` times the number of slots -/
def fill (n : Nat) : Nat := n * 667 / 1000

/-- the constructor; `none`: the size is not accepted, or the slots are not all in the storage -/
def create [Inhabited K] [Inhabited V] (l : ArrayLayout) (extra numSlotsIn : Nat) :
    Option (PairArray K V) :=
  if 2^31 < numSlotsIn ∨ l.storage extra < l.objSize * numSlotsIn then none
  else some ⟨l, 0, numSlotsIn, fill numSlotsIn, fun _ => ⟨UNUSED, default, default⟩⟩

def isOverFull (a : PairArray K V) : Bool := decide (a.maxSlots ≤ a.usedSlots)

/-- the slot of `me`, or the unused slot that ends the search for it -/
def findSlot [BEq K] [Hashable K] (a : PairArray K V) (me : K) : Option Nat :=
  let hashVal := Hasher.hash me
  probe (fun slot => (a.data slot).hash == UNUSED ||
    ((a.data slot).hash == hashVal && (a.data slot).key == me)) a.numSlots a.numSlots
    (hashVal % (a.numSlots - 1))

def count [BEq K] [Hashable K] (a : PairArray K V) (me : K) : Nat :=
  match a.findSlot me with
  | some slot => if (a.data slot).hash = UNUSED then 0 else 1
  -- ran off the end of the hash table
  | none => 0

def setRecord (a : PairArray K V) (slot : Nat) (r : MapRecordClass K V) : PairArray K V :=
  { a with data := Function.update a.data slot r }

/-- a write through a reference to a value -/
def setValue (a : PairArray K V) (slot : Nat) (v : V) : PairArray K V :=
  a.setRecord slot { a.data slot with value := v }

/-- a new entry -/
def addRecord (a : PairArray K V) (slot : Nat) (r : MapRecordClass K V) : PairArray K V :=
  { a.setRecord slot r with usedSlots := u32 (a.usedSlots + 1) }

/-- `operator[]`; the result is the slot of the value -/
def index [BEq K] [Hashable K] [Inhabited V] (fail : MapSite → Bool) (a : PairArray K V) (me : K) :
    Outcome (PairArray K V) Nat :=
  match a.findSlot me with
  | some slot =>
    if (a.data slot).hash = UNUSED then
      if fail .construct || fail .copyKey then .notEnoughSpace a
      else .ret (a.addRecord slot ⟨Hasher.hash me, me, default⟩) slot
    else .ret a slot
  | none => .fatal

/-- the loop of `doubleArray`, over the slots in the list -/
def moveSlots [BEq K] [Hashable K] [Inhabited V] (fail : MapSite → Bool) :
    List Nat → PairArray K V → PairArray K V → Outcome (PairArray K V) (PairArray K V)
  | [], old, new => .ret old new
  | i :: rest, old, new =>
    if (old.data i).hash = UNUSED then moveSlots fail rest old new
    else if fail (.moved i) then .notEnoughSpace old
    else
      match new.index (fun _ => false) (old.data i).key with
      | .ret new' slot =>
        moveSlots fail rest (old.setRecord i { old.data i with hash := UNUSED })
          (new'.setValue slot (old.data i).value)
      | .notEnoughSpace _ => .notEnoughSpace old
      | .fatal => .fatal

/-- the old array is left without the entries that were moved -/
def doubleArray [BEq K] [Hashable K] [Inhabited K] [Inhabited V] (fail : MapSite → Bool)
    (a : PairArray K V) : Outcome (PairArray K V) (PairArray K V) :=
  let howMany := u32 (a.numSlots * 2)
  if fail .array then .notEnoughSpace a
  else
    match create a.layout (u32 (a.layout.objSize * howMany)) howMany with
    | some new => moveSlots fail (List.range a.numSlots) a new
    | none => .fatal

/-! ## the contents -/

variable (a : PairArray K V)

def Used (slot : Nat) : Prop := (a.data slot).hash ≠ UNUSED

instance (slot : Nat) : Decidable (a.Used slot) := inferInstanceAs (Decidable (_ ≠ _))

def entry (slot : Nat) : Option (K × V) :=
  if a.Used slot then some ((a.data slot).key, (a.data slot).value) else none

def entries : List (K × V) := slotList a.numSlots a.entry

structure Sound [BEq K] [Hashable K] : Prop where
  two_le : 2 ≤ a.numSlots
  lt : a.numSlots < 2^32
  used : a.usedSlots = a.entries.length
  hashes : ∀ i < a.numSlots, a.Used i → (a.data i).hash = Hasher.hash (a.data i).key
  /-- no unused slot between the home slot and the place -/
  chained : ∀ i < a.numSlots, a.Used i →
    Chained a.Used a.numSlots ((a.data i).hash % (a.numSlots - 1)) i
  distinct : ∀ i < a.numSlots, ∀ j < a.numSlots, a.Used i → a.Used j →
    ((a.data i).key == (a.data j).key) = true → i = j

variable {a} {i j slot : Nat} {k : K} {v : V}

theorem Hasher_hash_ne [Hashable K] (k : K) : Hasher.hash k ≠ UNUSED := by
  unfold Hasher.hash UNUSED
  simp only
  split <;> omega

theorem entry_eq_none : a.entry i = none ↔ ¬ a.Used i := by
  unfold entry
  split <;> simp_all

theorem entry_of_used (h : a.Used i) : a.entry i = some ((a.data i).key, (a.data i).value) :=
  if_pos h

theorem mem_entries {e : K × V} : e ∈ a.entries ↔ ∃ i < a.numSlots, a.Used i ∧
    e = ((a.data i).key, (a.data i).value) := by
  unfold entries
  rw [mem_slotList]
  refine exists_congr fun i => and_congr_right fun _ => ?_
  unfold entry
  split
  · next h => simp [h, eq_comm]
  · next h => simp [h]

theorem Sound.length_le [BEq K] [Hashable K] (h : a.Sound) : a.usedSlots ≤ a.numSlots := by
  rw [h.used]
  exact slotList_length_le _ _

/-! ## searching -/

section
variable [BEq K] [Hashable K]

theorem home_lt (h : a.Sound) (n : Nat) : n % (a.numSlots - 1) < a.numSlots := by
  have := h.two_le
  have := Nat.mod_lt n (show 0 < a.numSlots - 1 by omega)
  omega

/-- the slots at which a search for `k` stops -/
def stops (a : PairArray K V) (k : K) (slot : Nat) : Bool :=
  (a.data slot).hash == UNUSED || ((a.data slot).hash == Hasher.hash k && (a.data slot).key == k)

theorem findSlot_eq (a : PairArray K V) (k : K) : a.findSlot k =
    probe (a.stops k) a.numSlots a.numSlots (Hasher.hash k % (a.numSlots - 1)) := rfl

variable [EquivBEq K] [LawfulHashable K]

theorem Hasher_hash_eq {k k' : K} (h : (k == k') = true) : Hasher.hash k = Hasher.hash k' := by
  unfold Hasher.hash
  rw [LawfulHashable.hash_eq k k' h]

/-- a key that is there is found -/
theorem findSlot_hit (h : a.Sound) (hi : i < a.numSlots) (hu : a.Used i)
    (hk : ((a.data i).key == k) = true) : a.findSlot k = some i := by
  have hhash : (a.data i).hash = Hasher.hash k := (h.hashes i hi hu).trans (Hasher_hash_eq hk)
  rw [findSlot_eq]
  refine probe_hit (fun x => (a.data x).hash == Hasher.hash k && (a.data x).key == k)
    (home_lt h _) (hhash ▸ h.chained i hi hu) ?_ ?_ ?_
  · intro x _ hx
    have hx' : ((a.data x).hash == UNUSED) = false := by simpa [Used] using hx
    rw [stops, hx', Bool.false_or]
  · simp [stops, hhash, hk]
  · intro x hx hhere
    simp only [Bool.and_eq_true, beq_iff_eq] at hhere
    have hux : a.Used x := by
      rw [Used, hhere.1]
      exact Hasher_hash_ne k
    exact h.distinct x hx i hi hux hu (BEq.trans hhere.2 (BEq.symm hk))

/-- a search for a key that is not there ends at an unused slot -/
theorem findSlot_miss (h : a.Sound) (hroom : a.usedSlots < a.numSlots)
    (hk : ∀ i < a.numSlots, a.Used i → ((a.data i).key == k) = false) :
    ∃ j, a.findSlot k = some j ∧ j < a.numSlots ∧ ¬ a.Used j ∧
      Chained a.Used a.numSlots (Hasher.hash k % (a.numSlots - 1)) j := by
  rw [h.used] at hroom
  obtain ⟨free, hf, hnone⟩ := exists_free hroom
  have hun : ¬ a.Used free := entry_eq_none.mp hnone
  rw [findSlot_eq]
  refine probe_miss (home_lt h _) hf ?_ ?_ ?_
  · have : (a.data free).hash = UNUSED := by simpa [Used] using hun
    simp [stops, this]
  · intro x hx hs hu
    have hx' : ((a.data x).hash == UNUSED) = false := by simpa [Used] using hu
    rw [stops, hx', hk x hx hu] at hs
    simp at hs
  · intro x hs hx
    simp [stops, hx] at hs

/-- the key is in the table -/
def Has (a : PairArray K V) (k : K) : Prop :=
  ∃ i < a.numSlots, a.Used i ∧ ((a.data i).key == k) = true

theorem has_iff : a.Has k ↔ FiniteMap.Has a.entries k := by
  constructor
  · rintro ⟨i, hi, hu, hk⟩
    exact ⟨_, mem_entries.mpr ⟨i, hi, hu, rfl⟩, hk⟩
  · rintro ⟨e, he, hk⟩
    obtain ⟨i, hi, hu, rfl⟩ := mem_entries.mp he
    exact ⟨i, hi, hu, hk⟩

theorem not_has_slot (hk : ¬ a.Has k) (i : Nat) (hi : i < a.numSlots) (hu : a.Used i) :
    ((a.data i).key == k) = false := by
  cases e : (a.data i).key == k with
  | false => rfl
  | true => exact absurd ⟨i, hi, hu, e⟩ hk

/-- **`count`.** -/
theorem count_eq (h : a.Sound) (hroom : a.usedSlots < a.numSlots) (k : K) [Decidable (a.Has k)] :
    a.count k = if a.Has k then 1 else 0 := by
  by_cases hk : a.Has k
  · obtain ⟨i, hi, hu, he⟩ := id hk
    rw [if_pos hk, count, findSlot_hit h hi hu he]
    exact if_neg hu
  · obtain ⟨j, hj, -, hun, -⟩ := findSlot_miss h hroom (not_has_slot hk)
    rw [if_neg hk, count, hj]
    exact if_pos (by simpa [Used] using hun)

/-! ## writing -/

theorem setRecord_data_of_ne {r : MapRecordClass K V} (e : i ≠ slot) :
    (a.setRecord slot r).data i = a.data i := Function.update_of_ne e _ _

theorem setRecord_data_self (a : PairArray K V) (slot : Nat) (r : MapRecordClass K V) :
    (a.setRecord slot r).data slot = r := Function.update_self _ _ _

theorem setRecord_entry (a : PairArray K V) (slot : Nat) (r : MapRecordClass K V) :
    (a.setRecord slot r).entry = Function.update a.entry slot
      (if r.hash ≠ UNUSED then some (r.key, r.value) else none) := by
  funext i
  by_cases e : i = slot
  · subst e
    rw [Function.update_self]
    simp only [entry, Used, setRecord_data_self]
  · rw [Function.update_of_ne e]
    simp only [entry, Used, setRecord_data_of_ne e]
    exact if_congr Iff.rfl rfl rfl

/-- a new entry in an unused slot -/
theorem addRecord_spec (h : a.Sound) (hroom : a.usedSlots < a.numSlots) (hk : ¬ a.Has k) (v : V)
    (hs : slot < a.numSlots) (hun : ¬ a.Used slot)
    (hc : Chained a.Used a.numSlots (Hasher.hash k % (a.numSlots - 1)) slot) :
    (a.addRecord slot ⟨Hasher.hash k, k, v⟩).Sound ∧
      (a.addRecord slot ⟨Hasher.hash k, k, v⟩).entries.Perm ((k, v) :: a.entries) ∧
      (a.addRecord slot ⟨Hasher.hash k, k, v⟩).usedSlots = a.usedSlots + 1 := by
  obtain ⟨r, hr⟩ : ∃ r : MapRecordClass K V, r = ⟨Hasher.hash k, k, v⟩ := ⟨_, rfl⟩
  have hrh : r.hash = Hasher.hash k := by rw [hr]
  have hrk : r.key = k := by rw [hr]
  have hself : (a.addRecord slot r).data slot = r := setRecord_data_self a slot r
  have hother : ∀ i, i ≠ slot → (a.addRecord slot r).data i = a.data i := fun i e =>
    setRecord_data_of_ne e
  have hused : ∀ i, a.Used i → (a.addRecord slot r).Used i := by
    intro i hu
    have e : i ≠ slot := fun e => hun (e ▸ hu)
    rwa [Used, hother i e]
  have hold : ∀ i, i ≠ slot → (a.addRecord slot r).Used i → a.Used i := by
    intro i e hu
    rwa [Used, hother i e] at hu
  have hentries : (a.addRecord slot r).entries.Perm ((k, v) :: a.entries) := by
    have he : (a.addRecord slot r).entry = Function.update a.entry slot (some (k, v)) := by
      have := setRecord_entry a slot r
      rw [if_pos (by rw [hrh]; exact Hasher_hash_ne k), hr] at this
      rw [hr]
      exact this
    unfold entries
    rw [he]
    exact slotList_insert hs (entry_eq_none.mpr hun) _
  have hcount : (a.addRecord slot r).usedSlots = a.usedSlots + 1 := by
    have := h.lt
    exact u32_of_lt (by omega)
  rw [← hr]
  refine ⟨⟨h.two_le, h.lt, ?_, ?_, ?_, ?_⟩, hentries, hcount⟩
  · rw [hcount, hentries.length_eq, List.length_cons, h.used]
  · intro i hi hu
    by_cases e : i = slot
    · rw [e, hself, hrh, hrk]
    · rw [hother i e]
      exact h.hashes i hi (hold i e hu)
  · intro i hi hu
    by_cases e : i = slot
    · subst e
      rw [hself, hrh]
      exact hc.mono hused
    · rw [hother i e]
      exact (h.chained i hi (hold i e hu)).mono hused
  · intro i hi j hj hui huj hkey
    by_cases ei : i = slot
    · by_cases ej : j = slot
      · rw [ei, ej]
      · rw [ei, hself, hrk, hother j ej] at hkey
        exact absurd ⟨j, hj, hold j ej huj, BEq.symm hkey⟩ hk
    · by_cases ej : j = slot
      · rw [ej, hself, hrk, hother i ei] at hkey
        exact absurd ⟨i, hi, hold i ei hui, hkey⟩ hk
      · rw [hother i ei, hother j ej] at hkey
        exact h.distinct i hi j hj (hold i ei hui) (hold j ej huj) hkey

/-- a write to a value leaves hashes and keys -/
theorem setValue_same (a : PairArray K V) (slot : Nat) (v : V) (i : Nat) :
    ((a.setValue slot v).data i).hash = (a.data i).hash ∧
      ((a.setValue slot v).data i).key = (a.data i).key := by
  by_cases e : i = slot
  · subst e
    rw [setValue, setRecord_data_self]
    exact ⟨rfl, rfl⟩
  · rw [setValue, setRecord_data_of_ne e]
    exact ⟨rfl, rfl⟩

/-- a write to a value -/
theorem setValue_spec (h : a.Sound) (hs : slot < a.numSlots) (hu : a.Used slot)
    (hk : ((a.data slot).key == k) = true) (v : V) :
    (a.setValue slot v).Sound ∧ (a.setValue slot v).entries = FiniteMap.assign a.entries k v := by
  have hsame := a.setValue_same slot v
  have hused : ∀ i, (a.setValue slot v).Used i ↔ a.Used i := by
    intro i
    unfold Used
    rw [(hsame i).1]
  have hentries : (a.setValue slot v).entries = FiniteMap.assign a.entries k v := by
    unfold entries FiniteMap.assign slotList
    rw [List.map_filterMap]
    refine List.filterMap_congr fun i hi => ?_
    have hi' : i < a.numSlots := List.mem_range.mp hi
    rw [setValue, setRecord_entry]
    by_cases e : i = slot
    · subst e
      have hne : (a.data i).hash ≠ UNUSED := hu
      rw [Function.update_self, entry_of_used hu, Option.map_some, if_pos hk]
      exact if_pos hne
    · rw [Function.update_of_ne e]
      by_cases hui : a.Used i
      · have hne : ¬ ((a.data i).key == k) = true := fun hi'' =>
          e (h.distinct i hi' slot hs hui hu (BEq.trans hi'' (BEq.symm hk)))
        rw [entry_of_used hui, Option.map_some, if_neg hne]
      · rw [entry_eq_none.mpr hui]
        rfl
  refine ⟨⟨h.two_le, h.lt, ?_, ?_, ?_, ?_⟩, hentries⟩
  · rw [hentries, FiniteMap.assign, List.length_map]
    exact h.used
  · intro i hi hui
    rw [(hsame i).1, (hsame i).2]
    exact h.hashes i hi ((hused i).mp hui)
  · intro i hi hui
    rw [(hsame i).1]
    exact (h.chained i hi ((hused i).mp hui)).mono fun x hx => (hused x).mpr hx
  · intro i hi j hj hui huj hkey
    rw [(hsame i).2, (hsame j).2] at hkey
    exact h.distinct i hi j hj ((hused i).mp hui) ((hused j).mp huj) hkey

section
variable [Inhabited V] {fail : MapSite → Bool}

theorem index_hit (h : a.Sound) (hi : i < a.numSlots) (hu : a.Used i)
    (hk : ((a.data i).key == k) = true) : a.index fail k = .ret a i := by
  rw [index, findSlot_hit h hi hu hk]
  exact if_neg hu

/-- nothing but the contents differs -/
def SameSize (a a' : PairArray K V) : Prop :=
  a'.numSlots = a.numSlots ∧ a'.maxSlots = a.maxSlots ∧ a'.layout = a.layout

theorem index_miss (fail : MapSite → Bool) (h : a.Sound) (hroom : a.usedSlots < a.numSlots) (hk : ¬ a.Has k) :
    ∃ a' j, a.index fail k =
        (if fail .construct || fail .copyKey then .notEnoughSpace a else .ret a' j) ∧
      a'.Sound ∧ a'.entries.Perm ((k, default) :: a.entries) ∧
      a'.usedSlots = a.usedSlots + 1 ∧ SameSize a a' ∧ j < a'.numSlots ∧
      a'.data j = ⟨Hasher.hash k, k, default⟩ ∧ ∀ i, a.Used i → a'.data i = a.data i := by
  obtain ⟨j, hj, hlt, hun, hc⟩ := findSlot_miss h hroom (not_has_slot hk)
  obtain ⟨hs, hp, hu⟩ := addRecord_spec h hroom hk default hlt hun hc
  refine ⟨a.addRecord j ⟨Hasher.hash k, k, default⟩, j, ?_, hs, hp, hu, ⟨rfl, rfl, rfl⟩, hlt,
    setRecord_data_self _ _ _, fun i hi => setRecord_data_of_ne fun e => hun (e ▸ hi)⟩
  rw [index, hj]
  exact if_pos (by simpa [Used] using hun)

/-! ## doubling -/

/-- the number of slots is accepted, and the request for them is not changed on its way -/
def TableFits (l : ArrayLayout) (n : Nat) : Prop := n ≤ 2^31 ∧ l.Fits n

instance (l : ArrayLayout) (n : Nat) : Decidable (TableFits l n) :=
  inferInstanceAs (Decidable (_ ∧ _))

/-- a table that was made -/
theorem created [Inhabited K] {l : ArrayLayout} {extra n : Nat} {b : PairArray K V}
    (h : create l extra n = some b) (h2 : 2 ≤ n) : b.Sound ∧ b.entries = [] ∧ b.numSlots = n ∧
      b.maxSlots = fill n ∧ b.layout = l ∧ n ≤ 2^31 := by
  unfold create at h
  split_ifs at h with hbad
  have hle : n ≤ 2^31 := Nat.le_of_not_lt fun hlt => hbad (.inl hlt)
  cases h
  have hnone : ∀ i, ¬ (⟨l, 0, n, fill n, fun _ => ⟨UNUSED, default, default⟩⟩ :
      PairArray K V).Used i := fun i hu => hu rfl
  have hentries : (⟨l, 0, n, fill n, fun _ => ⟨UNUSED, default, default⟩⟩ :
      PairArray K V).entries = [] := by
    refine List.filterMap_eq_nil_iff.mpr fun i _ => ?_
    rw [entry_eq_none.mpr (hnone i)]
  refine ⟨⟨h2, ?_, ?_, ?_, ?_, ?_⟩, hentries, rfl, rfl, rfl, hle⟩
  · show n < 2^32
    omega
  · rw [hentries]
    rfl
  · exact fun i _ hu => absurd hu (hnone i)
  · exact fun i _ hu => absurd hu (hnone i)
  · exact fun i _ j _ hu _ _ => absurd hu (hnone i)

theorem create_spec [Inhabited K] {l : ArrayLayout} {n : Nat} (h : TableFits l n) (h2 : 2 ≤ n) :
    ∃ a : PairArray K V, create l (l.objSize * n) n = some a ∧ a.Sound ∧ a.entries = [] ∧
      a.numSlots = n ∧ a.maxSlots = fill n ∧ a.layout = l := by
  have hnot : ¬ (2^31 < n ∨ l.storage (l.objSize * n) < l.objSize * n) := by
    rintro (hc | hc)
    · exact absurd h.1 (Nat.not_le_of_lt hc)
    · exact absurd h.2.le_storage (Nat.not_le_of_lt hc)
  have hcreate : create l (l.objSize * n) n =
      some (⟨l, 0, n, fill n, fun _ => ⟨UNUSED, default, default⟩⟩ : PairArray K V) := if_neg hnot
  obtain ⟨hs, he, hn, hmax, hl, -⟩ := created hcreate h2
  exact ⟨_, hcreate, hs, he, hn, hmax, hl⟩

/-- the entries of the slots `is` go into `new` -/
theorem moveSlots_spec (h : a.Sound) (is : List Nat) (hnd : is.Nodup)
    (hlt : ∀ i ∈ is, i < a.numSlots) (hfail : ∀ i ∈ is, a.Used i → fail (.moved i) = false) :
    ∀ (old new : PairArray K V), (∀ i ∈ is, old.data i = a.data i) → new.Sound →
      (∀ i ∈ is, a.Used i → ¬ new.Has (a.data i).key) →
      new.usedSlots + (is.filterMap a.entry).length < new.numSlots →
      ∃ old' new', moveSlots fail is old new = .ret old' new' ∧ new'.Sound ∧
        new'.entries.Perm (is.filterMap a.entry ++ new.entries) ∧ new'.numSlots = new.numSlots ∧
        new'.maxSlots = new.maxSlots ∧ new'.layout = new.layout := by
  induction is with
  | nil => exact fun old new _ hn _ _ => ⟨old, new, rfl, hn, List.Perm.refl _, rfl, rfl, rfl⟩
  | cons i is ih =>
    intro old new hold hn hno hroom
    obtain ⟨hi, hnd'⟩ := List.nodup_cons.mp hnd
    have hmem := fun j (hj : j ∈ is) => List.mem_cons_of_mem i hj
    have ih' := ih hnd' (fun j hj => hlt j (hmem j hj)) (fun j hj => hfail j (hmem j hj))
    have hdata := hold i List.mem_cons_self
    rw [moveSlots, hdata]
    by_cases hu : a.Used i
    · have hui : ¬ (a.data i).hash = UNUSED := hu
      rw [if_neg hui, hfail i List.mem_cons_self hu, if_neg (by simp)]
      rw [List.filterMap_cons, entry_of_used hu, List.length_cons] at hroom
      obtain ⟨new₁, j, hidx, hs, hp, hc, hn₁, hj, hdata₁, -⟩ := index_miss
        (fun _ => false) hn (by omega) (hno i List.mem_cons_self hu)
      simp only [hidx, Bool.or_self, Bool.false_eq_true, if_false]
      have hused₁ : new₁.Used j := by
        rw [Used, hdata₁]
        exact Hasher_hash_ne _
      obtain ⟨hs₂, hp₂⟩ := setValue_spec hs hj hused₁
        (k := (a.data i).key) (by rw [hdata₁]; exact BEq.rfl) (a.data i).value
      -- the new value replaces the default value of the new entry
      have hentries : (new₁.setValue j (a.data i).value).entries.Perm
          (((a.data i).key, (a.data i).value) :: new.entries) := by
        rw [hp₂]
        refine (FiniteMap.assign_perm hp _ _).trans ?_
        rw [FiniteMap.assign_cons, if_pos BEq.rfl, FiniteMap.assign_of_not_has]
        exact fun hh => hno i List.mem_cons_self hu (has_iff.mpr hh)
      have hold₂ : ∀ x ∈ is, (old.setRecord i { a.data i with hash := UNUSED }).data x =
          a.data x := by
        intro x hx
        have e : x ≠ i := fun e => hi (e ▸ hx)
        rw [setRecord_data_of_ne e]
        exact hold x (hmem x hx)
      have hno₂ : ∀ x ∈ is, a.Used x →
          ¬ (new₁.setValue j (a.data i).value).Has (a.data x).key := by
        intro x hx hux hh
        obtain ⟨e, he, hke⟩ := (has_iff.mp hh).perm hentries
        rcases List.mem_cons.mp he with rfl | he
        · have := h.distinct i (hlt i List.mem_cons_self) x (hlt x (hmem x hx)) hu hux hke
          exact hi (this ▸ hx)
        · exact hno x (hmem x hx) hux (has_iff.mpr ⟨e, he, hke⟩)
      obtain ⟨old', new', hrun, hs', hp', h1, h2, h3⟩ := ih'
        (old.setRecord i { a.data i with hash := UNUSED }) (new₁.setValue j (a.data i).value)
        hold₂ hs₂ hno₂ (by
          show new₁.usedSlots + _ < new₁.numSlots
          rw [hc, hn₁.1]
          omega)
      refine ⟨old', new', hrun, hs', ?_, h1.trans hn₁.1, h2.trans hn₁.2.1, h3.trans hn₁.2.2⟩
      rw [List.filterMap_cons, entry_of_used hu]
      refine hp'.trans ((hentries.append_left _).trans ?_)
      exact List.perm_middle
    · have hui : (a.data i).hash = UNUSED := by simpa [Used] using hu
      rw [if_pos hui, List.filterMap_cons, entry_eq_none.mpr hu]
      rw [List.filterMap_cons, entry_eq_none.mpr hu] at hroom
      exact ih' old new (fun x hx => hold x (hmem x hx)) hn (fun x hx => hno x (hmem x hx)) hroom

/-- `doubleArray`, when the bigger table was made and every entry can be moved -/
theorem doubleArray_moves [Inhabited K] {b : PairArray K V} (h : a.Sound)
    (hmany : u32 (a.numSlots * 2) = a.numSlots * 2) (harr : fail .array = false)
    (hb : create a.layout (u32 (a.layout.objSize * (a.numSlots * 2))) (a.numSlots * 2) = some b)
    (hfail : ∀ i < a.numSlots, a.Used i → fail (.moved i) = false) :
    ∃ old new, a.doubleArray fail = .ret old new ∧ new.Sound ∧ new.entries.Perm a.entries ∧
      new.numSlots = a.numSlots * 2 ∧ new.maxSlots = fill (a.numSlots * 2) ∧
      new.layout = a.layout := by
  have h2 := h.two_le
  have hle := h.length_le
  obtain ⟨hs, he, hn, hmax, hl, -⟩ := created hb (by omega)
  have hzero : b.usedSlots = 0 := by rw [hs.used, he]; rfl
  obtain ⟨old', new', hrun, hs', hp', h1, h2', h3⟩ := moveSlots_spec h (List.range a.numSlots)
    List.nodup_range (fun i hi => List.mem_range.mp hi)
    (fun i hi hu => hfail i (List.mem_range.mp hi) hu) a b (fun _ _ => rfl) hs
    (fun i _ _ hh => by
      obtain ⟨e, hmem, -⟩ := has_iff.mp hh
      rw [he] at hmem
      cases hmem)
    (by
      have hlen : (List.filterMap a.entry (List.range a.numSlots)).length = a.usedSlots := h.used.symm
      rw [hzero, hlen, hn]
      omega)
  refine ⟨old', new', ?_, hs', ?_, h1.trans hn, h2'.trans hmax, h3.trans hl⟩
  · simp only [doubleArray, harr, hmany, hb, hrun, Bool.false_eq_true, if_false]
  · rw [he, List.append_nil] at hp'
    exact hp'

/-- **`doubleArray`.** -/
theorem doubleArray_spec [Inhabited K] (h : a.Sound) (hfits : TableFits a.layout (a.numSlots * 2))
    (harr : fail .array = false)
    (hfail : ∀ i < a.numSlots, a.Used i → fail (.moved i) = false) :
    ∃ old new, a.doubleArray fail = .ret old new ∧ new.Sound ∧ new.entries.Perm a.entries ∧
      new.numSlots = a.numSlots * 2 ∧ new.maxSlots = fill (a.numSlots * 2) ∧
      new.layout = a.layout := by
  have h2 := h.two_le
  obtain ⟨b, hb, -⟩ := create_spec (K := K) (V := V) hfits (by omega)
  have hextra : u32 (a.layout.objSize * (a.numSlots * 2)) = a.layout.objSize * (a.numSlots * 2) :=
    u32_of_lt hfits.2.bytes_lt
  rw [← hextra] at hb
  exact doubleArray_moves h (u32_of_lt hfits.2.lt) harr hb hfail

end

end

end PairArray

end Netsdb
