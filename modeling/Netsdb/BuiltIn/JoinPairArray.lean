import Netsdb.BuiltIn.PDBVector
import Netsdb.BuiltIn.PairArray

/-!
# The hash table of `JoinMap` (`JoinPairArray.cc`)

The first value of a hash is in its slot, the others are in a list of `overflows`.

* `JoinPairArray.push`          a new value for a hash, and a reference to it;
* `JoinPairArray.doubleArray`   copies the entries into a table of twice the size;
* `JoinPairArray.setUnused`     takes back a value, or the slot;
* `JoinPairArray.recordsOf`     the values of a hash, in the order in which they came.
-/

set_option linter.unusedSectionVars false

namespace Netsdb

structure JoinMapRecordClass (V : Type*) where
  hash : Nat
  next : Nat
  value : V

/-- `UINT32_MAX`: the slot has no list of overflows -/
def noNext : Nat := 2^32 - 1

def JM_UNUSED : Nat := 493295393

/-- what `push`, `lookup`, `count` and `setUnused` begin with -/
def hashValOf (me : Nat) : Nat := if me = JM_UNUSED then 858931273 else me

/-- the sizes in the table, in the vector of vectors and in the vectors of values -/
structure JoinLayouts where
  table : ArrayLayout
  outer : ArrayLayout
  inner : ArrayLayout

structure JoinPairArray (V : Type*) where
  layouts : JoinLayouts
  usedSlots : Nat
  numSlots : Nat
  maxSlots : Nat
  overflows : PDBVector (PDBVector V)
  data : Nat → JoinMapRecordClass V

/-- the steps that allocate -/
inductive JoinSite
  /-- the memory for the new table and for the overflows in it, in `doubleArray` -/
  | array
  /-- the entry of slot `i` built in the new table -/
  | moved (i : Nat)
  /-- `new ValueType ()` -/
  | value
  /-- `Vector<ValueType> temp` -/
  | temp
  /-- `overflows.push_back (temp)` -/
  | outer (site : VectorSite)
  /-- `overflows[..].push_back ()` -/
  | inner (site : VectorSite)
deriving DecidableEq, Repr

/-- a reference to a value -/
inductive ValueRef
  | slot (slot : Nat)
  | overflow (list i : Nat)
deriving DecidableEq, Repr

namespace JoinPairArray
variable {V : Type*}

/-- the constructor; `none`: the size is not accepted, or the slots are not all in the storage -/
def create [Inhabited V] (l : JoinLayouts) (extra numSlotsIn : Nat) : Option (JoinPairArray V) :=
  if 2^31 < numSlotsIn ∨ l.table.storage extra < l.table.objSize * numSlotsIn then none
  else (PDBVector.create l.outer 1).map fun overflows =>
    ⟨l, 0, numSlotsIn, PairArray.fill numSlotsIn, overflows, fun _ => ⟨JM_UNUSED, noNext, default⟩⟩

def isOverFull (a : JoinPairArray V) : Bool := decide (a.maxSlots ≤ a.usedSlots)

/-- the slot of a hash, or the unused slot that ends the search for it -/
def findSlot (a : JoinPairArray V) (hashVal : Nat) : Option Nat :=
  probe (fun slot => (a.data slot).hash == JM_UNUSED || (a.data slot).hash == hashVal) a.numSlots
    a.numSlots (hashVal % (a.numSlots - 1))

/-- a `size_t` converted to `int` -/
def toInt (n : Nat) : Int := if n % 2^32 < 2^31 then (n % 2^32 : Nat) else (n % 2^32 : Nat) - 2^32

/-- `overflows[i]` -/
def overflowItems (a : JoinPairArray V) (i : Nat) : List V :=
  (a.overflows.items[i]?).elim [] PDBVector.items

def count (a : JoinPairArray V) (me : Nat) : Int :=
  match a.findSlot (hashValOf me) with
  | some slot =>
    if (a.data slot).hash = JM_UNUSED then 0
    else if (a.data slot).next ≠ noNext then toInt (1 + (a.overflowItems (a.data slot).next).length)
    else 1
  -- ran off the end of the hash table
  | none => 0

def setRecord (a : JoinPairArray V) (slot : Nat) (r : JoinMapRecordClass V) : JoinPairArray V :=
  { a with data := Function.update a.data slot r }

/-- a record in an unused slot -/
def insertRecord (a : JoinPairArray V) (slot : Nat) (r : JoinMapRecordClass V) : JoinPairArray V :=
  { a.setRecord slot r with usedSlots := u32 (a.usedSlots + 1) }

/-- list `i` of the overflows replaced -/
def setOverflow (a : JoinPairArray V) (i : Nat) (v : PDBVector V) : JoinPairArray V :=
  { a with overflows := { a.overflows with items := a.overflows.items.set i v } }

/-- a write through a reference to a value -/
def setValue (a : JoinPairArray V) (r : ValueRef) (v : V) : JoinPairArray V :=
  match r with
  | .slot slot => a.setRecord slot { a.data slot with value := v }
  | .overflow list i =>
    match a.overflows.items[list]? with
    | some w => a.setOverflow list { w with items := w.items.set i v }
    | none => a

/-- an empty list of overflows, if the slot has no list -/
def newList (fail : JoinSite → Bool) (a : JoinPairArray V) (slot : Nat) :
    Outcome (JoinPairArray V) Unit :=
  if (a.data slot).next = noNext then
    if fail .temp then .notEnoughSpace a
    else
      match (PDBVector.create a.layouts.inner 1 : Option (PDBVector V)) with
      | some temp =>
        match a.overflows.push_back (fun site => fail (.outer site)) temp with
        | .ret overflows _ =>
          .ret ({ a with overflows := overflows }.setRecord slot
            { a.data slot with next := u32 (overflows.items.length + (2^32 - 1)) }) ()
        | .notEnoughSpace overflows => .notEnoughSpace { a with overflows := overflows }
        | .fatal => .fatal
      | none => .fatal
  else .ret a ()

/-- `push` of a hash that has a slot -/
def pushOverflow [Inhabited V] (fail : JoinSite → Bool) (a : JoinPairArray V) (slot : Nat) :
    Outcome (JoinPairArray V) ValueRef :=
  match a.newList fail slot with
  | .ret a _ =>
    let list := (a.data slot).next
    match a.overflows.items[list]? with
    | some v =>
      match v.push_back (fun site => fail (.inner site)) default with
      | .ret w _ => .ret (a.setOverflow list w) (.overflow list (w.items.length - 1))
      | .notEnoughSpace w => .notEnoughSpace (a.setOverflow list w)
      | .fatal => .fatal
    | none => .fatal
  | .notEnoughSpace a => .notEnoughSpace a
  | .fatal => .fatal

def push [Inhabited V] (fail : JoinSite → Bool) (a : JoinPairArray V) (me : Nat) :
    Outcome (JoinPairArray V) ValueRef :=
  match a.findSlot (hashValOf me) with
  | some slot =>
    if (a.data slot).hash = JM_UNUSED then
      if fail .value then .notEnoughSpace a
      else
        .ret (a.insertRecord slot ⟨hashValOf me, noNext, default⟩) (.slot slot)
    else a.pushOverflow fail slot
  | none => .fatal

def setUnused [Inhabited V] (a : JoinPairArray V) (me : Nat) : Option (JoinPairArray V) :=
  match a.findSlot (hashValOf me) with
  | some slot =>
    if (a.data slot).hash = JM_UNUSED then some a
    else if (a.data slot).next ≠ noNext ∧ 1 ≤ (a.overflowItems (a.data slot).next).length then
      match a.overflows.items[(a.data slot).next]? with
      | some v => some (a.setOverflow (a.data slot).next v.pop_back)
      | none => none
    else some (a.setRecord slot { a.data slot with hash := JM_UNUSED, next := noNext })
  | none => none

/-- the loop of `doubleArray`, over the slots in the list -/
def copySlots [Inhabited V] (fail : JoinSite → Bool) (a : JoinPairArray V) :
    List Nat → JoinPairArray V → Outcome (JoinPairArray V) (JoinPairArray V)
  | [], new => .ret a new
  | i :: rest, new =>
    if (a.data i).hash = JM_UNUSED then copySlots fail a rest new
    else if fail (.moved i) then .notEnoughSpace a
    else
      match new.push (fun _ => false) (a.data i).hash with
      | .ret new' r =>
        let new'' := new'.setValue r (a.data i).value
        match r with
        | .slot slot =>
          copySlots fail a rest
            (new''.setRecord slot { new''.data slot with next := (a.data i).next })
        -- the bytes in front of an overflow value are not the index of a list
        | .overflow _ _ => .fatal
      | .notEnoughSpace _ => .notEnoughSpace a
      | .fatal => .fatal

def doubleArray [Inhabited V] (fail : JoinSite → Bool) (a : JoinPairArray V) :
    Outcome (JoinPairArray V) (JoinPairArray V) :=
  let howMany := u32 (a.numSlots * 2)
  if fail .array then .notEnoughSpace a
  else
    match create a.layouts (u32 (a.layouts.table.objSize * howMany)) howMany with
    | some new =>
      match copySlots fail a (List.range a.numSlots) new with
      | .ret a new => .ret a { new with overflows := a.overflows }
      | .notEnoughSpace a => .notEnoughSpace a
      | .fatal => .fatal
    | none => .fatal

/-! ## reading -/

/-- `JoinRecordList::size` -/
def recordListSize (a : JoinPairArray V) (whichOne : Nat) : Nat :=
  if (a.data whichOne).hash = JM_UNUSED then 0
  else if (a.data whichOne).next ≠ noNext then
    if (a.data whichOne).next < a.overflows.items.length then
      (a.overflowItems (a.data whichOne).next).length + 1
    else 0
  else 1

/-- `JoinRecordList::operator[]` -/
def recordListGet (a : JoinPairArray V) (whichOne i : Nat) : Option V :=
  if i = 0 then some (a.data whichOne).value
  else (a.overflowItems (a.data whichOne).next)[i - 1]?

/-- all values of a record list -/
def recordList (a : JoinPairArray V) (whichOne : Nat) : List V :=
  (List.range (a.recordListSize whichOne)).filterMap (a.recordListGet whichOne)

/-- `lookup`, and the values in its result -/
def lookup (a : JoinPairArray V) (me : Nat) : Option (List V) :=
  (a.findSlot (hashValOf me)).map a.recordList

def ByHash (x y : Nat × Nat) : Prop := x.2 ≤ y.2

instance : DecidableRel ByHash := fun x y => Nat.decLe x.2 y.2

/-- the slots that are used, with their hashes, in the order of the hashes -/
def iterationOrder (a : JoinPairArray V) : List (Nat × Nat) :=
  ((List.range a.numSlots).filterMap fun slot =>
    if (a.data slot).hash ≠ JM_UNUSED then some (slot, (a.data slot).hash) else none).insertionSort
      ByHash

/-- what the loop from `begin ()` to `end ()` sees: the hash and the values of every list -/
def iterate (a : JoinPairArray V) : List (Nat × List V) :=
  a.iterationOrder.map fun x => ((a.data x.1).hash, a.recordList x.1)

/-! ## the contents -/

variable (a : JoinPairArray V)

def Used (slot : Nat) : Prop := (a.data slot).hash ≠ JM_UNUSED

instance (slot : Nat) : Decidable (a.Used slot) := inferInstanceAs (Decidable (_ ≠ _))

/-- the values of a used slot -/
def slotRecords (slot : Nat) : List V :=
  (a.data slot).value ::
    if (a.data slot).next = noNext then [] else a.overflowItems (a.data slot).next

/-- no hash has two slots -/
def Distinct : Prop :=
  ∀ i < a.numSlots, ∀ j < a.numSlots, a.Used i → (a.data i).hash = (a.data j).hash → i = j

/-- the values of a hash -/
def recordsOf (hashVal : Nat) : List V :=
  if hashVal = JM_UNUSED then []
  else
    match (List.range a.numSlots).find? fun slot => (a.data slot).hash == hashVal with
    | some slot => a.slotRecords slot
    | none => []

/-- the hashes that are there, in the order of the slots -/
def hashes : List Nat :=
  slotList a.numSlots fun slot => if a.Used slot then some (a.data slot).hash else none

structure Sound : Prop where
  two_le : 2 ≤ a.numSlots
  lt : a.numSlots < 2^32
  used : a.usedSlots = a.hashes.length
  /-- no unused slot between the home slot and the place -/
  chained : ∀ i < a.numSlots, a.Used i →
    Chained a.Used a.numSlots ((a.data i).hash % (a.numSlots - 1)) i
  distinct : a.Distinct
  next_lt : ∀ i < a.numSlots, a.Used i → (a.data i).next ≠ noNext →
    (a.data i).next < a.overflows.items.length
  /-- every list belongs to one slot -/
  next_inj : ∀ i < a.numSlots, ∀ j < a.numSlots, a.Used i → a.Used j →
    (a.data i).next ≠ noNext → (a.data i).next = (a.data j).next → i = j
  outer : a.overflows.Ok ∧ a.overflows.layout = a.layouts.outer
  inner : ∀ w ∈ a.overflows.items, w.Ok ∧ w.layout = a.layouts.inner

variable {a} {a' : JoinPairArray V} {i j slot hv : Nat}

theorem hashValOf_ne (me : Nat) : hashValOf me ≠ JM_UNUSED := by
  unfold hashValOf JM_UNUSED
  split <;> omega

theorem hashValOf_of_ne {me : Nat} (h : me ≠ JM_UNUSED) : hashValOf me = me := if_neg h

theorem recordsOf_slot (hd : a.Distinct) (hi : i < a.numSlots) (hu : a.Used i) :
    a.recordsOf (a.data i).hash = a.slotRecords i := by
  have hfind : (List.range a.numSlots).find? (fun slot => (a.data slot).hash == (a.data i).hash) =
      some i := by
    rw [List.find?_range_eq_some]
    refine ⟨by simp, List.mem_range.mpr hi, fun j hj => ?_⟩
    have hne : (a.data j).hash ≠ (a.data i).hash := fun e =>
      absurd (hd i hi j (by omega) hu e.symm) (by omega)
    simpa using hne
  rw [recordsOf, if_neg hu, hfind]

theorem recordsOf_absent (h : ∀ i < a.numSlots, (a.data i).hash ≠ hv) : a.recordsOf hv = [] := by
  have hfind : (List.range a.numSlots).find? (fun slot => (a.data slot).hash == hv) = none := by
    refine List.find?_eq_none.mpr fun i hi => ?_
    simpa using h i (List.mem_range.mp hi)
  rw [recordsOf, hfind]
  split <;> rfl

/-- a hash has a slot or not -/
theorem hash_cases (a : JoinPairArray V) (hv : Nat) :
    (∃ i < a.numSlots, (a.data i).hash = hv) ∨ ∀ i < a.numSlots, (a.data i).hash ≠ hv := by
  by_cases h : ∃ i < a.numSlots, (a.data i).hash = hv
  · exact Or.inl h
  · exact Or.inr fun i hi e => h ⟨i, hi, e⟩

/-- one slot changed, which had the same hash before or was unused -/
theorem recordsOf_change (hd : a.Distinct) (hd' : a'.Distinct) (hn : a'.numSlots = a.numSlots)
    (hj : j < a.numSlots) (hu : (a'.data j).hash ≠ JM_UNUSED)
    (hold : (a.data j).hash = (a'.data j).hash ∨ (a.data j).hash = JM_UNUSED)
    (hrest : ∀ i < a.numSlots, i ≠ j → (a'.data i).hash = (a.data i).hash ∧
      (a.Used i → a'.slotRecords i = a.slotRecords i)) :
    a'.recordsOf = Function.update a.recordsOf (a'.data j).hash (a'.slotRecords j) := by
  funext h
  by_cases e : h = (a'.data j).hash
  · subst e
    rw [Function.update_self, recordsOf_slot hd' (by rw [hn]; exact hj) hu]
  · rw [Function.update_of_ne e]
    rcases a.hash_cases h with ⟨i, hi, hh⟩ | hno
    · by_cases hh' : h = JM_UNUSED
      · rw [recordsOf, recordsOf, if_pos hh', if_pos hh']
      · have hui : a.Used i := by rwa [Used, hh]
        have hij : i ≠ j := by
          rintro rfl
          rcases hold with ho | ho
          · exact e (hh.symm.trans ho)
          · exact hui ho
        obtain ⟨h1, h2⟩ := hrest i hi hij
        have hui' : a'.Used i := by rwa [Used, h1]
        rw [← hh, recordsOf_slot hd hi hui, ← h1, recordsOf_slot hd' (by rw [hn]; exact hi) hui',
          h2 hui]
    · rw [recordsOf_absent hno, recordsOf_absent]
      intro i hi hh
      rw [hn] at hi
      by_cases hij : i = j
      · subst hij
        exact e hh.symm
      · rw [(hrest i hi hij).1] at hh
        exact hno i hi hh

theorem recordsOf_congr (hd : a.Distinct) (hd' : a'.Distinct) (hn : a'.numSlots = a.numSlots)
    (hrest : ∀ i < a.numSlots, (a'.data i).hash = (a.data i).hash ∧
      (a.Used i → a'.slotRecords i = a.slotRecords i)) : a'.recordsOf = a.recordsOf := by
  funext h
  rcases a.hash_cases h with ⟨i, hi, hh⟩ | hno
  · by_cases hh' : h = JM_UNUSED
    · rw [recordsOf, recordsOf, if_pos hh', if_pos hh']
    · have hui : a.Used i := by rwa [Used, hh]
      obtain ⟨h1, h2⟩ := hrest i hi
      have hui' : a'.Used i := by rwa [Used, h1]
      rw [← hh, recordsOf_slot hd hi hui, ← h1, recordsOf_slot hd' (by rw [hn]; exact hi) hui',
        h2 hui]
  · rw [recordsOf_absent hno, recordsOf_absent]
    intro i hi hh
    rw [hn] at hi
    rw [(hrest i hi).1] at hh
    exact hno i hi hh

/-! ## searching -/

theorem home_lt (h : a.Sound) (n : Nat) : n % (a.numSlots - 1) < a.numSlots := by
  have := h.two_le
  have := Nat.mod_lt n (show 0 < a.numSlots - 1 by omega)
  omega

def stops (a : JoinPairArray V) (hv slot : Nat) : Bool :=
  (a.data slot).hash == JM_UNUSED || (a.data slot).hash == hv

theorem findSlot_eq (a : JoinPairArray V) (hv : Nat) :
    a.findSlot hv = probe (a.stops hv) a.numSlots a.numSlots (hv % (a.numSlots - 1)) := rfl

/-- a hash that is there is found -/
theorem findSlot_hit (h : a.Sound) (hi : i < a.numSlots) (hu : a.Used i) :
    a.findSlot (a.data i).hash = some i := by
  rw [findSlot_eq]
  refine probe_hit (fun x => (a.data x).hash == (a.data i).hash) (home_lt h _)
    (h.chained i hi hu) (fun x _ hx => ?_) ?_ ?_
  · have hx' : ((a.data x).hash == JM_UNUSED) = false := by simpa [Used] using hx
    rw [stops, hx', Bool.false_or]
  · simp [stops]
  · intro x hx hhere
    exact (h.distinct i hi x hx hu (by simpa using Eq.symm (beq_iff_eq.mp hhere))).symm

theorem length_le (h : a.Sound) : a.usedSlots ≤ a.numSlots := by
  rw [h.used]
  exact slotList_length_le _ _

/-- a search for a hash that is not there ends at an unused slot -/
theorem findSlot_miss (h : a.Sound) (hroom : a.usedSlots < a.numSlots)
    (hk : ∀ i < a.numSlots, (a.data i).hash ≠ hv) :
    ∃ j, a.findSlot hv = some j ∧ j < a.numSlots ∧ ¬ a.Used j ∧
      Chained a.Used a.numSlots (hv % (a.numSlots - 1)) j := by
  rw [h.used] at hroom
  obtain ⟨free, hf, hnone⟩ := exists_free hroom
  have hun : ¬ a.Used free := by
    intro hu
    rw [if_pos hu] at hnone
    cases hnone
  rw [findSlot_eq]
  refine probe_miss (home_lt h _) hf ?_ ?_ ?_
  · have : (a.data free).hash = JM_UNUSED := by simpa [Used] using hun
    simp [stops, this]
  · intro x hx hs hu
    have hx' : ((a.data x).hash == JM_UNUSED) = false := by simpa [Used] using hu
    have hx'' : ((a.data x).hash == hv) = false := by simpa using hk x hx
    rw [stops, hx', hx''] at hs
    cases hs
  · intro x hs hx
    simp [stops, hx] at hs

/-! ## writing -/

theorem setRecord_data_of_ne {r : JoinMapRecordClass V} (e : i ≠ slot) :
    (a.setRecord slot r).data i = a.data i := Function.update_of_ne e _ _

theorem setRecord_data_self (a : JoinPairArray V) (slot : Nat) (r : JoinMapRecordClass V) :
    (a.setRecord slot r).data slot = r := Function.update_self _ _ _

/-- the hashes after one slot has been written -/
theorem hashes_insert {r : JoinMapRecordClass V} (hj : j < a.numSlots) (hun : ¬ a.Used j)
    (hr : r.hash ≠ JM_UNUSED) : (a.insertRecord j r).hashes.Perm (r.hash :: a.hashes) := by
  have hfun : (fun slot => if (a.insertRecord j r).Used slot then
      some ((a.insertRecord j r).data slot).hash else none) =
      Function.update (fun slot => if a.Used slot then some (a.data slot).hash else none) j
        (some r.hash) := by
    funext i
    by_cases e : i = j
    · subst e
      have hself : (a.insertRecord i r).data i = r := setRecord_data_self a i r
      have hu : (a.insertRecord i r).Used i := by rwa [Used, hself]
      rw [Function.update_self, if_pos hu, hself]
    · have hother : (a.insertRecord j r).data i = a.data i := setRecord_data_of_ne e
      rw [Function.update_of_ne e]
      simp only [Used, hother]
      exact if_congr Iff.rfl rfl rfl
  unfold hashes
  rw [hfun]
  exact slotList_insert hj (if_neg hun) _

theorem insert_spec (h : a.Sound) (hroom : a.usedSlots < a.numSlots) {r : JoinMapRecordClass V}
    (hr : r.hash ≠ JM_UNUSED) (hno : ∀ i < a.numSlots, (a.data i).hash ≠ r.hash)
    (hj : j < a.numSlots) (hun : ¬ a.Used j)
    (hc : Chained a.Used a.numSlots (r.hash % (a.numSlots - 1)) j)
    (hnext : r.next ≠ noNext → r.next < a.overflows.items.length ∧
      ∀ i < a.numSlots, a.Used i → (a.data i).next ≠ r.next) :
    (a.insertRecord j r).Sound ∧ (a.insertRecord j r).usedSlots = a.usedSlots + 1 ∧
      (a.insertRecord j r).recordsOf = Function.update a.recordsOf r.hash
        (r.value :: if r.next = noNext then [] else a.overflowItems r.next) := by
  have hself : (a.insertRecord j r).data j = r := setRecord_data_self a j r
  have hother : ∀ i, i ≠ j → (a.insertRecord j r).data i = a.data i := fun i e =>
    setRecord_data_of_ne e
  have hused : ∀ i, a.Used i → (a.insertRecord j r).Used i := by
    intro i hu
    have e : i ≠ j := fun e => hun (e ▸ hu)
    rwa [Used, hother i e]
  have hold : ∀ i, i ≠ j → (a.insertRecord j r).Used i → a.Used i := by
    intro i e hu
    rwa [Used, hother i e] at hu
  have hcount : (a.insertRecord j r).usedSlots = a.usedSlots + 1 := by
    have := h.lt
    exact u32_of_lt (by omega)
  have hdist : (a.insertRecord j r).Distinct := by
    intro x hx y hy hux hhash
    by_cases ex : x = j
    · by_cases ey : y = j
      · rw [ex, ey]
      · rw [ex, hself, hother y ey] at hhash
        exact absurd hhash.symm (hno y hy)
    · by_cases ey : y = j
      · rw [ey, hself, hother x ex] at hhash
        exact absurd hhash (hno x hx)
      · rw [hother x ex, hother y ey] at hhash
        exact h.distinct x hx y hy (hold x ex hux) hhash
  refine ⟨⟨h.two_le, h.lt, ?_, ?_, hdist, ?_, ?_, h.outer, h.inner⟩, hcount, ?_⟩
  · rw [hcount, (hashes_insert hj hun hr).length_eq, List.length_cons, h.used]
  · intro x hx hu
    by_cases e : x = j
    · subst e
      rw [hself]
      exact hc.mono hused
    · rw [hother x e]
      exact (h.chained x hx (hold x e hu)).mono hused
  · intro x hx hu hn
    by_cases e : x = j
    · subst e
      rw [hself] at hn ⊢
      exact (hnext hn).1
    · rw [hother x e] at hn ⊢
      exact h.next_lt x hx (hold x e hu) hn
  · intro x hx y hy hux huy hn heq
    by_cases ex : x = j
    · by_cases ey : y = j
      · rw [ex, ey]
      · rw [ex, hself] at hn heq
        rw [hother y ey] at heq
        exact absurd heq.symm ((hnext hn).2 y hy (hold y ey huy))
    · by_cases ey : y = j
      · rw [hother x ex] at hn heq
        rw [ey, hself] at heq
        exact absurd heq ((hnext (heq ▸ hn)).2 x hx (hold x ex hux))
      · rw [hother x ex] at hn heq
        rw [hother y ey] at heq
        exact h.next_inj x hx y hy (hold x ex hux) (hold y ey huy) hn heq
  · have hchange := recordsOf_change h.distinct hdist rfl hj
      (by rwa [hself]) (Or.inr (by simpa [Used] using hun)) fun x hx e => by
        refine ⟨by rw [hother x e], fun _ => ?_⟩
        simp only [slotRecords, hother x e]
        rfl
    rw [hchange, hself]
    simp only [slotRecords, hself]
    rfl

/-- the hash of a slot and the number of slots with records do not change -/
theorem hashes_congr (hn : a'.numSlots = a.numSlots)
    (hh : ∀ i < a.numSlots, (a'.data i).hash = (a.data i).hash) : a'.hashes = a.hashes := by
  unfold hashes
  rw [hn]
  refine slotList_congr fun i hi => ?_
  simp only [Used, hh i hi]
  exact if_congr Iff.rfl rfl rfl

/-- values and lists may change, hashes do not -/
theorem Sound.of_hashes (h : a.Sound) (hn : a'.numSlots = a.numSlots)
    (hu : a'.usedSlots = a.usedSlots)
    (hh : ∀ i < a.numSlots, (a'.data i).hash = (a.data i).hash)
    (hlt : ∀ i < a.numSlots, a.Used i → (a'.data i).next ≠ noNext →
      (a'.data i).next < a'.overflows.items.length)
    (hinj : ∀ i < a.numSlots, ∀ j < a.numSlots, a.Used i → a.Used j →
      (a'.data i).next ≠ noNext → (a'.data i).next = (a'.data j).next → i = j)
    (ho : a'.overflows.Ok ∧ a'.overflows.layout = a'.layouts.outer)
    (hi : ∀ w ∈ a'.overflows.items, w.Ok ∧ w.layout = a'.layouts.inner) : a'.Sound := by
  have hused : ∀ i < a.numSlots, a'.Used i ↔ a.Used i := fun i hi => by rw [Used, Used, hh i hi]
  refine ⟨hn ▸ h.two_le, hn ▸ h.lt, ?_, ?_, ?_, ?_, ?_, ho, hi⟩
  · rw [hu, hashes_congr hn hh, h.used]
  · rw [hn]
    intro i hi hui
    rw [hh i hi]
    obtain ⟨d, hd, he, hall⟩ := h.chained i hi ((hused i hi).mp hui)
    refine ⟨d, hd, he, fun e hlt => ?_⟩
    have hpos := h.two_le
    exact (hused _ (Nat.mod_lt _ (by omega))).mpr (hall e hlt)
  · intro i hi j hj hui hhash
    rw [hn] at hi hj
    rw [hh i hi, hh j hj] at hhash
    exact h.distinct i hi j hj ((hused i hi).mp hui) hhash
  · intro i hi hui
    rw [hn] at hi
    exact hlt i hi ((hused i hi).mp hui)
  · intro i hi j hj hui huj
    rw [hn] at hi hj
    exact hinj i hi j hj ((hused i hi).mp hui) ((hused j hj).mp huj)

end JoinPairArray

end Netsdb
