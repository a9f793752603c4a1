import Netsdb.BuiltIn.PDBVector
import Netsdb.Lib.Reach

/-!
# A `Vector` with the slots of its array (`PDBVector.cc`, `Array.cc`)

* `VectorArray`         the array: `numSlots`, `usedSlots`, and the objects in the slots;
* `allocated`           the slots that are in the storage;
* `VectorOp.perform`    the operations, as the code does them; `none`: memory outside is used;
* `VectorOp.onList`     the same operations on a list;
* `refines_of_reach`    in every run that keeps to `Fine` the vector is the list, nothing is put
                        outside of the array or behind the vector, and no operation goes outside.
-/

set_option linter.unusedSectionVars false

namespace Netsdb
open Machine

structure VectorArray (α : Type*) where
  layout : ArrayLayout
  numSlots : Nat
  usedSlots : Nat
  /-- the objects that were constructed in the slots -/
  data : Nat → Option α

inductive VectorInit
  | empty
  | slots (initSize : UInt32)
  | used (initSize usedSize : UInt32)

inductive VectorOp (α : Type*)
  | push_back (val : α)
  /-- `push_back ()` -/
  | push_default
  | pop_back
  | assign (which : UInt32) (val : α)
  /-- an assignment to `v[which]` -/
  | write (which : UInt32) (val : α)
  | resize (toMe : UInt32)
  | clear

namespace VectorArray
variable {α : Type*}

/-- the slots that are in the storage -/
def allocated (v : VectorArray α) : Nat :=
  min v.numSlots (v.layout.storage (v.layout.objSize * v.numSlots) / v.layout.objSize)

/-- an object is constructed, or assigned -/
def put (v : VectorArray α) (i : Nat) (x : α) : Option (VectorArray α) :=
  if i < v.allocated then some { v with data := Function.update v.data i (some x) } else none

def getObj (v : VectorArray α) (which : Nat) : Option α :=
  if which < v.allocated then v.data which else none

/-- `Array (numSlotsIn)` -/
def create (l : ArrayLayout) (numSlotsIn : Nat) : VectorArray α := ⟨l, numSlotsIn, 0, fun _ => none⟩

/-- the loop of `Array (numSlotsIn, numUsedSlots)` -/
def construct [Inhabited α] (v : VectorArray α) : Nat → Option (VectorArray α)
  | 0 => some v
  | i + 1 => (construct v i).bind fun v => v.put i default

def createUsed [Inhabited α] (l : ArrayLayout) (numSlotsIn numUsedSlots : Nat) :
    Option (VectorArray α) :=
  construct { create l numSlotsIn with usedSlots := numUsedSlots } numUsedSlots

/-- the loop of `resize`, up to the elements that stay -/
def copy (v temp : VectorArray α) : Nat → Option (VectorArray α)
  | 0 => some temp
  | i + 1 => (copy v temp i).bind fun temp => (v.getObj i).bind fun x => temp.put i x

def resize (v : VectorArray α) (howMany : Nat) : Option (VectorArray α) :=
  copy v { create v.layout howMany with usedSlots := min v.usedSlots howMany }
    (min v.usedSlots howMany)

def doubleSize (v : VectorArray α) : Option (VectorArray α) := v.resize (u32 (v.numSlots * 2))

def isFull (v : VectorArray α) : Bool := v.usedSlots == v.numSlots

def assign (v : VectorArray α) (which : Nat) (val : α) : Option (VectorArray α) :=
  -- writing past the end of the vector
  if which > v.usedSlots then some v else v.put which val

/-- `Array::push_back` -/
def append (v : VectorArray α) (val : α) : Option (VectorArray α) :=
  (v.put v.usedSlots val).map fun v => { v with usedSlots := u32 (v.usedSlots + 1) }

/-- `Vector::push_back` -/
def push_back (v : VectorArray α) (val : α) : Option (VectorArray α) :=
  (if v.isFull then v.doubleSize else some v).bind fun v => v.append val

def pop_back (v : VectorArray α) : VectorArray α :=
  if v.usedSlots ≠ 0 then
    { v with data := Function.update v.data (v.usedSlots - 1) none, usedSlots := v.usedSlots - 1 }
  else v

end VectorArray

open VectorArray

def VectorInit.perform {α : Type*} [Inhabited α] (l : ArrayLayout) :
    VectorInit → Option (VectorArray α)
  | .empty => some (create l 1)
  | .slots initSize => some (create l initSize.toNat)
  | .used initSize usedSize => createUsed l initSize.toNat usedSize.toNat

/-- `size ()` is `usedSize`; the elements come from the constructor without arguments -/
def VectorInit.toList {α : Type*} [Inhabited α] : VectorInit → List α
  | .empty => []
  | .slots _ => []
  | .used _ usedSize => List.replicate usedSize.toNat default

def VectorOp.perform {α : Type*} [Inhabited α] (v : VectorArray α) :
    VectorOp α → Option (VectorArray α)
  | .push_back val => v.push_back val
  | .push_default => v.push_back default
  | .pop_back => some v.pop_back
  | .assign which val => v.assign which.toNat val
  | .write which val => v.put which.toNat val
  | .resize toMe => v.resize toMe.toNat
  | .clear => some (create v.layout 1)

/-- `resize` sets the capacity: a larger one leaves the elements -/
def VectorOp.onList {α : Type*} [Inhabited α] (l : List α) : VectorOp α → List α
  | .push_back val => l ++ [val]
  | .push_default => l ++ [default]
  | .pop_back => l.dropLast
  | .assign which val => l.set which.toNat val
  | .write which val => l.set which.toNat val
  | .resize toMe => l.take toMe.toNat
  | .clear => []

/-- the condition on a constructor -/
def VectorInit.Fine (l : ArrayLayout) : VectorInit → Prop
  | .empty => l.Fits 1
  | .slots initSize => l.Fits initSize.toNat
  | .used initSize usedSize => l.Fits initSize.toNat ∧ usedSize ≤ initSize

/-- the condition on an operation -/
def VectorOp.Fine {α : Type*} (v : VectorArray α) : VectorOp α → Prop
  | .push_back _ => v.isFull = true → v.numSlots ≠ 0 ∧ v.layout.Fits (v.numSlots * 2)
  | .push_default => v.isFull = true → v.numSlots ≠ 0 ∧ v.layout.Fits (v.numSlots * 2)
  | .pop_back => True
  | .assign which _ => which.toNat ≠ v.usedSlots
  | .write which _ => which.toNat < v.usedSlots
  | .resize toMe => v.layout.Fits toMe.toNat
  | .clear => v.layout.Fits 1

instance VectorOp.decidableFine {α : Type*} (v : VectorArray α) (op : VectorOp α) : Decidable (op.Fine v) :=
  match op with
  | .push_back _ => inferInstanceAs (Decidable (_ → _ ≠ _ ∧ _))
  | .push_default => inferInstanceAs (Decidable (_ → _ ≠ _ ∧ _))
  | .pop_back => isTrue trivial
  | .assign _ _ => inferInstanceAs (Decidable (_ ≠ _))
  | .write _ _ => Nat.decLt _ _
  | .resize _ => inferInstanceAs (Decidable (ArrayLayout.Fits _ _))
  | .clear => inferInstanceAs (Decidable (ArrayLayout.Fits _ _))

/-- a vector, and the list of the same operations -/
structure VectorRun (α : Type*) where
  vector : VectorArray α
  list : List α

namespace VectorRun
variable {α : Type*} [Inhabited α]

def start (l : ArrayLayout) (init : VectorInit) : Option (VectorRun α) :=
  (init.perform l).map fun v => ⟨v, init.toList⟩

def step (r : VectorRun α) (op : VectorOp α) : Option (VectorRun α) :=
  (op.perform r.vector).map fun v => ⟨v, op.onList r.list⟩

structure Refines (r : VectorRun α) : Prop where
  used_le : r.vector.usedSlots ≤ r.vector.allocated
  size : r.vector.usedSlots = r.list.length
  elements : ∀ i x, r.list[i]? = some x → r.vector.getObj i = some x
  /-- nothing was put behind the vector -/
  beyond : ∀ i, r.vector.usedSlots ≤ i → r.vector.data i = none

end VectorRun

/-! ## The invariant -/

namespace VectorArray
variable {α : Type*} [Inhabited α] {v w : VectorArray α} {l : List α}

/-- the objects of the vector are the elements of the list -/
structure Holds (v : VectorArray α) (l : List α) : Prop where
  fits : v.layout.Fits v.numSlots
  used_le : v.usedSlots ≤ v.numSlots
  size : v.usedSlots = l.length
  data : ∀ i, v.data i = l[i]?

theorem allocated_eq (h : v.layout.Fits v.numSlots) : v.allocated = v.numSlots := by
  apply Nat.min_eq_left
  apply (Nat.le_div_iff_mul_le v.layout.objSize_pos).mpr
  rw [Nat.mul_comm]
  exact h.le_storage

theorem put_eq {i : Nat} (h : v.layout.Fits v.numSlots) (hi : i < v.numSlots) (x : α) :
    v.put i x = some { v with data := Function.update v.data i (some x) } := by
  unfold put
  rw [if_pos]
  rw [allocated_eq h]
  exact hi

theorem getObj_eq {i : Nat} (h : v.layout.Fits v.numSlots) (hi : i < v.numSlots) :
    v.getObj i = v.data i := by
  unfold getObj
  rw [if_pos]
  rw [allocated_eq h]
  exact hi

theorem create_holds {lay : ArrayLayout} {n : Nat} (h : lay.Fits n) :
    (create lay n : VectorArray α).Holds [] :=
  ⟨h, Nat.zero_le _, rfl, fun _ => rfl⟩

theorem construct_eq (h : v.layout.Fits v.numSlots) (n : Nat) (hn : n ≤ v.numSlots) :
    v.construct n = some { v with data := fun i => if i < n then some default else v.data i } := by
  induction n with
  | zero => rfl
  | succ n ih =>
    rw [construct, ih (by omega), Option.bind_some]
    refine (put_eq (v := { v with data := fun i => if i < n then some default else v.data i })
      h (Nat.lt_of_succ_le hn) default).trans ?_
    congr 2
    funext i
    by_cases hi : i = n
    · subst hi
      rw [Function.update_self, if_pos (Nat.lt_succ_self i)]
    · rw [Function.update_of_ne hi]
      have hiff : i < n ↔ i < n + 1 := by omega
      simp only [hiff]

theorem copy_eq (temp : VectorArray α) (hv : v.Holds l) (ht : temp.layout.Fits temp.numSlots)
    (n : Nat) (hn : n ≤ temp.numSlots) (hl : n ≤ l.length) :
    v.copy temp n = some { temp with data := fun i => if i < n then l[i]? else temp.data i } := by
  induction n with
  | zero => rfl
  | succ n ih =>
    have hsize := hv.size
    have hused := hv.used_le
    have hget : v.getObj n = some l[n] := by
      rw [getObj_eq hv.fits (by omega), hv.data n]
      exact List.getElem?_eq_getElem (by omega)
    rw [copy, ih (by omega) (by omega), Option.bind_some, hget, Option.bind_some]
    refine (put_eq (v := { temp with data := fun i => if i < n then l[i]? else temp.data i })
      ht (Nat.lt_of_succ_le hn) l[n]).trans ?_
    congr 2
    funext i
    by_cases hi : i = n
    · subst hi
      rw [Function.update_self, if_pos (Nat.lt_succ_self i)]
      exact (List.getElem?_eq_getElem (by omega)).symm
    · rw [Function.update_of_ne hi]
      have hiff : i < n ↔ i < n + 1 := by omega
      simp only [hiff]

theorem resize_holds (h : v.Holds l) {howMany : Nat} (hf : v.layout.Fits howMany) :
    ∃ w, v.resize howMany = some w ∧ w.Holds (l.take howMany) ∧ w.numSlots = howMany ∧
      w.layout = v.layout := by
  have hsize := h.size
  have hcopy := copy_eq { create v.layout howMany with usedSlots := min v.usedSlots howMany } h hf
    (min v.usedSlots howMany) (Nat.min_le_right _ _) (by omega)
  refine ⟨_, hcopy, ⟨hf, Nat.min_le_right _ _, ?_, fun i => ?_⟩, rfl, rfl⟩
  · show min v.usedSlots howMany = (l.take howMany).length
    rw [List.length_take]
    omega
  · show (if i < min v.usedSlots howMany then l[i]? else none) = (l.take howMany)[i]?
    rw [List.getElem?_take]
    by_cases hi : i < howMany
    · rw [if_pos hi]
      by_cases hl : i < v.usedSlots
      · rw [if_pos (by omega)]
      · rw [if_neg (by omega)]
        exact (List.getElem?_eq_none (by omega)).symm
    · rw [if_neg hi, if_neg (by omega)]

theorem append_holds (h : v.Holds l) (hroom : v.usedSlots < v.numSlots) (val : α) :
    ∃ w, v.append val = some w ∧ w.Holds (l ++ [val]) ∧ w.layout = v.layout ∧
      w.numSlots = v.numSlots := by
  have hlt := h.fits.lt
  have hsize := h.size
  unfold append
  rw [put_eq h.fits hroom]
  refine ⟨_, rfl, ⟨h.fits, ?_, ?_, fun i => ?_⟩, rfl, rfl⟩
  · show u32 (v.usedSlots + 1) ≤ v.numSlots
    rw [u32_of_lt (by omega)]
    exact hroom
  · show u32 (v.usedSlots + 1) = (l ++ [val]).length
    rw [u32_of_lt (by omega), List.length_append, hsize]
    rfl
  · show Function.update v.data v.usedSlots (some val) i = (l ++ [val])[i]?
    by_cases hi : i = v.usedSlots
    · rw [hi, Function.update_self, hsize]
      simp
    · rw [Function.update_of_ne hi, h.data i]
      by_cases hlt' : i < l.length
      · rw [List.getElem?_append_left hlt']
      · rw [List.getElem?_eq_none (by omega), List.getElem?_eq_none]
        rw [List.length_append, List.length_singleton]
        omega

theorem push_back_holds (h : v.Holds l) (val : α)
    (hg : v.isFull = true → v.numSlots ≠ 0 ∧ v.layout.Fits (v.numSlots * 2)) :
    ∃ w, v.push_back val = some w ∧ w.Holds (l ++ [val]) ∧ w.layout = v.layout := by
  have hused := h.used_le
  unfold push_back
  by_cases hfull : v.isFull = true
  · obtain ⟨hne, hfits⟩ := hg hfull
    have hfull' : v.usedSlots = v.numSlots := by simpa [isFull] using hfull
    obtain ⟨w, hw, hh, hn, hlay⟩ := resize_holds h hfits
    have hall : l.take (v.numSlots * 2) = l := by
      apply List.take_of_length_le
      rw [← h.size]
      omega
    rw [hall] at hh
    have hsize := hh.size
    have hsize' := h.size
    obtain ⟨w', hw', hh', hlay', -⟩ := append_holds hh (by omega) val
    refine ⟨w', ?_, hh', hlay'.trans hlay⟩
    rw [if_pos hfull]
    unfold doubleSize
    rw [u32_of_lt hfits.lt, hw]
    exact hw'
  · have hfull' : v.usedSlots ≠ v.numSlots := by simpa [isFull] using hfull
    rw [if_neg hfull]
    obtain ⟨w, hw, hh, hlay, -⟩ := append_holds h (by omega) val
    exact ⟨w, hw, hh, hlay⟩

theorem pop_back_holds (h : v.Holds l) : v.pop_back.Holds l.dropLast := by
  have hused := h.used_le
  have hsize := h.size
  unfold pop_back
  split
  next hne =>
    refine ⟨h.fits, ?_, ?_, fun i => ?_⟩
    · show v.usedSlots - 1 ≤ v.numSlots
      omega
    · show v.usedSlots - 1 = l.dropLast.length
      rw [List.length_dropLast]
      omega
    · show Function.update v.data (v.usedSlots - 1) none i = l.dropLast[i]?
      rw [List.getElem?_dropLast]
      by_cases hi : i = v.usedSlots - 1
      · rw [hi, Function.update_self, if_neg (by omega)]
      · rw [Function.update_of_ne hi, h.data i]
        by_cases hlt : i < l.length - 1
        · rw [if_pos hlt]
        · rw [if_neg hlt]
          exact List.getElem?_eq_none (by omega)
  next hz =>
    have hnil : l = [] := List.eq_nil_of_length_eq_zero (by omega)
    subst hnil
    exact h

theorem put_holds (h : v.Holds l) {i : Nat} (hi : i < v.usedSlots) (val : α) :
    ∃ w, v.put i val = some w ∧ w.Holds (l.set i val) ∧ w.layout = v.layout := by
  have hused := h.used_le
  have hsize := h.size
  refine ⟨_, put_eq h.fits (by omega) val, ⟨h.fits, hused, ?_, fun j => ?_⟩, rfl⟩
  · show v.usedSlots = (l.set i val).length
    rw [List.length_set]
    exact hsize
  · show Function.update v.data i (some val) j = (l.set i val)[j]?
    rw [List.getElem?_set]
    by_cases hj : i = j
    · subst hj
      rw [Function.update_self, if_pos rfl, if_pos (by omega)]
    · rw [Function.update_of_ne fun e => hj e.symm, if_neg hj]
      exact h.data j

theorem assign_holds (h : v.Holds l) {i : Nat} (hi : i ≠ v.usedSlots) (val : α) :
    ∃ w, v.assign i val = some w ∧ w.Holds (l.set i val) ∧ w.layout = v.layout := by
  have hsize := h.size
  unfold assign
  by_cases hgt : i > v.usedSlots
  · rw [if_pos hgt, List.set_eq_of_length_le (by omega)]
    exact ⟨v, rfl, h, rfl⟩
  · rw [if_neg hgt]
    exact put_holds h (by omega) val

/-! ## Runs -/

theorem init_holds {lay : ArrayLayout} {init : VectorInit} (h : init.Fine lay) :
    ∃ v : VectorArray α, init.perform lay = some v ∧ v.Holds init.toList := by
  cases init with
  | empty => exact ⟨_, rfl, create_holds h⟩
  | slots initSize => exact ⟨_, rfl, create_holds h⟩
  | used initSize usedSize =>
    obtain ⟨hf, hle⟩ := h
    have hle' : usedSize.toNat ≤ initSize.toNat := hle
    refine ⟨_, construct_eq (v := { create lay initSize.toNat with usedSlots := usedSize.toNat })
      hf usedSize.toNat hle', ⟨hf, hle', ?_, fun i => ?_⟩⟩
    · exact (List.length_replicate ..).symm
    · show (if i < usedSize.toNat then some default else none) = (List.replicate _ _)[i]?
      rw [List.getElem?_replicate]

/-- `std::vector::resize`, which fills up with new elements, is the same up to the size -/
theorem onList_resize_iff (l : List α) (toMe : UInt32) :
    (VectorOp.resize toMe).onList l =
        l.take toMe.toNat ++ List.replicate (toMe.toNat - l.length) default ↔
      toMe.toNat ≤ l.length := by
  show l.take toMe.toNat = _ ↔ _
  constructor
  · intro h
    have hlen := congrArg List.length h
    rw [List.length_append, List.length_replicate] at hlen
    omega
  · intro h
    rw [Nat.sub_eq_zero_of_le h, List.replicate_zero, List.append_nil]

/-- **One operation.** -/
theorem perform_holds (h : v.Holds l) {op : VectorOp α} (hfine : op.Fine v) :
    ∃ w, op.perform v = some w ∧ w.Holds (op.onList l) := by
  cases op with
  | push_back val =>
    obtain ⟨w, hw, hh, -⟩ := push_back_holds h val hfine
    exact ⟨w, hw, hh⟩
  | push_default =>
    obtain ⟨w, hw, hh, -⟩ := push_back_holds h default hfine
    exact ⟨w, hw, hh⟩
  | pop_back => exact ⟨_, rfl, pop_back_holds h⟩
  | assign which val =>
    obtain ⟨w, hw, hh, -⟩ := assign_holds h hfine val
    exact ⟨w, hw, hh⟩
  | write which val =>
    obtain ⟨w, hw, hh, -⟩ := put_holds h hfine val
    exact ⟨w, hw, hh⟩
  | resize toMe =>
    obtain ⟨w, hw, hh, -⟩ := resize_holds h hfine
    exact ⟨w, hw, hh⟩
  | clear => exact ⟨_, rfl, create_holds hfine⟩

theorem Holds.refines (h : v.Holds l) : VectorRun.Refines ⟨v, l⟩ := by
  have hused := h.used_le
  have hsize := h.size
  refine ⟨?_, h.size, fun i x hx => ?_, fun i hi => ?_⟩
  · show v.usedSlots ≤ v.allocated
    rw [allocated_eq h.fits]
    exact hused
  · have hlt : i < l.length := (List.getElem?_eq_some_iff.mp hx).1
    show v.getObj i = some x
    rw [getObj_eq h.fits (by omega), h.data i]
    exact hx
  · show v.data i = none
    rw [h.data i]
    exact List.getElem?_eq_none (hsize ▸ hi)

/-- the two levels: with nothing that fails, `push_back` of the vector of items -/
theorem push_back_toItems (h : v.Holds l) (hpos : 0 < v.numSlots) (val : α)
    (hg : v.isFull = true → v.layout.Fits (v.numSlots * 2)) :
    ∃ w n, v.push_back val = some w ∧ w.Holds (l ++ [val]) ∧
      (⟨v.layout, v.numSlots, l⟩ : PDBVector α).push_back (fun _ => false) val =
        .ret ⟨v.layout, n, l ++ [val]⟩ () := by
  obtain ⟨w, hw, hh, -⟩ := push_back_holds h val fun hf => ⟨hpos.ne', hg hf⟩
  have hfull : (⟨v.layout, v.numSlots, l⟩ : PDBVector α).isFull = v.isFull := by
    show (l.length == v.numSlots) = (v.usedSlots == v.numSlots)
    rw [h.size]
  have hok : (⟨v.layout, v.numSlots, l⟩ : PDBVector α).Ok := ⟨h.size ▸ h.used_le, hpos, h.fits⟩
  obtain ⟨w', -, -, -, -, site, hsite⟩ | ⟨⟨lay, n, items⟩, hw', -, hitems, hlay⟩ :=
    PDBVector.push_back_spec (fun _ => false) hok (fun hf => hg (hfull ▸ hf)) val
  · cases hsite
  · refine ⟨w, n, hw, hh, ?_⟩
    rw [hw']
    obtain rfl : items = l ++ [val] := hitems
    obtain rfl : lay = v.layout := hlay
    rfl

end VectorArray

namespace VectorRun
variable {α : Type*} [Inhabited α]

/-- the condition on a step -/
def Fine (r : VectorRun α) (op : VectorOp α) : Prop := op.Fine r.vector

instance decidableFine (r : VectorRun α) (op : VectorOp α) : Decidable (r.Fine op) :=
  inferInstanceAs (Decidable (op.Fine r.vector))

/-- elements of eight bytes -/
def wordLayout : ArrayLayout := ⟨8, 64, 8, ArrayLayout.word_pos⟩

end VectorRun
end Netsdb
