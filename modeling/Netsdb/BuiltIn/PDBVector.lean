import Netsdb.BuiltIn.Storage

/-!
# `Vector` (`PDBVector.cc`, `Array.cc`)

The array of a vector has `numSlots` slots, and `push_back` replaces a full array by one of twice
the size.
-/

namespace Netsdb

structure PDBVector (α : Type*) where
  layout : ArrayLayout
  numSlots : Nat
  items : List α

/-- the steps of `push_back` that allocate -/
inductive VectorSite
  /-- the memory for the larger array -/
  | array
  /-- element `i` copied into the larger array -/
  | copied (i : Nat)
  /-- the new element built, and assigned -/
  | construct
deriving DecidableEq, Repr

namespace PDBVector
variable {α : Type*}

/-- an array of `n` slots; `none`: they are not all in the storage -/
def create (l : ArrayLayout) (n : Nat) : Option (PDBVector α) :=
  if l.storage (l.objSize * n) < l.objSize * n then none else some ⟨l, n, []⟩

def isFull (v : PDBVector α) : Bool := v.items.length == v.numSlots

/-- `resize` to a larger size -/
def grow (fail : VectorSite → Bool) (v : PDBVector α) : Outcome (PDBVector α) Unit :=
  let howMany := u32 (v.numSlots * 2)
  if fail .array then .notEnoughSpace v
  else
    match (create v.layout howMany : Option (PDBVector α)) with
    | some w =>
      if (List.range v.items.length).any fun i => fail (.copied i) then .notEnoughSpace v
      else .ret { w with items := v.items.take howMany } ()
    | none => .fatal

def push_back (fail : VectorSite → Bool) (v : PDBVector α) (x : α) : Outcome (PDBVector α) Unit :=
  match (if v.isFull then v.grow fail else .ret v () : Outcome (PDBVector α) Unit) with
  | .ret w _ => if fail .construct then .notEnoughSpace w else .ret { w with items := w.items ++ [x] } ()
  | .notEnoughSpace w => .notEnoughSpace w
  | .fatal => .fatal

def pop_back (v : PDBVector α) : PDBVector α := { v with items := v.items.dropLast }

/-- the array has room for its elements, and was not larger than the allocator can give -/
structure Ok (v : PDBVector α) : Prop where
  le : v.items.length ≤ v.numSlots
  pos : 0 < v.numSlots
  fits : v.layout.Fits v.numSlots

/-- the condition on a `push_back`: a larger array is given, if there has to be one -/
def CanGrow (v : PDBVector α) : Prop := v.isFull = true → v.layout.Fits (v.numSlots * 2)

instance (v : PDBVector α) : Decidable v.CanGrow := inferInstanceAs (Decidable (_ → _))

variable {v : PDBVector α} {fail : VectorSite → Bool} {l : ArrayLayout}

theorem create_spec (h : l.Fits 1) : ∃ w : PDBVector α, create l 1 = some w ∧ w.Ok ∧ w.items = [] ∧
    w.isFull = false ∧ w.layout = l :=
  ⟨⟨l, 1, []⟩, if_neg (Nat.not_lt_of_le h.le_storage), ⟨Nat.zero_le _, Nat.one_pos, h⟩, rfl, rfl, rfl⟩

/-- a larger array, or none -/
theorem grow_spec (fail : VectorSite → Bool) (h : v.Ok) (hf : v.layout.Fits (v.numSlots * 2)) :
    (v.grow fail = .notEnoughSpace v ∧ ∃ site, fail site = true) ∨
      ∃ w, v.grow fail = .ret w () ∧ w.Ok ∧ w.items = v.items ∧ w.layout = v.layout ∧
        w.numSlots = v.numSlots * 2 := by
  have hmany : u32 (v.numSlots * 2) = v.numSlots * 2 := u32_of_lt hf.lt
  have hcreate : create v.layout (v.numSlots * 2) =
      some (⟨v.layout, v.numSlots * 2, []⟩ : PDBVector α) := if_neg (Nat.not_lt_of_le hf.le_storage)
  have hle := h.le
  have hpos := h.pos
  simp only [grow, hmany, hcreate]
  by_cases ha : fail .array = true
  · rw [if_pos ha]
    exact Or.inl ⟨rfl, _, ha⟩
  · rw [if_neg ha]
    by_cases hc : ((List.range v.items.length).any fun i => fail (.copied i)) = true
    · rw [if_pos hc]
      obtain ⟨i, -, hi⟩ := List.any_eq_true.mp hc
      exact Or.inl ⟨rfl, _, hi⟩
    · rw [if_neg hc]
      have htake : v.items.take (v.numSlots * 2) = v.items := List.take_of_length_le (by omega)
      refine Or.inr ⟨_, rfl, ⟨?_, ?_, hf⟩, htake, rfl, rfl⟩
      · show (v.items.take (v.numSlots * 2)).length ≤ v.numSlots * 2
        rw [htake]
        omega
      · show 0 < v.numSlots * 2
        omega

theorem grow_not_full (h : v.Ok) (hfull : v.isFull = false) : v.items.length < v.numSlots := by
  have hle := h.le
  have hne : v.items.length ≠ v.numSlots := by simpa [isFull] using hfull
  omega

/-- the array that the new element is put into -/
theorem enlarge_spec (fail : VectorSite → Bool) (h : v.Ok) (hg : v.CanGrow) :
    (∃ w, (if v.isFull then v.grow fail else .ret v () : Outcome (PDBVector α) Unit) =
        .notEnoughSpace w ∧ w = v ∧ ∃ site, fail site = true) ∨
      ∃ w, (if v.isFull then v.grow fail else .ret v () : Outcome (PDBVector α) Unit) = .ret w () ∧
        w.Ok ∧ w.items = v.items ∧ w.layout = v.layout ∧ w.items.length < w.numSlots := by
  by_cases hfull : v.isFull = true
  · rw [if_pos hfull]
    obtain ⟨hw, hsite⟩ | ⟨w, hw, hok, hi, hl, hn⟩ := grow_spec fail h (hg hfull)
    · exact Or.inl ⟨v, hw, rfl, hsite⟩
    · refine Or.inr ⟨w, hw, hok, hi, hl, ?_⟩
      have hle := h.le
      have hpos := h.pos
      rw [hi, hn]
      omega
  · rw [if_neg hfull]
    exact Or.inr ⟨v, rfl, h, rfl, rfl, grow_not_full h (by simpa using hfull)⟩

/-- **`push_back`.** -/
theorem push_back_spec (fail : VectorSite → Bool) (h : v.Ok) (hg : v.CanGrow) (x : α) :
    (∃ w, v.push_back fail x = .notEnoughSpace w ∧ w.Ok ∧ w.items = v.items ∧
        w.layout = v.layout ∧ ∃ site, fail site = true) ∨
      ∃ w, v.push_back fail x = .ret w () ∧ w.Ok ∧ w.items = v.items ++ [x] ∧
        w.layout = v.layout := by
  obtain ⟨w, hw, rfl, hsite⟩ | ⟨w, hw, hok, hi, hl, hroom⟩ := enlarge_spec fail h hg
  · exact Or.inl ⟨w, by simp only [push_back, hw], h, rfl, rfl, hsite⟩
  · simp only [push_back, hw]
    by_cases hc : fail .construct = true
    · rw [if_pos hc]
      exact Or.inl ⟨w, rfl, hok, hi, hl, _, hc⟩
    · rw [if_neg hc]
      refine Or.inr ⟨_, rfl, ⟨?_, hok.pos, hok.fits⟩, ?_, hl⟩
      · show (w.items ++ [x]).length ≤ w.numSlots
        rw [List.length_append, List.length_singleton]
        omega
      · show w.items ++ [x] = v.items ++ [x]
        rw [hi]

theorem Ok.pop_back (h : v.Ok) : v.pop_back.Ok :=
  ⟨by
    show v.items.dropLast.length ≤ v.numSlots
    rw [List.length_dropLast]
    exact (Nat.sub_le _ _).trans h.le, h.pos, h.fits⟩

end PDBVector

end Netsdb
