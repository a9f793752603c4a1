import Netsdb.ObjectModel.Block

/-!
# Storage of variable-length arrays

`PairArray`, `JoinPairArray` and `Array` keep their elements in the extra bytes that
`makeObjectWithExtraStorage` asks for.  The request is converted to `unsigned` in `getRAM`, so
`ArrayLayout.storage` can be much less than what was asked for; `ArrayLayout.Fits` says that it
is not.
-/

namespace Netsdb

/-- how a call ends; an exception leaves the state as it is at that moment -/
inductive Outcome (σ α : Type*)
  | ret (s : σ) (a : α)
  | notEnoughSpace (s : σ)
  /-- `exit (1)`, or memory outside of the array is used -/
  | fatal

/-- the state is part of a larger one -/
def Outcome.lift {σ τ α : Type*} (f : σ → τ) : Outcome σ α → Outcome τ α
  | .ret s a => .ret (f s) a
  | .notEnoughSpace s => .notEnoughSpace (f s)
  | .fatal => .fatal

/-- what a call that returns leaves behind -/
def Outcome.ret? {σ α : Type*} : Outcome σ α → Option σ
  | .ret s _ => some s
  | _ => none

/-- the sizes that the compiler lays down for an array class -/
structure ArrayLayout where
  /-- bytes of one element -/
  objSize : Nat
  /-- bytes from the start of the RAM to `data` -/
  dataOffset : Nat
  /-- bytes that `sizeof` counts behind the start of `data` -/
  tail : Nat
  objSize_pos : 0 < objSize

namespace ArrayLayout

/-! elements of one, two and three words -/

theorem word_pos : 0 < 8 := by decide
theorem twoWords_pos : 0 < 16 := by decide
theorem threeWords_pos : 0 < 24 := by decide

/-- what `getRAM` is asked for -/
def request (l : ArrayLayout) (extra : Nat) : Nat := extra + l.dataOffset + l.tail

/-- the bytes from `data` to the end of the chunk -/
def storage (l : ArrayLayout) (extra : Nat) : Nat :=
  bytesNeeded (l.request extra) - (chunkHeaderSize + l.dataOffset)

/-- a request for `n` elements is not changed by the conversion to `unsigned` -/
def Fits (l : ArrayLayout) (n : Nat) : Prop := roundedRequest (l.request (l.objSize * n)) < 2^32

instance (l : ArrayLayout) (n : Nat) : Decidable (l.Fits n) := Nat.decLt _ _

variable {l : ArrayLayout} {n : Nat}

theorem Fits.bytes_lt (h : l.Fits n) : l.objSize * n < 2^32 := by
  have hge := roundedRequest_ge (l.request (l.objSize * n))
  unfold Fits at h
  unfold request at *
  omega

theorem Fits.le_storage (h : l.Fits n) : l.objSize * n ≤ l.storage (l.objSize * n) := by
  have hge := roundedRequest_ge (l.request (l.objSize * n))
  unfold storage
  rw [bytesNeeded_eq h]
  unfold request at *
  omega

theorem Fits.lt (h : l.Fits n) : n < 2^32 := by
  have h1 := h.bytes_lt
  have h2 := Nat.le_mul_of_pos_left n l.objSize_pos
  omega

theorem Fits.mono {m : Nat} (h : l.Fits n) (hm : m ≤ n) : l.Fits m := by
  have hmul := Nat.mul_le_mul_left l.objSize hm
  unfold Fits request roundedRequest chunkHeaderSize at *
  omega

end ArrayLayout

end Netsdb
