import Mathlib.Algebra.Notation.Defs
import Mathlib.Order.Lattice
import Mathlib.Tactic.Common

/-!
# Arrays that are cut into slices

Outside of its shape an array is zero, so that two arrays are equal if their entries are.

* `Array1`, `Array2`   one and two dimensions;
* `pad`                rows and columns of zeros added at the end;
* `slice`              the entries between bounds, which are cut off at the shape;
* `setSlice`           the same entries replaced by another array.
-/

/-- one dimension -/
@[ext] structure Array1 (W : Type*) [Zero W] where
  n : ℕ
  get : ℕ → W
  outside : ∀ i, n ≤ i → get i = 0

/-- two dimensions -/
@[ext] structure Array2 (W : Type*) [Zero W] where
  nx : ℕ
  ny : ℕ
  get : ℕ → ℕ → W
  outside : ∀ i j, nx ≤ i ∨ ny ≤ j → get i j = 0

namespace Array2
variable {W : Type*} [Zero W] {a b : Array2 W} {f : ℕ → ℕ → W} {nx ny i j x0 x1 y0 y1 u0 u1 v0 v1 : ℕ}

/-- the entries of a function -/
def of (nx ny : ℕ) (f : ℕ → ℕ → W) : Array2 W where
  nx := nx
  ny := ny
  get i j := if i < nx ∧ j < ny then f i j else 0
  outside _ _ h := if_neg fun hin => h.elim (Nat.not_le_of_lt hin.1) (Nat.not_le_of_lt hin.2)

theorem of_get (hi : i < nx) (hj : j < ny) : (of nx ny f).get i j = f i j := if_pos ⟨hi, hj⟩

/-- a vector as a column, and back -/
def column (v : Array1 W) : Array2 W := of v.n 1 fun i _ => v.get i

def first (a : Array2 W) (n : ℕ) : Array1 W where
  n := min n a.nx
  get i := if i < n then a.get i 0 else 0
  outside i h := by
    by_cases hn : i < n
    · rw [if_pos hn]
      exact a.outside i 0 (Or.inl (by omega))
    · exact if_neg hn

def pad (a : Array2 W) (nx ny : ℕ) : Array2 W := of (max nx a.nx) (max ny a.ny) a.get

def slice (a : Array2 W) (x0 x1 y0 y1 : ℕ) : Array2 W :=
  of (min x1 a.nx - x0) (min y1 a.ny - y0) fun i j => a.get (x0 + i) (y0 + j)

def setSlice (a : Array2 W) (x0 x1 y0 y1 : ℕ) (b : Array2 W) : Array2 W :=
  of a.nx a.ny fun i j =>
    if (x0 ≤ i ∧ i < x1) ∧ y0 ≤ j ∧ j < y1 then b.get (i - x0) (j - y0) else a.get i j

theorem pad_get (a : Array2 W) (nx ny i j : ℕ) : (a.pad nx ny).get i j = a.get i j := by
  by_cases h : i < max nx a.nx ∧ j < max ny a.ny
  · exact if_pos h
  · refine (if_neg h).trans (a.outside i j ?_).symm
    omega

theorem slice_get (hi : i < min x1 a.nx - x0) (hj : j < min y1 a.ny - y0) :
    (a.slice x0 x1 y0 y1).get i j = a.get (x0 + i) (y0 + j) := of_get hi hj

/-- what is padded is cut off again -/
theorem slice_pad (a : Array2 W) (nx ny : ℕ) : (a.pad nx ny).slice 0 a.nx 0 a.ny = a := by
  have hx : min a.nx (max nx a.nx) - 0 = a.nx := by omega
  have hy : min a.ny (max ny a.ny) - 0 = a.ny := by omega
  ext i j
  · exact hx
  · exact hy
  · by_cases h : i < a.nx ∧ j < a.ny
    · refine (slice_get (hx.symm ▸ h.1) (hy.symm ▸ h.2)).trans ?_
      rw [Nat.zero_add, Nat.zero_add]
      exact pad_get a nx ny i j
    · rw [a.outside i j (by omega)]
      refine Array2.outside _ i j ?_
      show min a.nx (max nx a.nx) - 0 ≤ i ∨ min a.ny (max ny a.ny) - 0 ≤ j
      omega

theorem first_pad_column (v : Array1 W) (nx ny : ℕ) : ((column v).pad nx ny).first v.n = v := by
  have hn : min v.n (max nx v.n) = v.n := by omega
  ext i
  · exact hn
  · by_cases h : i < v.n
    · refine (if_pos h).trans ?_
      rw [pad_get]
      exact of_get h Nat.one_pos
    · rw [v.outside i (Nat.le_of_not_lt h)]
      exact if_neg h

/-- **A slice keeps its contents** when another one is replaced. -/
theorem slice_setSlice (h : (x1 ≤ u0 ∨ u1 ≤ x0) ∨ y1 ≤ v0 ∨ v1 ≤ y0) :
    (a.setSlice u0 u1 v0 v1 b).slice x0 x1 y0 y1 = a.slice x0 x1 y0 y1 := by
  ext i j
  · rfl
  · rfl
  · by_cases hin : i < min x1 a.nx - x0 ∧ j < min y1 a.ny - y0
    · obtain ⟨hi, hj⟩ := hin
      have hout : ¬ ((u0 ≤ x0 + i ∧ x0 + i < u1) ∧ v0 ≤ y0 + j ∧ y0 + j < v1) := by omega
      have hget : (a.setSlice u0 u1 v0 v1 b).get (x0 + i) (y0 + j) = a.get (x0 + i) (y0 + j) :=
        (of_get (by omega) (by omega)).trans (if_neg hout)
      exact (slice_get (a := a.setSlice u0 u1 v0 v1 b) hi hj).trans (hget.trans (slice_get hi hj).symm)
    · rw [outside _ i j, outside _ i j]
      · show min x1 a.nx - x0 ≤ i ∨ min y1 a.ny - y0 ≤ j
        omega
      · show min x1 a.nx - x0 ≤ i ∨ min y1 a.ny - y0 ≤ j
        omega

end Array2
