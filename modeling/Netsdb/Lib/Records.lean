import Netsdb.Lib.Bytes
import Mathlib.Data.List.Pairwise

/-!
# Records behind their lengths

A row of records in a memory of bytes: each has a number of `w` bytes before it that says how long
it is.  Nothing marks the end of the row.

* `Laid`             the records of a list stand one behind the other;
* `Laid.congr`       only the lengths of the records count;
* `Laid.pairwise`    the records do not overlap;
* `Laid.append`      one more record.
-/

namespace Bytes

structure Extent where
  start : Nat
  size : Nat
deriving DecidableEq

def Extent.Has (r : Extent) (x : Nat) : Prop := r.start ≤ x ∧ x < r.start + r.size

/-- from `a` to `b`, each record behind its length -/
def Laid (m : Mem) (w : Nat) : Nat → List Extent → Nat → Prop
  | a, [], b => a = b
  | a, r :: rs, b => loadNat m a w = r.size ∧ r.start = a + w ∧ Laid m w (a + w + r.size) rs b

variable {m m' : Mem} {w a b c : Nat} {r : Extent} {rs : List Extent}

theorem Laid.le (h : Laid m w a rs b) : a ≤ b := by
  induction rs generalizing a with
  | nil => exact Nat.le_of_eq h
  | cons r rs ih =>
    have := ih h.2.2
    omega

theorem Laid.inside (h : Laid m w a rs b) : ∀ r ∈ rs, a + w ≤ r.start ∧ r.start + r.size ≤ b := by
  induction rs generalizing a with
  | nil => intro r hr; cases hr
  | cons r rs ih =>
    obtain ⟨_, hstart, hrest⟩ := h
    have hle := hrest.le
    intro q hq
    rcases List.mem_cons.mp hq with rfl | hq
    · omega
    · have := ih hrest q hq
      omega

/-- in order, and without overlap -/
theorem Laid.pairwise (h : Laid m w a rs b) :
    rs.Pairwise fun r q => r.start + r.size ≤ q.start := by
  induction rs generalizing a with
  | nil => exact List.Pairwise.nil
  | cons r rs ih =>
    obtain ⟨_, hstart, hrest⟩ := h
    refine List.pairwise_cons.mpr ⟨fun q hq => ?_, ih hrest⟩
    have := hrest.inside q hq
    omega

theorem loadNat_congr (h : ∀ i < w, m' (a + i) = m (a + i)) : loadNat m' a w = loadNat m a w := by
  rw [loadNat, loadNat, load_congr h]

/-- **The frame of a row.**  What is written into the records, before the row or behind it does not
matter. -/
theorem Laid.congr (h : Laid m w a rs b)
    (heq : ∀ x, a ≤ x → x < b → (∀ r ∈ rs, ¬ r.Has x) → m' x = m x) : Laid m' w a rs b := by
  induction rs generalizing a with
  | nil => exact h
  | cons r rs ih =>
    obtain ⟨hsize, hstart, hrest⟩ := h
    have hle := hrest.le
    refine ⟨?_, hstart, ih hrest fun x ha hb hno => heq x (by omega) hb fun q hq => ?_⟩
    · rw [← hsize]
      refine loadNat_congr fun i hi => heq _ (Nat.le_add_right _ _) (by omega) fun q hq => ?_
      intro hhas
      have hpre := hhas.1
      rcases List.mem_cons.mp hq with rfl | hq
      · omega
      · have := hrest.inside q hq
        omega
    · rcases List.mem_cons.mp hq with rfl | hq
      · intro hhas
        have := hhas.2
        omega
      · exact hno q hq

theorem Laid.append (h : Laid m w a rs b) (hsize : loadNat m b w = r.size)
    (hstart : r.start = b + w) : Laid m w a (rs ++ [r]) (b + w + r.size) := by
  induction rs generalizing a with
  | nil =>
    obtain rfl : a = b := h
    exact ⟨hsize, hstart, rfl⟩
  | cons q rs ih => exact ⟨h.1, h.2.1, ih h.2.2⟩

end Bytes
