import Mathlib.Data.List.Perm.Basic
import Mathlib.Logic.Function.Basic

/-!
# Numbered buckets

A family `f : Nat → List α` of buckets, of which the first `n` are in use.

* `buckets n f`               all elements of the first `n` buckets;
* `buckets_update_perm`       taking an element out of one bucket takes it out of the whole.
-/

variable {α : Type*}

/-- the elements of the first `n` buckets -/
def buckets (n : Nat) (f : Nat → List α) : List α := (List.range n).flatMap f

theorem mem_buckets {n : Nat} {f : Nat → List α} {x : α} :
    x ∈ buckets n f ↔ ∃ i < n, x ∈ f i := by
  unfold buckets
  simp [List.mem_flatMap]

theorem buckets_succ (n : Nat) (f : Nat → List α) :
    buckets (n + 1) f = buckets n f ++ f n := by
  unfold buckets
  rw [List.range_succ, List.flatMap_append, List.flatMap_singleton]

theorem buckets_congr {n : Nat} {f g : Nat → List α} (h : ∀ i < n, f i = g i) :
    buckets n f = buckets n g := by
  induction n with
  | zero => rfl
  | succ n ih =>
    rw [buckets_succ, buckets_succ, ih fun i hi => h i (by omega), h n (by omega)]

/-- an element taken out of bucket `i` -/
theorem buckets_update_perm {n i : Nat} {f : Nat → List α} {x : α} {l : List α} (hi : i < n)
    (hp : (f i).Perm (x :: l)) :
    (buckets n f).Perm (x :: buckets n (Function.update f i l)) := by
  induction n with
  | zero => omega
  | succ n ih =>
    rw [buckets_succ, buckets_succ]
    by_cases e : i = n
    · subst e
      have hsame : buckets i (Function.update f i l) = buckets i f :=
        buckets_congr fun j hj => Function.update_of_ne (by omega) _ _
      rw [hsame, Function.update_self]
      exact (hp.append_left _).trans List.perm_middle
    · rw [Function.update_of_ne (show n ≠ i by omega)]
      exact (ih (by omega)).append_right _
