import Mathlib.Data.List.Pairwise
import Mathlib.Data.List.Perm.Basic

/-!
# Segments that tile an interval

A segment is a pair (first point, length).  `Tiles a b l`: the segments of `l` are nonempty,
lie in `[a, b)`, are pairwise disjoint and cover every point of `[a, b)`.

* `Tiles.nil`      nothing tiles an empty interval;
* `Tiles.extend`   one more segment behind the end;
* `Tiles.perm`     the order of the list does not matter;
* `Tiles.nodup`    no segment occurs twice.
-/

/-- a segment `[lo, lo + len)` -/
structure Seg where
  lo : Nat
  len : Nat
deriving DecidableEq, Repr

namespace Seg

def Mem (x : Nat) (s : Seg) : Prop := s.lo ≤ x ∧ x < s.lo + s.len

def Disjoint (s t : Seg) : Prop := s.lo + s.len ≤ t.lo ∨ t.lo + t.len ≤ s.lo

theorem Disjoint.symm {s t : Seg} (h : Disjoint s t) : Disjoint t s := Or.symm h

theorem Disjoint.ne {s t : Seg} (h : Disjoint s t) (hs : 0 < s.len) : s ≠ t := by
  rintro rfl
  unfold Disjoint at h
  omega

end Seg

/-- the segments of `l` tile `[a, b)` -/
structure Tiles (a b : Nat) (l : List Seg) : Prop where
  inside : ∀ s ∈ l, a ≤ s.lo ∧ 0 < s.len ∧ s.lo + s.len ≤ b
  disjoint : l.Pairwise Seg.Disjoint
  cover : ∀ x, a ≤ x → x < b → ∃ s ∈ l, Seg.Mem x s

namespace Tiles
variable {a b : Nat} {l l' : List Seg}

theorem nil (a : Nat) : Tiles a a [] where
  inside := by simp
  disjoint := List.Pairwise.nil
  cover := by intro x h1 h2; omega

theorem perm (h : Tiles a b l) (hp : l.Perm l') : Tiles a b l' where
  inside := fun s hs => h.inside s (hp.mem_iff.mpr hs)
  disjoint := (hp.pairwise_iff Seg.Disjoint.symm).mp h.disjoint
  cover := fun x h1 h2 => by
    obtain ⟨s, hs, hx⟩ := h.cover x h1 h2
    exact ⟨s, hp.mem_iff.mp hs, hx⟩

/-- one more segment behind the end of the interval -/
theorem extend (h : Tiles a b l) (hab : a ≤ b) {n : Nat} (hn : 0 < n) :
    Tiles a (b + n) (⟨b, n⟩ :: l) where
  inside := by
    intro s hs
    rcases List.mem_cons.mp hs with rfl | hs
    · exact ⟨hab, hn, Nat.le_refl _⟩
    · have := h.inside s hs
      omega
  disjoint := by
    refine List.Pairwise.cons ?_ h.disjoint
    intro s hs
    exact Or.inr (h.inside s hs).2.2
  cover := by
    intro x h1 h2
    by_cases hx : x < b
    · obtain ⟨s, hs, hm⟩ := h.cover x h1 hx
      exact ⟨s, List.mem_cons_of_mem _ hs, hm⟩
    · exact ⟨_, List.mem_cons_self, by unfold Seg.Mem; show b ≤ x ∧ x < b + n; omega⟩

theorem nodup (h : Tiles a b l) : l.Nodup := by
  have hd := h.disjoint
  have hi := h.inside
  clear h
  induction l with
  | nil => exact List.nodup_nil
  | cons s l ih =>
    obtain ⟨h1, h2⟩ := List.pairwise_cons.mp hd
    refine List.nodup_cons.mpr ⟨fun hs => ?_, ih h2 fun t ht => hi t (List.mem_cons_of_mem _ ht)⟩
    exact (h1 s hs).ne (hi s List.mem_cons_self).2.1 rfl

end Tiles
