import Mathlib.Order.BoundedOrder.Basic
import Mathlib.Order.Lattice

/-!
# The order of a binary heap

A heap is given by the keys at its positions; a position that is not used has the key `⊤`.

* `Ordered`             every position has at least the key of its parent;
* `UpFrom`, `DownFrom`  the same, but for the edge into a position, or for the edges out of it;
* `swap`                two entries change places, and what that does to `UpFrom` and `DownFrom`;
* `root_le`             the root has the least key.
-/

namespace BinHeap
variable {α : Type*} {f g : Nat → α} {c s : Nat}

def parent (i : Nat) : Nat := (i - 1) / 2

def swap (f : Nat → α) (i j : Nat) : Nat → α :=
  fun m => if m = i then f j else if m = j then f i else f m

theorem swap_left (i j : Nat) : swap f i j i = f j := if_pos rfl

theorem swap_right {i j : Nat} : swap f i j j = f i := by
  unfold swap
  by_cases h : j = i
  · rw [if_pos h, h]
  · rw [if_neg h, if_pos rfl]

theorem swap_of_ne {i j m : Nat} (hi : m ≠ i) (hj : m ≠ j) : swap f i j m = f m := by
  unfold swap
  rw [if_neg hi, if_neg hj]

theorem parent_lt (hc : 0 < c) : parent c < c := by
  unfold parent
  omega

/-- the children of a position -/
theorem parent_eq_iff {i : Nat} (hi : 0 < i) : parent i = c ↔ i = c * 2 + 1 ∨ i = c * 2 + 2 := by
  unfold parent
  omega

variable [Preorder α]

def Ordered (f : Nat → α) : Prop := ∀ i, 0 < i → f (parent i) ≤ f i

/-- the entry at `c` may have to move up -/
structure UpFrom (f : Nat → α) (c : Nat) : Prop where
  except : ∀ i, 0 < i → i ≠ c → f (parent i) ≤ f i
  grand : ∀ i, 0 < i → parent i = c → 0 < c → f (parent c) ≤ f i

/-- the entry at `c` may have to move down -/
structure DownFrom (f : Nat → α) (c : Nat) : Prop where
  except : ∀ i, 0 < i → parent i ≠ c → f (parent i) ≤ f i
  grand : ∀ i, 0 < i → parent i = c → 0 < c → f (parent c) ≤ f i

/-! ## up -/

theorem UpFrom.swap (h : UpFrom f c) (hc : 0 < c) (hlt : f c < f (parent c)) :
    UpFrom (swap f c (parent c)) (parent c) := by
  have hp := parent_lt hc
  refine ⟨fun i hi hne => ?_, fun i hi hpar hpos => ?_⟩
  · by_cases hic : i = c
    · subst hic
      rw [swap_left, swap_right]
      exact hlt.le
    · rw [swap_of_ne hic hne]
      by_cases hpc : parent i = c
      · rw [hpc, swap_left]
        exact h.grand i hi hpc hc
      · by_cases hpp : parent i = parent c
        · rw [hpp, swap_right]
          have := h.except i hi hic
          rw [hpp] at this
          exact hlt.le.trans this
        · rw [swap_of_ne hpc hpp]
          exact h.except i hi hic
  · have hgrand : f (parent (parent c)) ≤ f (parent c) := h.except _ hpos hp.ne
    have hpp := parent_lt hpos
    rw [swap_of_ne (by omega) hpp.ne]
    by_cases hic : i = c
    · subst hic
      rw [swap_left]
      exact hgrand
    · have hlt' := parent_lt hi
      rw [swap_of_ne hic (by omega)]
      have := h.except i hi hic
      rw [hpar] at this
      exact hgrand.trans this

theorem UpFrom.ordered (h : UpFrom f c) (hstop : 0 < c → f (parent c) ≤ f c) : Ordered f := by
  intro i hi
  by_cases hic : i = c
  · subst hic
    exact hstop hi
  · exact h.except i hi hic

/-! ## down -/

theorem DownFrom.swap (h : DownFrom f c) (hs : 0 < s) (hp : parent s = c)
    (hmin : ∀ i, 0 < i → parent i = c → f s ≤ f i) (hlt : f s < f c) :
    DownFrom (swap f s c) s := by
  have hcs : c < s := hp ▸ parent_lt hs
  refine ⟨fun i hi hne => ?_, fun i hi hpar _ => ?_⟩
  · by_cases his : i = s
    · subst his
      rw [hp, swap_right, swap_left]
      exact hlt.le
    · by_cases hic : i = c
      · subst hic
        have hpi := parent_lt hi
        rw [swap_of_ne hne hpi.ne, swap_right]
        exact h.grand s hs hp hi
      · rw [swap_of_ne his hic]
        by_cases hpc : parent i = c
        · rw [hpc, swap_right]
          exact hmin i hi hpc
        · rw [swap_of_ne hne hpc]
          exact h.except i hi hpc
  · have hsi : s < i := hpar ▸ parent_lt hi
    rw [hp, swap_right, swap_of_ne (by omega) (by omega)]
    have := h.except i hi (by omega)
    rw [hpar] at this
    exact this

theorem DownFrom.ordered (h : DownFrom f c) (hstop : ∀ i, 0 < i → parent i = c → f c ≤ f i) :
    Ordered f := by
  intro i hi
  by_cases hpc : parent i = c
  · rw [hpc]
    exact hstop i hi hpc
  · exact h.except i hi hpc

/-! ## The root, and what is put in and taken out -/

theorem Ordered.root_le (h : Ordered f) (i : Nat) : f 0 ≤ f i := by
  induction i using Nat.strongRecOn with
  | ind i ih =>
    by_cases hi : i = 0
    · rw [hi]
    · exact (ih (parent i) (parent_lt (by omega))).trans (h i (by omega))

variable [OrderTop α] {n : Nat}

/-- a new entry behind the last -/
theorem Ordered.upFrom (h : Ordered f) (hout : ∀ i, n ≤ i → f i = ⊤) (hg : ∀ i, i ≠ n → g i = f i) :
    UpFrom g n := by
  have htop : ∀ i, n < i → g i = ⊤ := by
    intro i hi
    rw [hg i (by omega)]
    exact hout i (by omega)
  refine ⟨fun i hi hne => ?_, fun i hi hpar _ => ?_⟩
  · by_cases hpn : parent i = n
    · rw [htop i (hpn ▸ parent_lt hi)]
      exact le_top
    · rw [hg i hne, hg _ hpn]
      exact h i hi
  · rw [htop i (hpar ▸ parent_lt hi)]
    exact le_top

/-- another entry in place of the root, and fewer positions -/
theorem Ordered.downFrom (h : Ordered f) (hg : ∀ i, 0 < i → i < n → g i = f i)
    (htop : ∀ i, 0 < i → n ≤ i → g i = ⊤) : DownFrom g 0 := by
  refine ⟨fun i hi hne => ?_, fun _ _ _ h0 => absurd h0 (Nat.lt_irrefl 0)⟩
  by_cases hin : i < n
  · have hp := parent_lt hi
    rw [hg i hi hin, hg _ (by omega) (by omega)]
    exact h i hi
  · rw [htop i hi (by omega)]
    exact le_top

end BinHeap
