import Mathlib.Algebra.BigOperators.Intervals
import Mathlib.Data.List.Nodup
import Mathlib.Order.Lattice

/-!
# Totals over ranges that are cut into blocks

An operation without a neutral element (a maximum, say) is added up in a monoid that has one more
element.

* `Total`          what an associative and commutative operation adds up, or nothing;
* `total`          the values at the first places, added up;
* `sum_blocks`     a sum over all places is one over the blocks and the places of a block;
* `total_blocks`   so is a total;
* `perm_range_map` a list that has the values of a function once each.
-/

set_option linter.unusedSectionVars false

namespace Blocked
open Finset
variable {α β M : Type*}

/-! ## places -/

theorem flatten_range (w q : ℕ) (f : ℕ → α) :
    ((List.range q).map fun i => (List.range w).map fun j => f (i * w + j)).flatten =
      (List.range (q * w)).map f := by
  induction q with
  | zero =>
    rw [Nat.zero_mul]
    rfl
  | succ q ih =>
    rw [List.range_succ, List.map_append, List.flatten_append, ih, Nat.succ_mul, List.range_add,
      List.map_append, List.map_map]
    simp only [List.map_cons, List.map_nil, List.flatten_cons, List.flatten_nil, List.append_nil]
    rfl

theorem list_sum_range [AddCommMonoid M] (f : ℕ → M) (n : ℕ) :
    ((List.range n).map f).sum = ∑ k ∈ range n, f k := by
  induction n with
  | zero => rfl
  | succ n ih => rw [List.range_succ, List.map_append, List.sum_append, ih, sum_range_succ, List.map_singleton,
      List.sum_singleton]

theorem sum_blocks [AddCommMonoid M] (f : ℕ → M) (n m : ℕ) :
    ∑ k ∈ range (n * m), f k = ∑ b ∈ range n, ∑ j ∈ range m, f (b * m + j) := by
  induction n with
  | zero => rw [Nat.zero_mul, range_zero, sum_empty, sum_empty]
  | succ n ih => rw [Nat.succ_mul, sum_range_add, ih, sum_range_succ]

theorem perm_range_map {l : List α} {A : ℕ → α} {n : ℕ} (hl : l.Nodup)
    (hinj : ∀ i < n, ∀ j < n, A i = A j → i = j) (hmem : ∀ a, a ∈ l ↔ ∃ k < n, A k = a) :
    l.Perm ((List.range n).map A) := by
  have hnodup : ((List.range n).map A).Nodup :=
    List.Nodup.map_on (fun i hi j hj => hinj i (List.mem_range.mp hi) j (List.mem_range.mp hj))
      List.nodup_range
  refine (List.perm_ext_iff_of_nodup hl hnodup).mpr fun a => ?_
  rw [hmem, List.mem_map]
  simp only [List.mem_range]

/-! ## totals -/

/-- a value, or nothing -/
def Total (_ : α → α → α) := Option α

namespace Total
variable {op : α → α → α}

def of (op : α → α → α) (a : α) : Total op := some a

theorem of_injective (op : α → α → α) {a b : α} (h : of op a = of op b) : a = b := Option.some.inj h

def add : Total op → Total op → Total op
  | none, y => y
  | some a, none => some a
  | some a, some b => some (op a b)

variable [Std.Associative op] [Std.Commutative op]

theorem add_assoc' (x y z : Total op) : (x.add y).add z = x.add (y.add z) := by
  cases x with
  | none => rfl
  | some a =>
    cases y with
    | none => rfl
    | some b =>
      cases z with
      | none => rfl
      | some c => exact congrArg some (Std.Associative.assoc a b c)

theorem add_comm' (x y : Total op) : x.add y = y.add x := by
  cases x with
  | none => cases y <;> rfl
  | some a =>
    cases y with
    | none => rfl
    | some b => exact congrArg some (Std.Commutative.comm a b)

theorem add_none (x : Total op) : x.add none = x := by cases x <;> rfl

instance hasZero : Zero (Total op) := ⟨(none : Option α)⟩

instance hasAdd : Add (Total op) := ⟨add⟩

instance addCommMonoid : AddCommMonoid (Total op) where
  add_assoc := add_assoc'
  zero_add _ := rfl
  add_zero := add_none
  add_comm := add_comm'
  nsmul := nsmulRec

theorem of_add (a b : α) : of op a + of op b = of op (op a b) := rfl

end Total

/-- the first `n` values, where there is one -/
def total (op : α → α → α) : ℕ → (ℕ → α) → α
  | 0, f => f 0
  | 1, f => f 0
  | n + 2, f => op (total op (n + 1) f) (f (n + 1))

section
variable {op : α → α → α} [Std.Associative op] [Std.Commutative op] {f : ℕ → α} {n m : ℕ}

theorem sum_of (f : ℕ → α) (n : ℕ) :
    ∑ k ∈ range (n + 1), Total.of op (f k) = Total.of op (total op (n + 1) f) := by
  induction n with
  | zero => rw [sum_range_one, total]
  | succ n ih => rw [sum_range_succ, ih, Total.of_add, total]

theorem total_blocks (hn : 0 < n) (hm : 0 < m) (f : ℕ → α) :
    total op (n * m) f = total op n fun b => total op m fun j => f (b * m + j) := by
  obtain ⟨n, rfl⟩ : ∃ k, n = k + 1 := ⟨n - 1, by omega⟩
  obtain ⟨m, rfl⟩ : ∃ k, m = k + 1 := ⟨m - 1, by omega⟩
  obtain ⟨p, hp⟩ : ∃ p, (n + 1) * (m + 1) = p + 1 := ⟨_, (Nat.succ_pred_eq_of_pos (Nat.mul_pos hn hm)).symm⟩
  refine Total.of_injective op ?_
  rw [hp, ← sum_of, ← hp, sum_blocks, ← sum_of]
  exact sum_congr rfl fun b _ => sum_of _ _

end

theorem total_congr {op : α → α → α} {f g : ℕ → α} {n : ℕ} (hn : 0 < n) (h : ∀ k < n, f k = g k) :
    total op n f = total op n g := by
  obtain ⟨n, rfl⟩ : ∃ k, n = k + 1 := ⟨n - 1, by omega⟩
  induction n with
  | zero => exact h 0 Nat.one_pos
  | succ n ih => rw [total, total, ih (Nat.succ_pos n) fun k hk => h k (by omega), h (n + 1) (by omega)]

/-! three of them -/

theorem total_add [AddCommMonoid M] (f : ℕ → M) {n : ℕ} (hn : 0 < n) :
    total (fun x y => x + y) n f = ∑ k ∈ range n, f k := by
  obtain ⟨n, rfl⟩ : ∃ k, n = k + 1 := ⟨n - 1, by omega⟩
  induction n with
  | zero => rw [total, sum_range_one]
  | succ n ih => rw [total, ih (Nat.succ_pos n), sum_range_succ _ (n + 1)]

end Blocked
