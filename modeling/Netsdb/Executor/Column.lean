import Mathlib.Data.List.Basic
import Mathlib.Algebra.BigOperators.Group.List.Basic
import Mathlib.Algebra.GroupWithZero.Nat

/-!
# Columns of a tuple set (`TupleSet.h`)

A column is a vector of values of one type; `zero` is what that type's default constructor makes,
so what a vector that is made with a size, or resized, is filled with.

* `Column.filter`, `Column.replicate`   the two lambdas that `addColumn` keeps beside a column;
* `filter_rows`, `replicate_rows`       what they do to a column that holds a function of the rows
                                        of a table.

Both count in an `int`: nothing is said of a column of 2^31 values.
-/

namespace Netsdb

/-- the types of the columns: `bool`, `size_t`, `Vector<Handle<Object>>`, and any other -/
inductive ColType
  | bool
  | num
  | vec
  | obj
  deriving DecidableEq

inductive Value (α : Type)
  | bool (b : Bool)
  | num (n : ℕ)
  | vec (l : List α)
  | obj (a : α)
  deriving DecidableEq

structure Column (α : Type) where
  zero : Value α
  rows : List (Value α)
  deriving DecidableEq

variable {α R : Type}

namespace Value

def type : Value α → ColType
  | bool _ => .bool
  | num _ => .num
  | vec _ => .vec
  | obj _ => .obj

def asBool : Value α → Option Bool
  | bool b => some b
  | _ => none

def asNum : Value α → Option ℕ
  | num n => some n
  | _ => none

def asVec : Value α → Option (List α)
  | vec l => some l
  | _ => none

theorem asBool_isSome {v : Value α} (h : v.type = .bool) : ∃ b, v = bool b := by
  cases v with
  | bool b => exact ⟨b, rfl⟩
  | _ => cases h

theorem asNum_isSome {v : Value α} (h : v.type = .num) : ∃ n, v = num n := by
  cases v with
  | num n => exact ⟨n, rfl⟩
  | _ => cases h

theorem asVec_isSome {v : Value α} (h : v.type = .vec) : ∃ l, v = vec l := by
  cases v with
  | vec l => exact ⟨l, rfl⟩
  | _ => cases h

end Value

/-- the rows that are kept, copied one after another into a vector that has their number -/
def keepRows : List (Value α) → List Bool → List (Value α) → ℕ → Option (List (Value α))
  | [], _, newVec, _ => some newVec
  | _ :: _, [], _, _ => none
  | x :: filterMe, true :: whichAreValid, newVec, counter =>
    if counter < newVec.length then
      keepRows filterMe whichAreValid (newVec.set counter x) (counter + 1)
    else none
  | _ :: filterMe, false :: whichAreValid, newVec, counter =>
    keepRows filterMe whichAreValid newVec counter

/-- one row, `timesToReplicate` times -/
def putCopies (x : Value α) : ℕ → List (Value α) → ℕ → Option (List (Value α) × ℕ)
  | 0, newVec, counter => some (newVec, counter)
  | n + 1, newVec, counter =>
    if counter < newVec.length then putCopies x n (newVec.set counter x) (counter + 1) else none

def copyRows : List ℕ → List (Value α) → List (Value α) → ℕ → Option (List (Value α))
  | [], _, newVec, _ => some newVec
  | 0 :: timesToReplicate, replicateMe, newVec, counter =>
    copyRows timesToReplicate replicateMe.tail newVec counter
  | (_ + 1) :: _, [], _, _ => none
  | (n + 1) :: timesToReplicate, x :: replicateMe, newVec, counter => do
    let (newVec, counter) ← putCopies x (n + 1) newVec counter
    copyRows timesToReplicate replicateMe newVec counter

namespace Column

def filter (c : Column α) (whichAreValid : List Bool) : Option (Column α) :=
  let counter := whichAreValid.count true
  if c.rows.length < 2 ^ 31 ∧ counter < 2 ^ 31 then
    (keepRows c.rows whichAreValid (List.replicate counter c.zero) 0).map fun newVec =>
      { c with rows := newVec }
  else none

/-- with 2^31 copies or more, the vector is made too short, or not at all -/
def replicate (c : Column α) (timesToReplicate : List ℕ) : Option (Column α) :=
  let counter := timesToReplicate.sum
  if timesToReplicate.length < 2 ^ 31 ∧ counter < 2 ^ 31 then
    (copyRows timesToReplicate c.rows (List.replicate counter c.zero) 0).map fun newVec =>
      { c with rows := newVec }
  else none

/-- `std::vector::resize` -/
def resize (c : Column α) (n : ℕ) : Column α :=
  { c with rows := c.rows.take n ++ List.replicate (n - c.rows.length) c.zero }

end Column

/-! ## a function of the rows of a table -/

theorem set_replicate (out : List (Value α)) (k : ℕ) (z x : Value α) :
    (out ++ List.replicate (k + 1) z).set out.length x = (out ++ [x]) ++ List.replicate k z := by
  rw [List.set_append_right _ _ (Nat.le_refl _), Nat.sub_self, List.replicate_succ, List.set_cons_zero,
    List.append_assoc]
  rfl

theorem keepRows_spec (b : R → Bool) (g : R → Value α) (z : Value α) (T : List R) :
    ∀ out : List (Value α),
      keepRows (T.map g) (T.map b) (out ++ List.replicate ((T.map b).count true) z) out.length =
        some (out ++ (T.filter b).map g) := by
  induction T with
  | nil =>
    intro out
    rfl
  | cons r T ih =>
    intro out
    rw [List.map_cons, List.map_cons]
    cases hb : b r with
    | true =>
      have hlt : out.length < (out ++ List.replicate ((T.map b).count true + 1) z).length := by
        rw [List.length_append, List.length_replicate]
        omega
      rw [List.count_cons_self, keepRows, if_pos hlt, set_replicate,
        List.filter_cons_of_pos hb]
      have h := ih (out ++ [g r])
      rw [List.length_append, List.length_singleton] at h
      rw [h, List.append_assoc]
      rfl
    | false =>
      rw [List.count_cons_of_ne (by decide), keepRows, List.filter_cons_of_neg (by simp [hb])]
      exact ih out

theorem putCopies_spec (x z : Value α) (n k : ℕ) : ∀ out : List (Value α),
    putCopies x n (out ++ List.replicate (n + k) z) out.length =
      some (out ++ List.replicate n x ++ List.replicate k z, out.length + n) := by
  induction n with
  | zero =>
    intro out
    rw [putCopies, Nat.zero_add, List.replicate_zero, List.append_nil, Nat.add_zero]
  | succ n ih =>
    intro out
    have hk : n + 1 + k = n + k + 1 := by omega
    have hlt : out.length < (out ++ List.replicate (n + 1 + k) z).length := by
      rw [List.length_append, List.length_replicate]
      omega
    rw [putCopies, if_pos hlt, hk, set_replicate]
    have h := ih (out ++ [x])
    rw [List.length_append, List.length_singleton] at h
    rw [h, List.append_assoc out, List.replicate_succ, List.singleton_append, Nat.add_assoc,
      Nat.add_comm 1]

theorem copyRows_spec (n : R → ℕ) (g : R → Value α) (z : Value α) (T : List R) :
    ∀ out : List (Value α),
      copyRows (T.map n) (T.map g) (out ++ List.replicate (T.map n).sum z) out.length =
        some (out ++ T.flatMap fun r => List.replicate (n r) (g r)) := by
  induction T with
  | nil =>
    intro out
    rfl
  | cons r T ih =>
    intro out
    rw [List.map_cons, List.map_cons, List.sum_cons, List.flatMap_cons]
    cases hn : n r with
    | zero =>
      rw [copyRows, Nat.zero_add, List.tail_cons]
      exact ih out
    | succ k =>
      rw [copyRows, putCopies_spec]
      have h := ih (out ++ List.replicate (k + 1) (g r))
      rw [List.length_append, List.length_replicate] at h
      show copyRows _ _ _ _ = _
      rw [h, List.append_assoc]

namespace Column
variable {T : List R} {c : Column α} {g : R → Value α}

theorem filter_rows {b : R → Bool} (hc : c.rows = T.map g) (hT : T.length < 2 ^ 31) :
    c.filter (T.map b) = some { c with rows := (T.filter b).map g } := by
  have hcount : (T.map b).count true < 2 ^ 31 := by
    have h := List.count_le_length (l := T.map b) (a := true)
    rw [List.length_map] at h
    exact Nat.lt_of_le_of_lt h hT
  have h := keepRows_spec b g c.zero T []
  rw [filter, if_pos ⟨by rwa [hc, List.length_map], hcount⟩, hc]
  rw [List.nil_append, List.length_nil] at h
  rw [h]
  rfl

theorem replicate_rows {n : R → ℕ} (hc : c.rows = T.map g) (hT : T.length < 2 ^ 31)
    (hn : (T.map n).sum < 2 ^ 31) :
    c.replicate (T.map n) =
      some { c with rows := T.flatMap fun r => List.replicate (n r) (g r) } := by
  have h := copyRows_spec n g c.zero T []
  rw [replicate, if_pos ⟨by rwa [List.length_map], hn⟩, hc]
  rw [List.nil_append, List.length_nil] at h
  rw [h]
  rfl

end Column

end Netsdb
