import Netsdb.Lib.Codec
import Mathlib.Data.List.Range

/-!
# Numbers in a memory of bytes

* `store`, `load`         a list of bytes at an address, and back;
* `storeNat`, `loadNat`   a number of `w` bytes, least byte first;
* `loadNat_part`          the bytes from the middle of a number.
-/

namespace Bytes
open Codec

abbrev Mem := Nat → UInt8

def store (m : Mem) (a : Nat) (bs : List UInt8) : Mem := fun x =>
  if a ≤ x then (bs[x - a]?).getD (m x) else m x

def load (m : Mem) (a n : Nat) : List UInt8 := (List.range n).map fun i => m (a + i)

def storeNat (m : Mem) (a w n : Nat) : Mem := store m a (le w n)

def loadNat (m : Mem) (a w : Nat) : Nat := ofLe (load m a w)

variable {m m' : Mem} {a b n w x : Nat} {bs cs : List UInt8}

@[simp] theorem length_load (m : Mem) (a n : Nat) : (load m a n).length = n := by
  rw [load, List.length_map, List.length_range]

theorem store_outside (h : x < a ∨ a + bs.length ≤ x) : store m a bs x = m x := by
  unfold store
  split_ifs with ha
  · rw [List.getElem?_eq_none (by omega)]
    rfl
  · rfl

theorem load_congr (h : ∀ i < n, m (a + i) = m' (a + i)) : load m a n = load m' a n :=
  List.map_congr_left fun i hi => h i (List.mem_range.mp hi)

/-- the bytes in the middle of what has been stored -/
theorem load_store_append (m : Mem) (a : Nat) (bs cs ds : List UInt8) :
    load (store m a (bs ++ cs ++ ds)) (a + bs.length) cs.length = cs := by
  refine List.ext_getElem (length_load _ _ _) fun i hi hi' => ?_
  have hin : i < cs.length := hi'
  simp only [load, List.getElem_map, List.getElem_range]
  unfold store
  rw [if_pos (by omega), show a + bs.length + i - a = bs.length + i by omega,
    List.getElem?_append_left (by rw [List.length_append]; omega),
    List.getElem?_append_right (Nat.le_add_right _ _), Nat.add_sub_cancel_left,
    List.getElem?_eq_getElem hin]
  rfl

theorem load_store (m : Mem) (a : Nat) (bs : List UInt8) : load (store m a bs) a bs.length = bs := by
  have h := load_store_append m a [] bs []
  rw [List.nil_append, List.append_nil] at h
  exact h

theorem load_store_of_disjoint (h : b + n ≤ a ∨ a + bs.length ≤ b) :
    load (store m a bs) b n = load m b n :=
  load_congr fun i hi => store_outside (by omega)

/-! ## numbers -/

theorem loadNat_storeNat (m : Mem) (a : Nat) (h : n < 256 ^ w) :
    loadNat (storeNat m a w n) a w = n := by
  have hload := load_store m a (le w n)
  rw [length_le] at hload
  rw [loadNat, storeNat, hload, ofLe_le_of_lt h]

theorem storeNat_outside {v : Nat} (h : x < a ∨ a + w ≤ x) : storeNat m a w v x = m x :=
  store_outside (by rw [length_le]; exact h)

theorem loadNat_storeNat_of_disjoint {v k : Nat} (h : b + n ≤ a ∨ a + k ≤ b) :
    loadNat (storeNat m a k v) b n = loadNat m b n := by
  rw [loadNat, storeNat, load_store_of_disjoint (by rw [length_le]; exact h), loadNat]

theorem le_add (i w n : Nat) : le (i + w) n = le i n ++ le w (n / 256 ^ i) := by
  induction i generalizing n with
  | zero =>
    rw [Nat.zero_add, pow_zero, Nat.div_one]
    rfl
  | succ i ih =>
    rw [Nat.add_right_comm, le, le, ih, Nat.div_div_eq_div_mul, ← pow_succ']
    rfl

/-- the `w` bytes behind the first `i` of a number -/
theorem loadNat_part (m : Mem) (a i w n : Nat) :
    loadNat (storeNat m a (i + w) n) (a + i) w = n / 256 ^ i % 256 ^ w := by
  have h := load_store_append m a (le i n) (le w (n / 256 ^ i)) []
  rw [List.append_nil, length_le, length_le, ← le_add] at h
  rw [loadNat, storeNat, h, ofLe_le]

end Bytes
