import Netsdb.Lib.Array2
import Mathlib.Data.List.Nodup

/-!
# A model cut into blocks: `blocker.py`

The weights of a model are arrays of one or two dimensions.  `block_model_2d` pads each of them
with zeros to whole blocks, and computes a magnitude for each block.

* `pad_arr_2d`, `block_model_2d`   the padded arrays, their shapes, and how many blocks they have;
* `retrieve_block`, `replace_block`   one block of the model storage is read, and written;
* `reconstruct_weight_2d`          the weights without the padding.

How a magnitude is computed (percentiles of floats) is a parameter.
-/

namespace Netsdb.Blocker
variable {W M : Type} [Zero W]

/-- `(weight_idx, block_x_idx, block_y_idx)` -/
abbrev Index := ℕ × ℕ × ℕ

/-- `w.shape` -/
inductive Shape where
  | one (n : ℕ)
  | two (nx ny : ℕ)
deriving DecidableEq

/-- one of the arrays of `model.get_weights()` -/
inductive Weight (W : Type) [Zero W] where
  | one (v : Array1 W)
  | two (a : Array2 W)

def Weight.shape : Weight W → Shape
  | .one v => .one v.n
  | .two a => .two a.nx a.ny

/-- a bias gets a second dimension -/
def Weight.reshape : Weight W → Array2 W
  | .one v => Array2.column v
  | .two a => a

/-- what the model storage has for one weight -/
structure Stored (W : Type) [Zero W] where
  weights_padded : Array2 W
  weights_shape : Shape
  weights_block_num : ℕ × ℕ

structure ModelStorage (W M : Type) [Zero W] where
  weights : List (Stored W)
  block_magnitude : List (Index × M)

/-- the blocks of one weight, row by row -/
def indicesOf (weight_idx : ℕ) (num : ℕ × ℕ) : List Index :=
  (List.range num.1).flatMap fun i => (List.range num.2).map fun j => (weight_idx, i, j)

/-- `a[i * size_x : (i + 1) * size_x, j * size_y : (j + 1) * size_y]` -/
def block (a : Array2 W) (size_x size_y i j : ℕ) : Array2 W :=
  a.slice (i * size_x) ((i + 1) * size_x) (j * size_y) ((j + 1) * size_y)

/-- A block size of zero divides by zero, and no entries have no maximum: both raise an error. -/
def pad_arr_2d (magnitude : Array2 W → Array2 W → M) (weight_idx : ℕ) (arr_2d : Array2 W)
    (size_x size_y : ℕ) : Option (Array2 W × List (Index × M) × ℕ × ℕ) :=
  if size_x = 0 ∨ size_y = 0 ∨ arr_2d.nx = 0 ∨ arr_2d.ny = 0 then none
  else
    let num_block_x := (arr_2d.nx + size_x - 1) / size_x
    let num_block_y := (arr_2d.ny + size_y - 1) / size_y
    let blocks_magnitude := (indicesOf weight_idx (num_block_x, num_block_y)).map fun b =>
      (b, magnitude arr_2d (block arr_2d size_x size_y b.2.1 b.2.2))
    some (arr_2d.pad (num_block_x * size_x) (num_block_y * size_y), blocks_magnitude,
      num_block_x, num_block_y)

/-- the weights from the one with number `idx` on -/
def block_model_from (magnitude : Array2 W → Array2 W → M) (size_x size_y : ℕ) :
    ℕ → List (Weight W) → Option (ModelStorage W M)
  | _, [] => some ⟨[], []⟩
  | idx, w :: weights => do
    let (w_padded, w_magnitude, num_x, num_y) ← pad_arr_2d magnitude idx w.reshape size_x size_y
    let rest ← block_model_from magnitude size_x size_y (idx + 1) weights
    some ⟨⟨w_padded, w.shape, num_x, num_y⟩ :: rest.weights, w_magnitude ++ rest.block_magnitude⟩

def block_model_2d (magnitude : Array2 W → Array2 W → M) (weights : List (Weight W))
    (size_x size_y : ℕ) : Option (ModelStorage W M) :=
  block_model_from magnitude size_x size_y 0 weights

/-- `w[:w_shape[0], 0]` or `w[:w_shape[0], :w_shape[1]]` -/
def Stored.reconstruct (s : Stored W) : Weight W :=
  match s.weights_shape with
  | .one n => .one (s.weights_padded.first n)
  | .two nx ny => .two (s.weights_padded.slice 0 nx 0 ny)

def reconstruct_weight_2d (ms : List (Stored W)) : List (Weight W) := ms.map Stored.reconstruct

/-- `model_storage['weights_padded'][weight_idx][..]`, with the index of a block -/
def retrieve_block (ms : List (Stored W)) (size_x size_y : ℕ) (b : Index) : Option (Array2 W) :=
  ms[b.1]?.map fun s => block s.weights_padded size_x size_y b.2.1 b.2.2

/-- the assignment to the same slice, for an array of its shape -/
def replace_block (ms : List (Stored W)) (size_x size_y : ℕ) (b : Index) (new : Array2 W) :
    Option (List (Stored W)) := do
  let s ← ms[b.1]?
  let old := block s.weights_padded size_x size_y b.2.1 b.2.2
  if new.nx = old.nx ∧ new.ny = old.ny then
    some (ms.set b.1 { s with
      weights_padded := s.weights_padded.setSlice (b.2.1 * size_x) ((b.2.1 + 1) * size_x)
        (b.2.2 * size_y) ((b.2.2 + 1) * size_y) new })
  else none

/-- all blocks of a model, with their contents -/
def blocksFrom (size_x size_y : ℕ) : ℕ → List (Stored W) → List (Index × Array2 W)
  | _, [] => []
  | t, s :: ms =>
    ((indicesOf t s.weights_block_num).map fun b => (b, block s.weights_padded size_x size_y b.2.1 b.2.2)) ++
      blocksFrom size_x size_y (t + 1) ms

/-! ## the blocks of a model -/

variable {ms ms' : List (Stored W)} {size_x size_y t i j : ℕ} {b c : Index} {new : Array2 W} {num : ℕ × ℕ}

theorem mem_indicesOf : b ∈ indicesOf t num ↔ b.1 = t ∧ b.2.1 < num.1 ∧ b.2.2 < num.2 := by
  unfold indicesOf
  rw [List.mem_flatMap]
  constructor
  · rintro ⟨i, hi, hb⟩
    obtain ⟨j, hj, rfl⟩ := List.mem_map.mp hb
    exact ⟨rfl, List.mem_range.mp hi, List.mem_range.mp hj⟩
  · rintro ⟨rfl, hi, hj⟩
    exact ⟨b.2.1, List.mem_range.mpr hi, List.mem_map.mpr ⟨b.2.2, List.mem_range.mpr hj, rfl⟩⟩

theorem nodup_indicesOf : (indicesOf t num).Nodup := by
  unfold indicesOf
  refine List.nodup_flatMap.mpr ⟨fun i _ => ?_, ?_⟩
  · refine List.nodup_range.map fun j j' h => ?_
    exact (Prod.mk.inj (Prod.mk.inj h).2).2
  · refine List.nodup_range.imp fun {i i'} hne => ?_
    intro b hb hb'
    obtain ⟨j, -, rfl⟩ := List.mem_map.mp hb
    obtain ⟨j', -, h⟩ := List.mem_map.mp hb'
    exact hne (Prod.mk.inj (Prod.mk.inj h).2).1.symm

/-- the indices of the model's blocks -/
def IsBlock (ms : List (Stored W)) (b : Index) : Prop :=
  ∃ s, ms[b.1]? = some s ∧ b.2.1 < s.weights_block_num.1 ∧ b.2.2 < s.weights_block_num.2

theorem mem_blocksFrom {x : Index × Array2 W} : x ∈ blocksFrom size_x size_y t ms ↔
    ∃ s, t ≤ x.1.1 ∧ ms[x.1.1 - t]? = some s ∧ x.1.2.1 < s.weights_block_num.1 ∧
      x.1.2.2 < s.weights_block_num.2 ∧ x.2 = block s.weights_padded size_x size_y x.1.2.1 x.1.2.2 := by
  induction ms generalizing t with
  | nil => simp [blocksFrom]
  | cons s ms ih =>
    rw [blocksFrom, List.mem_append, List.mem_map, ih]
    constructor
    · rintro (⟨b, hb, rfl⟩ | ⟨s', hle, hget, hrest⟩)
      · obtain ⟨rfl, hi, hj⟩ := mem_indicesOf.mp hb
        exact ⟨s, Nat.le_refl _, by rw [Nat.sub_self]; rfl, hi, hj, rfl⟩
      · refine ⟨s', by omega, ?_, hrest⟩
        rw [show x.1.1 - t = (x.1.1 - (t + 1)) + 1 by omega]
        exact hget
    · rintro ⟨s', hle, hget, hi, hj, hx⟩
      rcases Nat.eq_or_lt_of_le hle with he | hlt
      · rw [← he, Nat.sub_self] at hget
        obtain rfl := Option.some.inj hget
        exact Or.inl ⟨x.1, mem_indicesOf.mpr ⟨he.symm, hi, hj⟩, Prod.ext rfl hx.symm⟩
      · refine Or.inr ⟨s', hlt, ?_, hi, hj, hx⟩
        rw [show x.1.1 - t = (x.1.1 - (t + 1)) + 1 by omega] at hget
        exact hget

theorem nodup_blocksFrom : ((blocksFrom size_x size_y t ms).map Prod.fst).Nodup := by
  induction ms generalizing t with
  | nil => exact List.nodup_nil
  | cons s ms ih =>
    rw [blocksFrom, List.map_append, List.map_map]
    have hid : (indicesOf t s.weights_block_num).map
        (Prod.fst ∘ fun b => (b, block s.weights_padded size_x size_y b.2.1 b.2.2)) =
        indicesOf t s.weights_block_num := List.map_id _
    rw [hid]
    refine List.Nodup.append nodup_indicesOf ih fun b hb hb' => ?_
    obtain ⟨x, hx, rfl⟩ := List.mem_map.mp hb'
    obtain ⟨-, hle, -⟩ := mem_blocksFrom.mp hx
    have heq := (mem_indicesOf.mp hb).1
    omega

/-! ## reading what was written -/

/-- **The weights come back** from the storage. -/
theorem reconstruct_block_from {magnitude : Array2 W → Array2 W → M} {ws : List (Weight W)}
    {storage : ModelStorage W M} (h : block_model_from magnitude size_x size_y t ws = some storage) :
    reconstruct_weight_2d storage.weights = ws := by
  induction ws generalizing t storage with
  | nil =>
    obtain rfl := Option.some.inj h
    rfl
  | cons w ws ih =>
    obtain ⟨⟨padded, mags, nx, ny⟩, hpad, h⟩ := Option.bind_eq_some_iff.mp h
    obtain ⟨rest, hrest, h⟩ := Option.bind_eq_some_iff.mp h
    obtain rfl := Option.some.inj h
    have hp : padded = w.reshape.pad (nx * size_x) (ny * size_y) := by
      unfold pad_arr_2d at hpad
      split at hpad
      · cases hpad
      · obtain ⟨rfl, hnum⟩ := Prod.mk.inj (Option.some.inj hpad)
        obtain ⟨-, hnum⟩ := Prod.mk.inj hnum
        obtain ⟨rfl, rfl⟩ := Prod.mk.inj hnum
        rfl
    show Stored.reconstruct _ :: reconstruct_weight_2d rest.weights = w :: ws
    rw [ih hrest, hp]
    congr 1
    cases w with
    | one v => exact congrArg Weight.one (Array2.first_pad_column v _ _)
    | two a => exact congrArg Weight.two (Array2.slice_pad a _ _)

/-- the slices of two blocks of an array have no entry in common -/
theorem slices_apart {i' j' : ℕ} (h : i ≠ i' ∨ j ≠ j') :
    ((i + 1) * size_x ≤ i' * size_x ∨ (i' + 1) * size_x ≤ i * size_x) ∨
      (j + 1) * size_y ≤ j' * size_y ∨ (j' + 1) * size_y ≤ j * size_y := by
  have hsteps : ∀ k k' n : ℕ, k ≠ k' → (k + 1) * n ≤ k' * n ∨ (k' + 1) * n ≤ k * n := by
    intro k k' n hne
    rcases Nat.lt_or_gt_of_ne hne with hlt | hlt
    · exact Or.inl (Nat.mul_le_mul_right n hlt)
    · exact Or.inr (Nat.mul_le_mul_right n hlt)
  rcases h with hi | hj
  · exact Or.inl (hsteps i i' size_x hi)
  · exact Or.inr (hsteps j j' size_y hj)

/-- another block of the model is not written -/
theorem retrieve_replace (h : replace_block ms size_x size_y b new = some ms') (hc : c ≠ b) :
    retrieve_block ms' size_x size_y c = retrieve_block ms size_x size_y c := by
  obtain ⟨s, hs, h⟩ := Option.bind_eq_some_iff.mp h
  dsimp only at h
  split at h
  · obtain rfl := Option.some.inj h
    unfold retrieve_block
    rw [List.getElem?_set]
    split
    · rename_i heq
      rw [if_pos (List.getElem?_eq_some_iff.mp hs).1, ← heq, hs]
      refine congrArg some (Array2.slice_setSlice (slices_apart ?_))
      by_contra hsame
      rw [not_or, not_ne_iff, not_ne_iff] at hsame
      exact hc (Prod.ext heq.symm (Prod.ext hsame.1 hsame.2))
    · rfl
  · cases h

/-- the numbers of the blocks stay as they are -/
theorem replace_block_num (h : replace_block ms size_x size_y b new = some ms') :
    ms'.map Stored.weights_block_num = ms.map Stored.weights_block_num := by
  obtain ⟨s, hs, h⟩ := Option.bind_eq_some_iff.mp h
  dsimp only at h
  split at h
  · obtain rfl := Option.some.inj h
    obtain ⟨hlt, hget⟩ := List.getElem?_eq_some_iff.mp hs
    rw [List.map_set]
    conv_rhs => rw [← List.set_getElem_self (by rwa [List.length_map] : b.1 < (ms.map _).length)]
    rw [List.getElem_map, hget]
  · cases h

end Netsdb.Blocker
