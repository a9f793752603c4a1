import Mathlib.Data.List.ProdSigma
import Mathlib.Logic.Function.Basic

/-!
# Loops that write one cell a step

* `scatter`          step `i` of the loop over a list writes `val i` to the cell `pos i`;
* `scatter_miss`     a cell that no step writes keeps its value;
* `scatter_hit`      a cell that is written has the value of the step, if all steps for it agree;
* `foldl_update_cell`   where a step changes the cell, the steps for that cell, in their order;
* `scatter_nested`   the steps of two nested loops, over the cells of a table of `cols` columns.
-/

section
variable {ι κ α : Type*} [DecidableEq κ] {pos : ι → κ} {val : ι → α} {l : List ι} {i : ι} {x : κ}

def scatter (pos : ι → κ) (val : ι → α) (l : List ι) (cells : κ → α) : κ → α :=
  l.foldl (fun cells i => Function.update cells (pos i) (val i)) cells

theorem scatter_miss (h : ∀ i ∈ l, pos i ≠ x) : ∀ cells, scatter pos val l cells x = cells x := by
  induction l with
  | nil => exact fun _ => rfl
  | cons i l ih =>
    intro cells
    have hrest := ih (fun j hj => h j (List.mem_cons_of_mem i hj)) (Function.update cells (pos i) (val i))
    rw [Function.update_of_ne (Ne.symm (h i List.mem_cons_self))] at hrest
    exact hrest

theorem scatter_hit (hi : i ∈ l) (h : ∀ j ∈ l, pos j = pos i → val j = val i) :
    ∀ cells, scatter pos val l cells (pos i) = val i := by
  induction l generalizing i with
  | nil => cases hi
  | cons k l ih =>
    intro cells
    show scatter pos val l (Function.update cells (pos k) (val k)) (pos i) = val i
    by_cases hlater : ∃ j ∈ l, pos j = pos i
    · obtain ⟨j, hj, hpos⟩ := hlater
      have hsame : ∀ j' ∈ l, pos j' = pos j → val j' = val j := fun j' hj' he =>
        (h j' (List.mem_cons_of_mem k hj') (he.trans hpos)).trans
          (h j (List.mem_cons_of_mem k hj) hpos).symm
      rw [← hpos, ih hj hsame, h j (List.mem_cons_of_mem k hj) hpos]
    · push Not at hlater
      -- this step is the last one for the cell
      have hik : i = k := (List.mem_cons.mp hi).resolve_right fun hil => hlater i hil rfl
      rw [scatter_miss hlater, hik, Function.update_self]

/-- where a step changes what the cell holds, a cell sees the steps for it only -/
theorem foldl_update_cell (f : ι → α → α) (pos : ι → κ) (l : List ι) (cells : κ → α) (x : κ) :
    l.foldl (fun cells i => Function.update cells (pos i) (f i (cells (pos i)))) cells x =
      (l.filter fun i => pos i = x).foldl (fun a i => f i a) (cells x) := by
  induction l generalizing cells with
  | nil => rfl
  | cons i l ih =>
    rw [List.foldl_cons, ih]
    by_cases h : pos i = x
    · rw [List.filter_cons_of_pos (by simpa using h), List.foldl_cons, ← h, Function.update_self]
    · rw [List.filter_cons_of_neg (by simpa using h), Function.update_of_ne (Ne.symm h)]

/-- steps that may fail, each of which does what a step of another loop does -/
theorem foldlM_of_forall₂ {σ β : Type*} {R : ι → β → Prop} {step : σ → β → Option σ} {f : σ → ι → σ}
    {is : List ι} {bs : List β} (h : List.Forall₂ R is bs)
    (hstep : ∀ i ∈ is, ∀ b, R i b → ∀ s, step s b = some (f s i)) (s : σ) :
    bs.foldlM step s = some (is.foldl f s) := by
  induction h generalizing s with
  | nil => rfl
  | @cons i b is bs hib _ ih =>
    rw [List.foldlM_cons, hstep i List.mem_cons_self b hib s]
    exact ih (fun j hj => hstep j (List.mem_cons_of_mem i hj)) (f s i)

/-- a function that is defined on the whole list -/
theorem mapM_eq_map {β γ : Type*} {f : β → Option γ} {g : β → γ} {bs : List β}
    (h : ∀ b ∈ bs, f b = some (g b)) : bs.mapM f = some (bs.map g) := by
  induction bs with
  | nil => rfl
  | cons b bs ih =>
    rw [List.mapM_cons, h b List.mem_cons_self, ih fun b' hb => h b' (List.mem_cons_of_mem b hb)]
    rfl

/-- one step that fails -/
theorem foldlM_none_of_forall₂ {σ β : Type*} {R : ι → β → Prop} {step : σ → β → Option σ} {is : List ι}
    {bs : List β} (h : List.Forall₂ R is bs) (hi : i ∈ is)
    (hfail : ∀ b, R i b → ∀ s, step s b = none) (s : σ) : bs.foldlM step s = none := by
  induction h generalizing s with
  | nil => cases hi
  | @cons j b is bs hjb _ ih =>
    rw [List.foldlM_cons]
    rcases List.mem_cons.mp hi with rfl | hi
    · rw [hfail b hjb s]
      rfl
    · cases step s b with
      | none => rfl
      | some s' => exact ih hi s'

end

/-! ## tables -/

section
variable {α : Type*} {rows cols width top left x y a b : ℕ}

/-- the steps of `for i < rows, for j < cols` -/
def nested (rows cols : ℕ) : List (ℕ × ℕ) := List.range rows ×ˢ List.range cols

theorem mem_nested {p : ℕ × ℕ} : p ∈ nested rows cols ↔ p.1 < rows ∧ p.2 < cols := by
  rw [nested, List.mem_product, List.mem_range, List.mem_range]

/-- the steps in their order -/
theorem nested_eq_map (rows cols : ℕ) :
    nested rows cols = (List.range (rows * cols)).map fun k => (k / cols, k % cols) := by
  induction rows with
  | zero =>
    rw [Nat.zero_mul]
    rfl
  | succ rows ih =>
    rw [nested, List.range_succ, Nat.succ_mul, List.range_add, List.map_append, ← ih, List.map_map]
    have hlast : (List.range cols).map ((fun k => (k / cols, k % cols)) ∘ fun x => rows * cols + x) =
        (List.range cols).map fun x => (rows, x) := by
      refine List.map_congr_left fun x hx => ?_
      have hlt := List.mem_range.mp hx
      rw [Function.comp_apply, Nat.mul_comm, Nat.mul_add_div (by omega), Nat.mul_add_mod,
        Nat.div_eq_of_lt hlt, Nat.mod_eq_of_lt hlt, Nat.add_zero]
    rw [hlast]
    show List.flatMap _ _ = _
    rw [List.flatMap_append]
    show _ = List.flatMap _ _ ++ _
    congr 1
    exact List.flatMap_singleton ..

/-- a cell of a table is one row and one column -/
theorem cell_inj (hb : b < width) (hy : y < width) (h : a * width + b = x * width + y) :
    a = x ∧ b = y := by
  have hdiv := congrArg (· / width) h
  have hmod := congrArg (· % width) h
  simp only [Nat.mul_comm _ width] at hdiv hmod
  rw [Nat.mul_add_div (by omega), Nat.mul_add_div (by omega), Nat.div_eq_of_lt hb,
    Nat.div_eq_of_lt hy] at hdiv
  rw [Nat.mul_add_mod, Nat.mul_add_mod, Nat.mod_eq_of_lt hb, Nat.mod_eq_of_lt hy] at hmod
  exact ⟨by simpa using hdiv, hmod⟩

/-- `rows` times `cols` cells are written, from the cell in row `top` and column `left` on -/
theorem scatter_nested (val : ℕ × ℕ → α) (cells : ℕ → α) (hw : left + cols ≤ width) (hy : y < width) :
    scatter (fun p => (top + p.1) * width + (left + p.2)) val (nested rows cols) cells
        (x * width + y) =
      if top ≤ x ∧ x < top + rows ∧ left ≤ y ∧ y < left + cols then val (x - top, y - left)
      else cells (x * width + y) := by
  split
  · next h =>
    obtain ⟨h1, h2, h3, h4⟩ := h
    have hmem : (x - top, y - left) ∈ nested rows cols := mem_nested.mpr ⟨by omega, by omega⟩
    have hcell : (top + (x - top)) * width + (left + (y - left)) = x * width + y := by
      rw [show top + (x - top) = x by omega, show left + (y - left) = y by omega]
    have hone : ∀ p ∈ nested rows cols, (top + p.1) * width + (left + p.2) = x * width + y →
        p = (x - top, y - left) := by
      intro p hp he
      obtain ⟨hp1, hp2⟩ := mem_nested.mp hp
      obtain ⟨e1, e2⟩ := cell_inj (by omega) hy he
      exact Prod.ext (by dsimp only; omega) (by dsimp only; omega)
    rw [← hcell] at hone ⊢
    exact scatter_hit hmem (fun p hp he => by rw [hone p hp he]) cells
  · next h =>
    refine scatter_miss (fun p hp he => h ?_) cells
    obtain ⟨hp1, hp2⟩ := mem_nested.mp hp
    obtain ⟨e1, e2⟩ := cell_inj (by omega) hy he
    omega

end
