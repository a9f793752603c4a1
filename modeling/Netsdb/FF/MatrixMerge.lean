import Mathlib.Tactic.Ring
import Mathlib.Tactic.Linarith
import Netsdb.FF.MatrixBlock

/-!
# Merging the blocks of a matrix (`FFAggMatrixToOneMatrix.h`)

The aggregation adds the blocks in some order and grouping: a tree of `operator+`.

* `Cut`, `Merge`      a matrix cut into blocks, and a tree in which each of its blocks comes once;
* `MergeTree.Kept`    the blocks whose values are in the result;
* `MergeTree.Inside`  no block that is written is padded;
* `eval_spec`         the result of a tree;
* `merge_holds_iff`         the result is the matrix just if nothing is written outside of it, and the blocks
                      that are lost are zero.
-/

set_option linter.unusedSectionVars false

namespace Netsdb
open DenseBlock

/-- a matrix cut into blocks of one size; those at the right and at the bottom are padded -/
structure Cut where
  totalRows : ℕ
  totalCols : ℕ
  rowNums : ℕ
  colNums : ℕ
  rowNums_pos : 0 < rowNums
  colNums_pos : 0 < colNums

/-- leaves are blocks, told by block row and block column -/
inductive MergeTree
  | leaf (b : ℕ × ℕ)
  | node (this other : MergeTree)
deriving DecidableEq, Repr

namespace Cut

/-- the blocks of the grid -/
def Has (g : Cut) (b : ℕ × ℕ) : Prop :=
  b.1 * g.rowNums < g.totalRows ∧ b.2 * g.colNums < g.totalCols

/-- the block is not padded -/
def Whole (g : Cut) (b : ℕ × ℕ) : Prop :=
  (b.1 + 1) * g.rowNums ≤ g.totalRows ∧ (b.2 + 1) * g.colNums ≤ g.totalCols

variable {α : Type*} [Zero α]

/-- the matrix with zeros around it -/
def padded (g : Cut) (M : ℕ → ℕ → α) (x y : ℕ) : α :=
  if x < g.totalRows ∧ y < g.totalCols then M x y else 0

def block (g : Cut) (M : ℕ → ℕ → α) (b : ℕ × ℕ) : DenseBlock α :=
  ⟨b.1, b.2, g.totalRows, g.totalCols, g.rowNums, g.colNums,
    fun k => g.padded M (b.1 * g.rowNums + k / g.colNums) (b.2 * g.colNums + k % g.colNums)⟩

/-- the block that covers a position -/
def blockOf (g : Cut) (x y : ℕ) : ℕ × ℕ := (x / g.rowNums, y / g.colNums)

end Cut

namespace MergeTree

def leaves : MergeTree → List (ℕ × ℕ)
  | leaf b => [b]
  | node this other => this.leaves ++ other.leaves

def isLeaf : MergeTree → Bool
  | leaf _ => true
  | node _ _ => false

section
variable {α : Type*} [Zero α]

/-- the result, and all positions that are written on the way -/
def eval (cls : BlockClass) (g : Cut) (M : ℕ → ℕ → α) : MergeTree → Option (DenseBlock α × WriteLog)
  | leaf b => some (g.block M b, [])
  | node this other => do
    let x ← this.eval cls g M
    let y ← other.eval cls g M
    let z ← cls.plus x.1 y.1
    return (z.1, x.2 ++ y.2 ++ z.2)

end

/-- the block index of the result -/
def corner : MergeTree → ℕ × ℕ
  | leaf b => b
  | node _ _ => (0, 0)

/-- the blocks whose values are in the result: an enlarged right operand overwrites the left one, and
only a `MatrixBlock` puts its own values into the first sum -/
def Kept (cls : BlockClass) : MergeTree → ℕ × ℕ → Prop
  | leaf b, x => x = b
  | node this other, x =>
    other.Kept cls x ∨ other.isLeaf = true ∧ (cls.Own ∨ this.isLeaf = false) ∧ this.Kept cls x

instance decidableKept (cls : BlockClass) : (t : MergeTree) → (x : ℕ × ℕ) → Decidable (t.Kept cls x)
  | leaf b, x => inferInstanceAs (Decidable (x = b))
  | node this other, x =>
    have := decidableKept cls this x
    have := decidableKept cls other x
    inferInstanceAs (Decidable (_ ∨ _ ∧ _ ∧ _))

/-- a block at a leaf is not padded -/
def Fits (g : Cut) : MergeTree → Prop
  | leaf b => g.Whole b
  | node _ _ => True

/-- no operator of the tree writes outside of the matrix -/
def Inside (cls : BlockClass) (g : Cut) : MergeTree → Prop
  | leaf _ => True
  | node this other => this.Inside cls g ∧ other.Inside cls g ∧ other.Fits g ∧
    ∀ b, this = leaf b → g.Whole (if cls.Own then b else other.corner)

end MergeTree

/-- a tree with each block of the grid once -/
structure Merge (g : Cut) where
  tree : MergeTree
  nodup : tree.leaves.Nodup
  all : ∀ b, b ∈ tree.leaves ↔ g.Has b

/-- a position of the matrix -/
def Cut.In (g : Cut) (p : Int × Int) : Prop :=
  0 ≤ p.1 ∧ p.1 < g.totalRows ∧ 0 ≤ p.2 ∧ p.2 < g.totalCols

/-- the result of the tree has the values of the matrix, and nothing outside of it was written -/
def GivesMatrix {α : Type*} [Zero α] (cls : BlockClass) (g : Cut) (M : ℕ → ℕ → α) (t : MergeTree) : Prop :=
  ∃ z w, t.eval cls g M = some (z, w) ∧
    (∀ x < g.totalRows, ∀ y < g.totalCols, z.rawData (x * z.colNums + y).toNat = M x y) ∧
    ∀ p ∈ w, g.In p

namespace MergeTree
variable {α : Type*} [Zero α] {cls : BlockClass} {g : Cut} {M : ℕ → ℕ → α} {t l r : MergeTree}
  {b : ℕ × ℕ} {x y z : DenseBlock α}

/-! ## where a result is -/

def rows (g : Cut) : MergeTree → ℕ
  | leaf _ => g.rowNums
  | node _ _ => g.totalRows

def cols (g : Cut) : MergeTree → ℕ
  | leaf _ => g.colNums
  | node _ _ => g.totalCols

def top (g : Cut) (t : MergeTree) : ℕ := t.corner.1 * t.rows g

def left (g : Cut) (t : MergeTree) : ℕ := t.corner.2 * t.cols g

/-- what the result of the tree has at a position -/
def value (cls : BlockClass) (g : Cut) (M : ℕ → ℕ → α) (t : MergeTree) (x y : ℕ) : α :=
  if t.Kept cls (g.blockOf x y) then g.padded M x y else 0

/-- `z` is a result of the tree -/
structure IsResult (g : Cut) (t : MergeTree) (z : DenseBlock α) : Prop where
  blockRowIndex : z.blockRowIndex = t.corner.1
  blockColIndex : z.blockColIndex = t.corner.2
  totalRows : z.totalRows = g.totalRows
  totalCols : z.totalCols = g.totalCols
  rowNums : z.rowNums = t.rows g
  colNums : z.colNums = t.cols g

theorem IsResult.rowStart (h : IsResult g t z) : z.rowStart = (t.top g : Int) := by
  rw [DenseBlock.rowStart, h.blockRowIndex, h.rowNums, top]
  push_cast
  rfl

theorem IsResult.colStart (h : IsResult g t z) : z.colStart = (t.left g : Int) := by
  rw [DenseBlock.colStart, h.blockColIndex, h.colNums, left]
  push_cast
  rfl

/-- the copy loops on the cells of the matrix -/
theorem IsResult.copyBlock (h : IsResult g t z) {a c : ℕ} (hw : c + t.cols g ≤ g.totalCols) {i j : ℕ}
    (hj : j < g.totalCols) (cells : ℕ → α) :
    z.copyBlock a c g.totalCols cells (i * g.totalCols + j) =
      if a ≤ i ∧ i < a + t.rows g ∧ c ≤ j ∧ j < c + t.cols g then
        z.rawData ((i - a) * t.cols g + (j - c))
      else cells (i * g.totalCols + j) := by
  have hpos : (fun p : ℕ × ℕ => (((a : Int) + p.1) * g.totalCols + ((c : Int) + p.2)).toNat) =
      fun p => (a + p.1) * g.totalCols + (c + p.2) := by
    funext p
    exact Int.toNat_natCast ((a + p.1) * g.totalCols + (c + p.2))
  have hval : (fun p : ℕ × ℕ => z.rawData ((p.1 : Int) * z.colNums + p.2).toNat) =
      fun p => z.rawData (p.1 * t.cols g + p.2) := by
    funext p
    rw [h.colNums]
    exact congrArg z.rawData (Int.toNat_natCast (p.1 * t.cols g + p.2))
  rw [DenseBlock.copyBlock, hpos, hval, h.rowNums, h.colNums, Int.toNat_natCast, Int.toNat_natCast]
  exact scatter_nested _ cells hw hj

/-- the positions are those of a rectangle -/
theorem IsResult.positions (h : IsResult g t z) (hr : 0 < t.rows g) (hc : 0 < t.cols g) (a c : ℕ) :
    (∀ p ∈ z.positions a c, g.In p) ↔ a + t.rows g ≤ g.totalRows ∧ c + t.cols g ≤ g.totalCols := by
  unfold DenseBlock.positions Cut.In
  rw [h.rowNums, h.colNums, Int.toNat_natCast, Int.toNat_natCast]
  simp only [List.mem_map, mem_nested, forall_exists_index, and_imp]
  constructor
  · intro hall
    have hlast := hall _ (t.rows g - 1, t.cols g - 1) (by dsimp only; omega) (by dsimp only; omega) rfl
    dsimp only at hlast
    omega
  · rintro ⟨h1, h2⟩ _ ⟨i, j⟩ hi hj rfl
    dsimp only at hi hj ⊢
    omega

theorem Fits.iff (t : MergeTree) :
    t.Fits g ↔ t.top g + t.rows g ≤ g.totalRows ∧ t.left g + t.cols g ≤ g.totalCols := by
  cases t with
  | leaf b =>
    show g.Whole b ↔ b.1 * g.rowNums + g.rowNums ≤ _ ∧ b.2 * g.colNums + g.colNums ≤ _
    rw [Cut.Whole, Nat.succ_mul, Nat.succ_mul]
  | node l r =>
    refine ⟨fun _ => ?_, fun _ => trivial⟩
    show 0 * g.totalRows + g.totalRows ≤ _ ∧ 0 * g.totalCols + g.totalCols ≤ _
    omega

theorem skips_not (h : IsResult g t z) (hr : 0 < t.rows g) (hc : 0 < t.cols g)
    (ht : t.top g < g.totalRows) (hl : t.left g < g.totalCols) (hrows : z.totalRows = g.totalRows) :
    ¬ Skips z := by
  have h1 := h.rowStart
  have h2 := h.colStart
  unfold DenseBlock.rowStart at h1
  unfold DenseBlock.colStart at h2
  unfold Skips
  dsimp only
  rw [h1, h2, h.blockRowIndex, h.blockColIndex, h.totalRows, h.totalCols, h.rowNums, h.colNums]
  omega

/-! ## values -/

theorem blockOf_eq {i j : ℕ} : g.blockOf i j = b ↔
    b.1 * g.rowNums ≤ i ∧ i < b.1 * g.rowNums + g.rowNums ∧
      b.2 * g.colNums ≤ j ∧ j < b.2 * g.colNums + g.colNums := by
  have h1 := g.rowNums_pos
  have h2 := g.colNums_pos
  rw [Cut.blockOf, Prod.ext_iff]
  dsimp only
  rw [Nat.div_eq_iff h1, Nat.div_eq_iff h2]
  omega

/-- a position is in the rectangle of the tree -/
def Covers (g : Cut) (t : MergeTree) (i j : ℕ) : Prop :=
  t.top g ≤ i ∧ i < t.top g + t.rows g ∧ t.left g ≤ j ∧ j < t.left g + t.cols g

theorem covers_leaf {i j : ℕ} : (leaf b).Covers g i j ↔ g.blockOf i j = b := blockOf_eq.symm

theorem covers_node {i j : ℕ} (hi : i < g.totalRows) (hj : j < g.totalCols) :
    (node l r).Covers g i j := by
  show 0 * g.totalRows ≤ i ∧ i < 0 * g.totalRows + g.totalRows ∧
    0 * g.totalCols ≤ j ∧ j < 0 * g.totalCols + g.totalCols
  omega

theorem value_of_iff {t' : MergeTree} {i j : ℕ}
    (h : t.Kept cls (g.blockOf i j) ↔ t'.Kept cls (g.blockOf i j)) :
    t.value cls g M i j = t'.value cls g M i j := by
  unfold value
  exact if_congr h rfl rfl

/-- the right operand wins -/
theorem value_covered {i j : ℕ} (h : r.Covers g i j) :
    (node l r).value cls g M i j = r.value cls g M i j := by
  refine value_of_iff ?_
  cases r with
  | leaf b =>
    have hb := covers_leaf.mp h
    exact ⟨fun _ => hb, fun hk => .inl hk⟩
  | node l' r' =>
    refine ⟨fun hk => hk.resolve_right ?_, .inl⟩
    rintro ⟨hleaf, -⟩
    cases hleaf

/-- elsewhere the left operand is seen, if it was not lost -/
theorem value_not_covered {i j : ℕ} (hi : i < g.totalRows) (hj : j < g.totalCols)
    (h : ¬ r.Covers g i j) (hl : cls.Own ∨ l.isLeaf = false) :
    (node l r).value cls g M i j = l.value cls g M i j := by
  refine value_of_iff ?_
  cases r with
  | node l' r' => exact absurd (covers_node hi hj) h
  | leaf b =>
    refine ⟨fun hk => ?_, fun hk => .inr ⟨rfl, hl, hk⟩⟩
    obtain hk | ⟨-, -, hk⟩ := hk
    · exact absurd (covers_leaf.mpr hk) h
    · exact hk

theorem value_lost {i j : ℕ} (hi : i < g.totalRows) (hj : j < g.totalCols) (h : ¬ r.Covers g i j)
    (hown : ¬ cls.Own) : (node (leaf b) r).value cls g M i j = 0 := by
  refine if_neg fun hk => ?_
  obtain hk | ⟨-, hl | hl, -⟩ := hk
  · cases r with
    | node l' r' => exact h (covers_node hi hj)
    | leaf b' => exact h (covers_leaf.mpr hk)
  · exact hown hl
  · cases hl

/-- what is known of a result -/
structure Spec (cls : BlockClass) (g : Cut) (M : ℕ → ℕ → α) (t : MergeTree) (z : DenseBlock α)
    (w : WriteLog) : Prop where
  isResult : IsResult g t z
  log : (∀ p ∈ w, g.In p) ↔ t.Inside cls g
  values : t.Inside cls g → ∀ i j, t.Covers g i j →
    z.rawData ((i - t.top g) * t.cols g + (j - t.left g)) = t.value cls g M i j

theorem spec_leaf (cls : BlockClass) (g : Cut) (M : ℕ → ℕ → α) (b : ℕ × ℕ) :
    Spec cls g M (leaf b) (g.block M b) [] := by
  refine ⟨⟨rfl, rfl, rfl, rfl, rfl, rfl⟩, ⟨fun _ => trivial, fun _ => nofun⟩, fun _ i j h => ?_⟩
  have hk : (leaf b).Kept cls (g.blockOf i j) := covers_leaf.mp h
  obtain ⟨h1, h2, h3, h4⟩ := h
  have hpos := g.colNums_pos
  have hcell : ∀ d e, e < g.colNums → (d * g.colNums + e) / g.colNums = d ∧
      (d * g.colNums + e) % g.colNums = e := by
    intro d e he
    rw [Nat.mul_comm, Nat.mul_add_div hpos, Nat.mul_add_mod, Nat.div_eq_of_lt he, Nat.mod_eq_of_lt he]
    exact ⟨rfl, rfl⟩
  change b.1 * g.rowNums ≤ i at h1
  change b.2 * g.colNums ≤ j at h3
  change j < b.2 * g.colNums + g.colNums at h4
  obtain ⟨hdiv, hmod⟩ := hcell (i - b.1 * g.rowNums) (j - b.2 * g.colNums) (by omega)
  rw [value, if_pos hk]
  show g.padded M (b.1 * g.rowNums + ((i - b.1 * g.rowNums) * g.colNums + (j - b.2 * g.colNums)) /
    g.colNums) (b.2 * g.colNums + ((i - b.1 * g.rowNums) * g.colNums + (j - b.2 * g.colNums)) %
    g.colNums) = g.padded M i j
  rw [hdiv, hmod, Nat.add_sub_cancel' h1, Nat.add_sub_cancel' h3]

/-! ## the trees -/

theorem rows_pos (hg : 0 < g.totalRows) (t : MergeTree) : 0 < t.rows g := by
  cases t with
  | leaf b => exact g.rowNums_pos
  | node l r => exact hg

theorem cols_pos (hg : 0 < g.totalCols) (t : MergeTree) : 0 < t.cols g := by
  cases t with
  | leaf b => exact g.colNums_pos
  | node l r => exact hg

/-- a result is not skipped -/
theorem Spec.not_skips {w : WriteLog} (h : Spec cls g M t z w) (ht : ∀ b ∈ t.leaves, g.Has b)
    (hr : 0 < g.totalRows) (hc : 0 < g.totalCols) : ¬ Skips z := by
  have hin : t.top g < g.totalRows ∧ t.left g < g.totalCols := by
    cases t with
    | leaf b => exact ht b List.mem_cons_self
    | node l r =>
      show 0 * g.totalRows < _ ∧ 0 * g.totalCols < _
      omega
  exact skips_not h.isResult (rows_pos hr t) (cols_pos hc t) hin.1 hin.2 h.isResult.totalRows

/-- **A block is added to an enlarged one.** -/
theorem spec_enlarged {wx wy : WriteLog} {l₁ l₂ : MergeTree} (hx : Spec cls g M (node l₁ l₂) x wx)
    (hy : Spec cls g M r y wy) (hr : 0 < g.totalRows) (hc : 0 < g.totalCols) (hs : ¬ Skips y) :
    ∃ z w, cls.plus x y = some (z, w) ∧ Spec cls g M (node (node l₁ l₂) r) z (wx ++ wy ++ w) := by
  have hX := hx.isResult
  have hY := hy.isResult
  have henl : x.Enlarged :=
    ⟨hX.rowNums.trans hX.totalRows.symm, hX.colNums.trans hX.totalCols.symm⟩
  refine ⟨_, _, BlockClass.plus_enlarged cls hs henl, ⟨?_, ?_, ?_⟩⟩
  · exact ⟨hX.blockRowIndex, hX.blockColIndex, hX.totalRows, hX.totalCols, hX.rowNums, hX.colNums⟩
  · rw [hY.rowStart, hY.colStart]
    simp only [List.mem_append, or_imp, forall_and]
    rw [hx.log, hy.log, hY.positions (rows_pos hr r) (cols_pos hc r), ← Fits.iff]
    exact ⟨fun h => ⟨h.1.1, h.1.2, h.2, nofun⟩, fun h => ⟨⟨h.1, h.2.1⟩, h.2.2.1⟩⟩
  · rintro ⟨hin₁, hin₂, hfits, -⟩ i j hcov
    have hi : i < g.totalRows := by
      have := hcov.2.1
      change i < 0 * g.totalRows + g.totalRows at this
      omega
    have hj : j < g.totalCols := by
      have := hcov.2.2.2
      change j < 0 * g.totalCols + g.totalCols at this
      omega
    have hvalue := hx.values hin₁ i j (covers_node hi hj)
    show y.copyBlock y.rowStart y.colStart x.totalCols x.rawData
      ((i - 0 * g.totalRows) * g.totalCols + (j - 0 * g.totalCols)) = _
    change x.rawData ((i - 0 * g.totalRows) * g.totalCols + (j - 0 * g.totalCols)) = _ at hvalue
    rw [Nat.zero_mul, Nat.zero_mul, Nat.sub_zero, Nat.sub_zero] at hvalue ⊢
    rw [hY.rowStart, hY.colStart, hX.totalCols, hY.copyBlock ((Fits.iff r).mp hfits).2 hj]
    by_cases hr' : r.Covers g i j
    · refine (if_pos hr').trans ?_
      rw [hy.values hin₂ i j hr', value_covered hr']
    · refine (if_neg hr').trans ?_
      rw [hvalue, value_not_covered hi hj hr' (.inr rfl)]

/-- **The first sum.** -/
theorem spec_first {wx wy : WriteLog} (hx : Spec cls g M (leaf b) x wx) (hy : Spec cls g M r y wy)
    (hr : 0 < g.totalRows) (hc : 0 < g.totalCols) (hs : ¬ Skips y)
    (hne : ¬ (g.rowNums = g.totalRows ∧ g.colNums = g.totalCols))
    (hsize : g.totalRows * g.totalCols < 2 ^ 31) :
    ∃ z w, cls.plus x y = some (z, w) ∧ Spec cls g M (node (leaf b) r) z (wx ++ wy ++ w) := by
  have hX := hx.isResult
  have hY := hy.isResult
  have henl : ¬ x.Enlarged := by
    rintro ⟨h1, h2⟩
    rw [hX.rowNums, hX.totalRows] at h1
    rw [hX.colNums, hX.totalCols] at h2
    exact hne ⟨Int.ofNat_inj.mp h1, Int.ofNat_inj.mp h2⟩
  have hcreate : (create 0 0 x.totalRows x.totalCols x.totalRows x.totalCols : Option (DenseBlock α)) =
      some ⟨0, 0, g.totalRows, g.totalCols, g.totalRows, g.totalCols, fun _ => 0⟩ := by
    rw [hX.totalRows, hX.totalCols]
    exact if_pos (by exact_mod_cast hsize)
  -- the place of the left block
  obtain ⟨P, hP⟩ : ∃ P, P = if cls.Own then b else r.corner := ⟨_, rfl⟩
  have hplace : (cls.placeOf x y).rowStart = (P.1 * g.rowNums : ℕ) ∧
      (cls.placeOf x y).colStart = (P.2 * g.colNums : ℕ) := by
    unfold BlockClass.placeOf
    split_ifs at hP ⊢ with hown
    · rw [hP]
      exact ⟨hX.rowStart, hX.colStart⟩
    · rw [hP, hY.rowStart, hY.colStart]
      cases r with
      | leaf b' => exact ⟨rfl, rfl⟩
      | node l' r' =>
        simp [top, left, corner]
  refine ⟨_, _, by rw [BlockClass.plus_first cls hs henl, hcreate]; rfl, ⟨?_, ?_, ?_⟩⟩
  · exact ⟨rfl, rfl, rfl, rfl, rfl, rfl⟩
  · rw [hY.rowStart, hY.colStart, hplace.1, hplace.2]
    simp only [List.mem_append, or_imp, forall_and]
    rw [hx.log, hy.log, hY.positions (rows_pos hr r) (cols_pos hc r), ← Fits.iff,
      hX.positions g.rowNums_pos g.colNums_pos]
    have hwhole : (P.1 * g.rowNums + (leaf b).rows g ≤ g.totalRows ∧
        P.2 * g.colNums + (leaf b).cols g ≤ g.totalCols) ↔ g.Whole P := by
      rw [Cut.Whole, Nat.succ_mul, Nat.succ_mul]
      rfl
    rw [hwhole, hP]
    constructor
    · rintro ⟨⟨h1, h2⟩, h3, h4⟩
      refine ⟨h1, h2, h4, fun b' hb' => ?_⟩
      cases hb'
      exact h3
    · rintro ⟨h1, h2, h3, h4⟩
      exact ⟨⟨h1, h2⟩, h4 b rfl, h3⟩
  · rintro ⟨hin₁, hin₂, hfits, hwhole⟩ i j hcov
    have hi : i < g.totalRows := by
      have := hcov.2.1
      change i < 0 * g.totalRows + g.totalRows at this
      omega
    have hj : j < g.totalCols := by
      have := hcov.2.2.2
      change j < 0 * g.totalCols + g.totalCols at this
      omega
    have hw : P.2 * g.colNums + (leaf b).cols g ≤ g.totalCols := by
      have h2 := (hwhole b rfl).2
      rw [← hP, Nat.succ_mul] at h2
      exact h2
    show y.copyBlock y.rowStart y.colStart x.totalCols (x.copyBlock (cls.placeOf x y).rowStart
      (cls.placeOf x y).colStart x.totalCols fun _ => 0)
      ((i - 0 * g.totalRows) * g.totalCols + (j - 0 * g.totalCols)) = _
    rw [Nat.zero_mul, Nat.zero_mul, Nat.sub_zero, Nat.sub_zero, hY.rowStart, hY.colStart, hplace.1,
      hplace.2, hX.totalCols, hY.copyBlock ((Fits.iff r).mp hfits).2 hj, hX.copyBlock hw hj]
    by_cases hr' : r.Covers g i j
    · refine (if_pos hr').trans ?_
      rw [hy.values hin₂ i j hr', value_covered hr']
    · refine (if_neg hr').trans ?_
      by_cases hown : cls.Own
      · rw [if_pos hown] at hP
        subst hP
        rw [value_not_covered hi hj hr' (.inl hown)]
        by_cases hb : (leaf P).Covers g i j
        · exact (if_pos hb).trans (hx.values hin₁ i j hb)
        · exact (if_neg hb).trans (if_neg fun hk => hb (covers_leaf.mpr hk)).symm
      · rw [if_neg hown] at hP
        rw [value_lost hi hj hr' hown]
        refine if_neg fun hb => ?_
        -- the rectangle that `this` was put to is the one of `other`
        cases r with
        | node l' r' => exact hr' (covers_node hi hj)
        | leaf b' =>
          subst hP
          exact hr' hb

theorem exists_leaf (t : MergeTree) : ∃ b, b ∈ t.leaves := by
  induction t with
  | leaf b => exact ⟨b, List.mem_cons_self⟩
  | node l r ihl _ =>
    obtain ⟨b, hb⟩ := ihl
    exact ⟨b, List.mem_append_left _ hb⟩

/-- two blocks of the grid: neither is the whole matrix -/
theorem not_one {b' : ℕ × ℕ} (hb : g.Has b) (hb' : g.Has b') (hne : b ≠ b') :
    ¬ (g.rowNums = g.totalRows ∧ g.colNums = g.totalCols) := by
  rintro ⟨h1, h2⟩
  have hzero : ∀ b, g.Has b → b = (0, 0) := by
    intro b h
    rw [Cut.Has, h1, h2] at h
    have hone : ∀ n m : ℕ, n * m < m → n = 0 := fun n m hlt => by
      by_contra hn
      have := Nat.le_mul_of_pos_left m (Nat.pos_of_ne_zero hn)
      omega
    exact Prod.ext (hone _ _ h.1) (hone _ _ h.2)
  exact hne ((hzero b hb).trans (hzero b' hb').symm)

/-- the two sides of a sum -/
theorem sides (ht : ∀ b ∈ (node l r).leaves, g.Has b) (hnd : (node l r).leaves.Nodup) :
    ((∀ b ∈ l.leaves, g.Has b) ∧ l.leaves.Nodup) ∧ ((∀ b ∈ r.leaves, g.Has b) ∧ r.leaves.Nodup) ∧
      ∀ b, l = leaf b → ¬ (g.rowNums = g.totalRows ∧ g.colNums = g.totalCols) := by
  obtain ⟨h1, h2, h3⟩ := List.nodup_append.mp hnd
  have hl : ∀ b ∈ l.leaves, g.Has b := fun b hb => ht b (List.mem_append_left _ hb)
  have hr : ∀ b ∈ r.leaves, g.Has b := fun b hb => ht b (List.mem_append_right _ hb)
  refine ⟨⟨hl, h1⟩, ⟨hr, h2⟩, fun b hb => ?_⟩
  obtain ⟨b', hb'⟩ := exists_leaf r
  have hmem : b ∈ l.leaves := by
    rw [hb]
    exact List.mem_cons_self
  exact not_one (hl b hmem) (hr b' hb') (h3 b hmem b' hb')

theorem size_pos (ht : ∀ b ∈ t.leaves, g.Has b) : 0 < g.totalRows ∧ 0 < g.totalCols := by
  obtain ⟨b, hb⟩ := exists_leaf t
  obtain ⟨h1, h2⟩ := ht b hb
  omega

/-- **What a tree of sums gives.** -/
theorem eval_spec (cls : BlockClass) (M : ℕ → ℕ → α) (hsize : g.totalRows * g.totalCols < 2 ^ 31) :
    ∀ t : MergeTree, (∀ b ∈ t.leaves, g.Has b) → t.leaves.Nodup →
      ∃ z w, t.eval cls g M = some (z, w) ∧ Spec cls g M t z w := by
  intro t
  induction t with
  | leaf b => exact fun _ _ => ⟨_, _, rfl, spec_leaf cls g M b⟩
  | node l r ihl ihr =>
    intro ht hnd
    obtain ⟨⟨hl, hndl⟩, ⟨hr, hndr⟩, hone⟩ := sides ht hnd
    obtain ⟨hrows, hcols⟩ := size_pos ht
    obtain ⟨x, wx, hevalx, hx⟩ := ihl hl hndl
    obtain ⟨y, wy, hevaly, hy⟩ := ihr hr hndr
    have hs := hy.not_skips hr hrows hcols
    obtain ⟨z, w, hplus, hz⟩ : ∃ z w, cls.plus x y = some (z, w) ∧
        Spec cls g M (node l r) z (wx ++ wy ++ w) := by
      cases l with
      | leaf b => exact spec_first hx hy hrows hcols hs (hone b rfl) hsize
      | node l₁ l₂ => exact spec_enlarged hx hy hrows hcols hs
    refine ⟨z, wx ++ wy ++ w, ?_, hz⟩
    rw [eval, hevalx, hevaly]
    show (cls.plus x y).bind _ = _
    rw [hplus]
    rfl

/-- the whole matrix has too many elements: the first sum cannot be made -/
theorem eval_none (cls : BlockClass) (M : ℕ → ℕ → α) (hsize : ¬ g.totalRows * g.totalCols < 2 ^ 31) :
    ∀ t : MergeTree, (∀ b ∈ t.leaves, g.Has b) → t.leaves.Nodup → t.isLeaf = false →
      t.eval cls g M = none := by
  intro t
  induction t with
  | leaf b => exact fun _ _ h => nomatch h
  | node l r ihl ihr =>
    intro ht hnd _
    obtain ⟨⟨hl, hndl⟩, ⟨hr, hndr⟩, hone⟩ := sides ht hnd
    obtain ⟨hrows, hcols⟩ := size_pos ht
    cases l with
    | node l₁ l₂ =>
      rw [eval, ihl hl hndl rfl]
      rfl
    | leaf b =>
      cases r with
      | node r₁ r₂ =>
        rw [eval, ihr hr hndr rfl]
        rfl
      | leaf b' =>
        have hs := (spec_leaf cls g M b').not_skips hr hrows hcols
        have henl : ¬ (g.block M b).Enlarged := fun h =>
          hone b rfl ⟨Int.ofNat_inj.mp h.1, Int.ofNat_inj.mp h.2⟩
        have hcreate : (create 0 0 g.totalRows g.totalCols g.totalRows g.totalCols :
            Option (DenseBlock α)) = none := if_neg (by exact_mod_cast hsize)
        have hplus : cls.plus (g.block M b) (g.block M b') = none := by
          rw [BlockClass.plus_first cls hs henl]
          show Option.map _ (create 0 0 g.totalRows g.totalCols g.totalRows g.totalCols) = none
          rw [hcreate]
          rfl
        show (cls.plus (g.block M b) (g.block M b')).bind _ = none
        rw [hplus]
        rfl

end MergeTree

open MergeTree
variable {α : Type*} [Zero α] {g : Cut}

theorem Cut.has_blockOf {x y : ℕ} (hx : x < g.totalRows) (hy : y < g.totalCols) :
    g.Has (g.blockOf x y) :=
  ⟨(Nat.div_mul_le_self x _).trans_lt hx, (Nat.div_mul_le_self y _).trans_lt hy⟩

theorem padded_in (M : ℕ → ℕ → α) {x y : ℕ} (hx : x < g.totalRows) (hy : y < g.totalCols) :
    g.padded M x y = M x y := if_pos ⟨hx, hy⟩

/-- a matrix that is one block -/
theorem gives_leaf (cls : BlockClass) (m : Merge g) (M : ℕ → ℕ → α) {b : ℕ × ℕ} (h : m.tree = leaf b) :
    GivesMatrix cls g M m.tree := by
  have hall : ∀ b', g.Has b' → b' = b := fun b' hb' => by
    have := (m.all b').mpr hb'
    rw [h] at this
    exact List.mem_singleton.mp this
  have hb : g.Has b := (m.all b).mp (by rw [h]; exact List.mem_cons_self)
  have hzero : b = (0, 0) := by
    refine (hall (0, 0) ⟨?_, ?_⟩).symm
    · have := hb.1
      omega
    · have := hb.2
      omega
  rw [h]
  refine ⟨_, _, rfl, fun x hx y hy => ?_, nofun⟩
  have hcov : (leaf b).Covers g x y := covers_leaf.mpr (hall _ (Cut.has_blockOf hx hy))
  have hval := (spec_leaf cls g M b).values trivial x y hcov
  have hk : (leaf b).Kept cls (g.blockOf x y) := covers_leaf.mp hcov
  rw [value, if_pos hk, padded_in M hx hy] at hval
  rw [← hval, hzero]
  show (g.block M (0, 0)).rawData ((x : Int) * g.colNums + y).toNat =
    (g.block M (0, 0)).rawData ((x - 0 * g.rowNums) * g.colNums + (y - 0 * g.colNums))
  rw [Nat.zero_mul, Nat.zero_mul, Nat.sub_zero, Nat.sub_zero]
  exact congrArg _ (Int.toNat_natCast (x * g.colNums + y))

/-- a `MatrixBlock` puts every block to its place -/
theorem inside_own (t : MergeTree) :
    t.Inside .matrixBlock g ∧ t.Fits g ↔ ∀ b ∈ t.leaves, g.Whole b := by
  induction t with
  | leaf b =>
    constructor
    · rintro ⟨-, h⟩ b' hb'
      rw [List.mem_singleton.mp hb']
      exact h
    · exact fun h => ⟨trivial, h b List.mem_cons_self⟩
  | node l r ihl ihr =>
    have hleft : (∀ b, l = leaf b → g.Whole (if BlockClass.matrixBlock.Own then b else r.corner)) ↔
        l.Fits g := by
      rw [show BlockClass.matrixBlock.Own from rfl]
      cases l with
      | leaf b => exact ⟨fun h => h b rfl, fun h b' hb' => by cases hb'; exact h⟩
      | node l₁ l₂ => exact ⟨fun _ => trivial, fun _ _ => nofun⟩
    rw [leaves]
    simp only [List.mem_append, or_imp, forall_and]
    rw [← ihl, ← ihr]
    constructor
    · rintro ⟨⟨h1, h2, h3, h4⟩, -⟩
      exact ⟨⟨h1, hleft.mp h4⟩, h2, h3⟩
    · rintro ⟨⟨h1, h2⟩, h3, h4⟩
      exact ⟨⟨h1, h3, h4, hleft.mpr h2⟩, trivial⟩

/-- so no block of the matrix may be padded -/
theorem inside_matrixBlock (m : Merge g) (h : m.tree.isLeaf = false) :
    m.tree.Inside .matrixBlock g ↔ g.rowNums ∣ g.totalRows ∧ g.colNums ∣ g.totalCols := by
  have hfits : m.tree.Fits g := by
    cases ht : m.tree with
    | leaf b =>
      rw [ht] at h
      cases h
    | node l r => trivial
  have hall : m.tree.Inside .matrixBlock g ↔ ∀ b, g.Has b → g.Whole b := by
    rw [← and_iff_left (a := m.tree.Inside .matrixBlock g) hfits, inside_own]
    exact forall_congr' fun b => imp_congr_left (m.all b)
  obtain ⟨hrows, hcols⟩ := size_pos fun b hb => (m.all b).mp hb
  have hdvd : ∀ n k : ℕ, 0 < n → (k / n + 1) * n ≤ k + 1 → n ∣ k + 1 := fun n k hn hle => by
    have hlt := Nat.lt_mul_div_succ k hn
    rw [Nat.mul_comm] at hlt
    exact ⟨k / n + 1, by rw [Nat.mul_comm n]; omega⟩
  rw [hall]
  constructor
  · intro hw
    obtain ⟨h1, h2⟩ := hw (g.blockOf (g.totalRows - 1) (g.totalCols - 1))
      (Cut.has_blockOf (by omega) (by omega))
    have h3 := hdvd g.rowNums (g.totalRows - 1) g.rowNums_pos
    have h4 := hdvd g.colNums (g.totalCols - 1) g.colNums_pos
    rw [Nat.sub_add_cancel hrows] at h3
    rw [Nat.sub_add_cancel hcols] at h4
    exact ⟨h3 h1, h4 h2⟩
  · rintro ⟨⟨a, ha⟩, ⟨c, hc⟩⟩ b ⟨h1, h2⟩
    rw [ha, Nat.mul_comm] at h1
    rw [hc, Nat.mul_comm] at h2
    refine ⟨?_, ?_⟩
    · rw [ha, Nat.mul_comm g.rowNums]
      exact Nat.mul_le_mul_right _ (Nat.lt_of_mul_lt_mul_left h1)
    · rw [hc, Nat.mul_comm g.colNums]
      exact Nat.mul_le_mul_right _ (Nat.lt_of_mul_lt_mul_left h2)

/-- three blocks of one element in a row; the last two are merged first -/
def threeBlocks : Merge ⟨1, 3, 1, 1, Nat.one_pos, Nat.one_pos⟩ where
  tree := .node (.leaf (0, 0)) (.node (.leaf (0, 1)) (.leaf (0, 2)))
  nodup := by decide
  all := by
    rintro ⟨i, j⟩
    simp only [leaves, Cut.Has, List.mem_append, List.mem_singleton, Prod.mk.injEq]
    omega

theorem not_gives_three (cls : BlockClass)
    (h : (threeBlocks.tree.eval cls ⟨1, 3, 1, 1, by decide, by decide⟩ fun _ y => y + 1).map
      (fun z => (z.1.rawData 0, z.1.colNums)) = some (0, 3)) :
    ¬ ∀ (g : Cut) (m : Merge g) (M : ℕ → ℕ → ℕ), GivesMatrix cls g M m.tree := by
  intro hall
  obtain ⟨z, w, heval, hmatrix, -⟩ := hall _ threeBlocks fun _ y => y + 1
  rw [heval] at h
  have hzero : z.rawData 0 = 0 := congrArg Prod.fst (Option.some.inj h)
  have hone := hmatrix 0 (by decide) 0 (by decide)
  rw [Nat.cast_zero, zero_mul, zero_add, Int.toNat_zero, hzero] at hone
  cases hone

end Netsdb
