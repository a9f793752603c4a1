import Netsdb.LinearAlgebra.Computations
import Netsdb.Lib.Grid
import Mathlib.LinearAlgebra.Matrix.NonsingularInverse

/-!
# Matrices and their blocks

* `Mat`                    matrices, and what the operators of the language mean;
* `Represents`             each block of a matrix is there once, with its elements;
* `aggregate_represents`   groups of blocks, added up in any order, represent the totals;
* `multiply_represents`    the join and the aggregation of a product represent the product; the other
                           operators have a lemma each.
-/

set_option linter.unusedSectionVars false

namespace Netsdb
namespace LinearAlgebra
open Finset Blocked Aggregation

variable {F : Type}

/-! ## matrices -/

structure Mat (F : Type) where
  rows : ℕ
  cols : ℕ
  entry : ℕ → ℕ → F

namespace Mat

def transpose (A : Mat F) : Mat F := ⟨A.cols, A.rows, fun i j => A.entry j i⟩

def zipWith (op : F → F → F) (A B : Mat F) : Mat F :=
  ⟨A.rows, A.cols, fun i j => op (A.entry i j) (B.entry i j)⟩

def totalRows (op : F → F → F) (A : Mat F) : Mat F := ⟨A.rows, 1, fun i _ => total op A.cols (A.entry i)⟩

def totalCols (op : F → F → F) (A : Mat F) : Mat F :=
  ⟨1, A.cols, fun _ j => total op A.rows fun i => A.entry i j⟩

def duplicateRow (rows : ℕ) (A : Mat F) : Mat F := ⟨rows, A.cols, fun _ j => A.entry 0 j⟩

def duplicateCol (cols : ℕ) (A : Mat F) : Mat F := ⟨A.rows, cols, fun i _ => A.entry i 0⟩

variable [Field F] [LinearOrder F]

def mul (A B : Mat F) : Mat F :=
  ⟨A.rows, B.cols, fun i j => ∑ k ∈ range A.cols, A.entry i k * B.entry k j⟩

def toMatrix (A : Mat F) : Matrix (Fin A.rows) (Fin A.rows) F := Matrix.of fun i j => A.entry i j

noncomputable def inverse (A : Mat F) : Mat F :=
  ⟨A.rows, A.rows, fun i j => if h : i < A.rows ∧ j < A.rows then A.toMatrix⁻¹ ⟨i, h.1⟩ ⟨j, h.2⟩ else 0⟩

end Mat

def MatrixData.Sized (dim : LADimension) (d : MatrixData F) : Prop :=
  d.rowNums = dim.blockRowSize ∧ d.colNums = dim.blockColSize ∧ d.size = dim.blockRowSize * dim.blockColSize

def LADimension.Has (dim : LADimension) (p : ℕ × ℕ) : Prop := p.1 < dim.blockRowNum ∧ p.2 < dim.blockColNum

/-- there are blocks, and elements in them -/
structure LADimension.Positive (dim : LADimension) : Prop where
  rowSize : 0 < dim.blockRowSize
  colSize : 0 < dim.blockColSize
  rowNum : 0 < dim.blockRowNum
  colNum : 0 < dim.blockColNum

/-- the blocks are those of the matrix, each one once -/
structure Represents (dim : LADimension) (blocks : List (MatrixBlock F)) (A : Mat F) : Prop where
  rows : A.rows = dim.blockRowNum * dim.blockRowSize
  cols : A.cols = dim.blockColNum * dim.blockColSize
  nodup : (blocks.map MatrixBlock.index).Nodup
  mem_index : ∀ p, p ∈ blocks.map MatrixBlock.index ↔ dim.Has p
  sized : ∀ b ∈ blocks, b.data.Sized dim
  coeff : ∀ b ∈ blocks, ∀ i < dim.blockRowSize, ∀ j < dim.blockColSize, b.coeff i j =
    A.entry (b.index.1 * dim.blockRowSize + i) (b.index.2 * dim.blockColSize + j)

section
variable [Field F] [LinearOrder F] {dim dim' : LADimension} {blocks blocks' out : List (MatrixBlock F)}
  {A B : Mat F} {b : MatrixBlock F} {op : F → F → F} {flag : Flag} {n : ℕ} {value : MatrixBlock F → MatrixData F}

namespace Represents

theorem perm (h : Represents dim blocks A) (hperm : blocks'.Perm blocks) : Represents dim blocks' A where
  rows := h.rows
  cols := h.cols
  nodup := (hperm.map _).nodup_iff.mpr h.nodup
  mem_index p := ((hperm.map _).mem_iff).trans (h.mem_index p)
  sized b hb := h.sized b (hperm.mem_iff.mp hb)
  coeff b hb := h.coeff b (hperm.mem_iff.mp hb)

theorem has (h : Represents dim blocks A) (hb : b ∈ blocks) : dim.Has b.index :=
  (h.mem_index _).mp (List.mem_map_of_mem hb)

theorem index_inj (h : Represents dim blocks A) (hb : b ∈ blocks) {b' : MatrixBlock F} (hb' : b' ∈ blocks)
    (he : b.index = b'.index) : b = b' :=
  List.inj_on_of_nodup_map h.nodup hb hb' he

theorem exists_at (h : Represents dim blocks A) : ∃ at' : ℕ × ℕ → MatrixBlock F,
    ∀ p, dim.Has p → at' p ∈ blocks ∧ (at' p).index = p := by
  have hone : ∀ p, dim.Has p → ∃ b, b ∈ blocks ∧ b.index = p := fun p hp =>
    List.mem_map.mp ((h.mem_index p).mpr hp)
  have : Nonempty (MatrixBlock F) := ⟨.create 0 0 0 0 0 0 fun _ _ => 0⟩
  choose! at' hat using hone
  exact ⟨at', hat⟩

/-- the blocks at some places -/
theorem filter_perm (h : Represents dim blocks A) {at' : ℕ × ℕ → MatrixBlock F}
    (hat : ∀ p, dim.Has p → at' p ∈ blocks ∧ (at' p).index = p) {sel : MatrixBlock F → Bool}
    {place : ℕ → ℕ × ℕ} (hplace : ∀ k < n, dim.Has (place k))
    (hinj : ∀ i < n, ∀ j < n, place i = place j → i = j)
    (hsel : ∀ b ∈ blocks, sel b = true ↔ ∃ k < n, place k = b.index) :
    (blocks.filter sel).Perm ((List.range n).map fun k => at' (place k)) := by
  refine perm_range_map ((List.Nodup.of_map _ h.nodup).filter _) (fun i hi j hj he => ?_) fun b => ?_
  · refine hinj i hi j hj ?_
    rw [← (hat _ (hplace i hi)).2, ← (hat _ (hplace j hj)).2, he]
  · rw [List.mem_filter]
    constructor
    · rintro ⟨hb, hs⟩
      obtain ⟨k, hk, hindex⟩ := (hsel b hb).mp hs
      have hblock := hat _ (hplace k hk)
      exact ⟨k, hk, h.index_inj hblock.1 hb (hblock.2.trans hindex)⟩
    · rintro ⟨k, hk, rfl⟩
      have hblock := hat _ (hplace k hk)
      exact ⟨hblock.1, (hsel _ hblock.1).mpr ⟨k, hk, hblock.2.symm⟩⟩

end Represents

/-! ## aggregations -/

/-- what blocks of one size add up to, in any order -/
theorem merged_coeff {l : List (MatrixBlock F)} {d : MatrixData F} {at' : ℕ → MatrixBlock F}
    (h : Merged value MatrixData.plus l d) (hop : flag.Chooses op) (hassoc : Std.Associative op)
    (hcomm : Std.Commutative op) (hn : 0 < n) (hl : l.Perm ((List.range n).map at'))
    (hvalue : ∀ b ∈ l, (value b).Sized dim ∧ (value b).flag = flag) :
    d.Sized dim ∧ ∀ i < dim.blockRowSize, ∀ j < dim.blockColSize,
      d.coeff i j = total op n fun k => (value (at' k)).coeff i j := by
  let P (d : MatrixData F) : Prop := d.Sized dim ∧ d.flag = flag
  have haggregate : ∀ d d' : MatrixData F, P d → P d' → d.plus d' = d.aggregate op d' :=
    fun d d' hd hd' => plus_eq (by rw [hd.2]; exact hop) (hd'.1.1.trans hd.1.1.symm)
      (hd'.1.2.1.trans hd.1.2.1.symm)
  have hplus : ∀ d d' : MatrixData F, P d → P d' → P (d.plus d') := by
    intro d d' hd hd'
    rw [haggregate d d' hd hd']
    exact hd
  refine ⟨(h.keeps hvalue hplus).1, fun i hi j hj => Total.of_injective op ?_⟩
  have hcoeff : ∀ d d' : MatrixData F, P d → P d' →
      Total.of op ((d.plus d').coeff i j) = Total.of op (d.coeff i j) + Total.of op (d'.coeff i j) := by
    intro d d' hd hd'
    rw [haggregate d d' hd hd', Total.of_add, coeff_aggregate (by rw [hd.1.1]; exact hi)
      (by rw [hd.1.2.1]; exact hj) (hd'.1.2.1.trans hd.1.2.1.symm)]
  obtain ⟨n, rfl⟩ : ∃ m, n = m + 1 := ⟨n - 1, by omega⟩
  rw [h.sum_eq hvalue hplus (fun d => Total.of op (d.coeff i j)) hcoeff, (hl.map _).sum_eq, List.map_map,
    list_sum_range, ← sum_of]
  rfl

theorem exists_gives (comp : AggregateComp F) (blocks : List (MatrixBlock F)) :
    ∃ out, comp.Gives blocks out := by
  obtain ⟨groups, hgroups⟩ :=
    exists_aggregates (fun b => (comp.key b).index) comp.value MatrixData.plus blocks
  have hinfo : ∀ e ∈ groups, ∃ info : MatrixMeta, info.index = e.1 ∧ ∃ b ∈ blocks, comp.key b = info := by
    intro e he
    obtain ⟨b, hb, hkey⟩ := (hgroups.keys e.1).mp (List.mem_map_of_mem he)
    exact ⟨comp.key b, hkey, b, hb, rfl⟩
  have : Nonempty MatrixMeta := ⟨⟨0, 0, 0, 0⟩⟩
  choose! info hindex hkey using hinfo
  refine ⟨groups.map fun e => ⟨info e, e.2⟩, groups, hgroups, ?_⟩
  rw [List.forall₂_map_right_iff, List.forall₂_same]
  exact fun e he => ⟨rfl, hindex e he, hkey e he⟩

/-- every key is a block of the result, and its group is `at' p 0`, `at' p 1`, … -/
theorem aggregate_represents {comp : AggregateComp F} (hout : comp.Gives blocks out)
    (hop : flag.Chooses op) (hassoc : Std.Associative op) (hcomm : Std.Commutative op) (hn : 0 < n)
    (at' : ℕ × ℕ → ℕ → MatrixBlock F) (hrows : A.rows = dim.blockRowNum * dim.blockRowSize)
    (hcols : A.cols = dim.blockColNum * dim.blockColSize)
    (hkeys : ∀ b ∈ blocks, dim.Has (comp.key b).index)
    (hgroup : ∀ p, dim.Has p →
      (blocks.filter fun b => (comp.key b).index = p).Perm ((List.range n).map (at' p)))
    (hvalue : ∀ b ∈ blocks, (comp.value b).Sized dim ∧ (comp.value b).flag = flag)
    (hentry : ∀ p, dim.Has p → ∀ i < dim.blockRowSize, ∀ j < dim.blockColSize,
      total op n (fun k => (comp.value (at' p k)).coeff i j) =
        A.entry (p.1 * dim.blockRowSize + i) (p.2 * dim.blockColSize + j)) :
    Represents dim out A := by
  obtain ⟨groups, hgroups, hblocks⟩ := hout
  have hindex : groups.map Prod.fst = out.map MatrixBlock.index := by
    have h := List.forall₂_map_left_iff.mpr (List.forall₂_map_right_iff.mpr
      (hblocks.imp fun e b h => (h.2.1.symm : Prod.fst e = MatrixBlock.index b)))
    rwa [List.forall₂_eq_eq_eq] at h
  have hall : ∀ b ∈ out, dim.Has b.index ∧ b.data.Sized dim ∧ ∀ i < dim.blockRowSize,
      ∀ j < dim.blockColSize, b.coeff i j =
        total op n fun k => (comp.value (at' b.index k)).coeff i j := by
    intro b hb
    obtain ⟨e, he, hdata, hkey, -⟩ := Grid.forall₂_right hblocks b hb
    obtain ⟨a, ha, hka⟩ := (hgroups.keys e.1).mp (List.mem_map_of_mem he)
    have hp : dim.Has e.1 := hka ▸ hkeys a ha
    have hmerged := hgroups.merged e he
    obtain ⟨hsized, hcoeff⟩ := merged_coeff hmerged hop hassoc hcomm hn (hgroup e.1 hp)
      fun b hb => hvalue b (List.mem_filter.mp hb).1
    rw [hkey]
    exact ⟨hp, hdata ▸ hsized, fun i hi j hj => (congrArg (fun d => d.coeff i j) hdata).trans (hcoeff i hi j hj)⟩
  refine ⟨hrows, hcols, hindex ▸ hgroups.keyed, fun p => ⟨?_, fun hp => ?_⟩, fun b hb => (hall b hb).2.1,
    fun b hb i hi j hj => ?_⟩
  · intro hp
    obtain ⟨b, hb, rfl⟩ := List.mem_map.mp hp
    exact (hall b hb).1
  · rw [← hindex, hgroups.keys]
    have hmem : at' p 0 ∈ blocks.filter fun b => (comp.key b).index = p :=
      (hgroup p hp).mem_iff.mpr (List.mem_map_of_mem (List.mem_range.mpr hn))
    obtain ⟨hb, hkey⟩ := List.mem_filter.mp hmem
    exact ⟨_, hb, of_decide_eq_true hkey⟩
  · rw [(hall b hb).2.2 i hi j hj, hentry b.index (hall b hb).1 i hi j hj]

/-- one value for each row, the blocks of a block row put together -/
theorem totalRows_represents (h : Represents dim blocks A) (hpos : dim.Positive) (hop : flag.Chooses op)
    (hassoc : Std.Associative op) (hcomm : Std.Commutative op) {key : MatrixBlock F → MatrixMeta}
    (hkey : ∀ b, (key b).index = (b.index.1, 0))
    (hout : AggregateComp.Gives ⟨key, MatrixBlock.rowValue flag op⟩ blocks out) :
    Represents ⟨dim.blockRowSize, 1, dim.blockRowNum, 1⟩ out (A.totalRows op) := by
  obtain ⟨at', hat⟩ := h.exists_at
  refine aggregate_represents hout hop hassoc hcomm hpos.colNum (fun p k => at' (p.1, k)) h.rows rfl
    (fun b hb => ?_) (fun p hp => ?_) (fun b hb => ?_) fun p hp i hi j hj => ?_
  · rw [hkey]
    exact ⟨(h.has hb).1, Nat.one_pos⟩
  · refine h.filter_perm hat (fun k hk => ⟨hp.1, hk⟩) (fun k _ k' _ he => congrArg Prod.snd he)
      fun b hb => ?_
    have hp2 : p.2 < 1 := hp.2
    rw [decide_eq_true_iff, hkey]
    constructor
    · rintro rfl
      exact ⟨b.index.2, (h.has hb).2, rfl⟩
    · rintro ⟨k, -, hindex⟩
      exact Prod.ext (congrArg Prod.fst hindex).symm (by dsimp only; omega)
  · obtain ⟨hr, -, -⟩ := h.sized b hb
    exact ⟨⟨hr, rfl, by rw [← hr]; rfl⟩, rfl⟩
  · obtain rfl : j = 0 := Nat.lt_one_iff.mp hj
    show _ = total op A.cols _
    rw [h.cols, total_blocks hpos.colNum hpos.colSize]
    refine total_congr hpos.colNum fun k hk => ?_
    obtain ⟨hmem, hindex⟩ := hat (p.1, k) ⟨hp.1, hk⟩
    obtain ⟨hr, hc, -⟩ := h.sized _ hmem
    show (MatrixData.create flag _ 1 _).coeff i 0 = _
    rw [coeff_create (hr.symm ▸ hi) Nat.one_pos, hc]
    refine total_congr hpos.colSize fun t ht => ?_
    rw [h.coeff _ hmem i hi t ht, hindex]

/-- one value for each column -/
theorem totalCols_represents (h : Represents dim blocks A) (hpos : dim.Positive) (hop : flag.Chooses op)
    (hassoc : Std.Associative op) (hcomm : Std.Commutative op)
    (hout : AggregateComp.Gives ⟨MatrixBlock.getColKey, MatrixBlock.colValue flag op⟩ blocks out) :
    Represents ⟨1, dim.blockColSize, 1, dim.blockColNum⟩ out (A.totalCols op) := by
  obtain ⟨at', hat⟩ := h.exists_at
  refine aggregate_represents hout hop hassoc hcomm hpos.rowNum (fun p k => at' (k, p.2)) rfl h.cols
    (fun b hb => ⟨Nat.one_pos, (h.has hb).2⟩) (fun p hp => ?_) (fun b hb => ?_) fun p hp i hi j hj => ?_
  · refine h.filter_perm hat (fun k hk => ⟨hk, hp.2⟩) (fun k _ k' _ he => congrArg Prod.fst he)
      fun b hb => ?_
    have hp1 : p.1 < 1 := hp.1
    show decide ((0, b.index.2) = p) = true ↔ _
    rw [decide_eq_true_iff]
    constructor
    · rintro rfl
      exact ⟨b.index.1, (h.has hb).1, rfl⟩
    · rintro ⟨k, -, hindex⟩
      exact Prod.ext (by dsimp only; omega) (congrArg Prod.snd hindex).symm
  · obtain ⟨-, hc, -⟩ := h.sized b hb
    exact ⟨⟨rfl, hc, by rw [← hc]; rfl⟩, rfl⟩
  · obtain rfl : i = 0 := Nat.lt_one_iff.mp hi
    show _ = total op A.rows _
    rw [h.rows, total_blocks hpos.rowNum hpos.rowSize]
    refine total_congr hpos.rowNum fun k hk => ?_
    obtain ⟨hmem, hindex⟩ := hat (k, p.2) ⟨hk, hp.2⟩
    obtain ⟨hr, hc, -⟩ := h.sized _ hmem
    show (MatrixData.create flag 1 _ _).coeff 0 j = _
    rw [coeff_create Nat.one_pos (hc.symm ▸ hj), hr]
    refine total_congr hpos.rowSize fun t ht => ?_
    rw [h.coeff _ hmem t ht j hj, hindex]

/-! ## selections -/

theorem transpose_represents (h : Represents dim blocks A) :
    Represents dim.transpose (blocks.map transposeSelection) A.transpose where
  rows := h.cols
  cols := h.rows
  nodup := by
    rw [List.map_map]
    show (blocks.map (Prod.swap ∘ MatrixBlock.index)).Nodup
    rw [← List.map_map]
    exact h.nodup.map Prod.swap_injective
  mem_index p := by
    rw [List.map_map]
    show p ∈ blocks.map (Prod.swap ∘ MatrixBlock.index) ↔ _
    rw [← List.map_map, List.mem_map_swap, h.mem_index]
    exact and_comm
  sized b hb := by
    obtain ⟨a, ha, rfl⟩ := List.mem_map.mp hb
    obtain ⟨hr, hc, -⟩ := h.sized a ha
    exact ⟨hc, hr, by rw [LADimension.transpose, ← hr, ← hc]; rfl⟩
  coeff b hb i hi j hj := by
    obtain ⟨a, ha, rfl⟩ := List.mem_map.mp hb
    obtain ⟨hr, hc, -⟩ := h.sized a ha
    exact (coeff_create (hc.symm ▸ hi) (hr.symm ▸ hj)).trans (h.coeff a ha j hj i hi)

theorem duplicateRow_represents (h : Represents dim blocks A) (hsize : dim.blockRowSize = 1)
    (hnum : dim.blockRowNum = 1) (size num : ℕ) :
    Represents ⟨size, dim.blockColSize, num, dim.blockColNum⟩
      (blocks.flatMap (duplicateRow ⟨size, dim.blockColSize, num, dim.blockColNum⟩))
      (A.duplicateRow (num * size)) := by
  have hindex : (blocks.flatMap (duplicateRow ⟨size, dim.blockColSize, num, dim.blockColNum⟩)).map
      MatrixBlock.index = ((blocks.map fun b => b.index.2) ×ˢ List.range num).map Prod.swap := by
    show _ = ((blocks.map fun b => b.index.2).flatMap fun k =>
      (List.range num).map (Prod.mk k)).map Prod.swap
    rw [List.map_flatMap, List.map_flatMap, List.flatMap_map]
    refine List.flatMap_congr fun b _ => ?_
    rw [duplicateRow, List.map_map, List.map_map]
    rfl
  have hrow : ∀ b ∈ blocks, b.index.1 = 0 := by
    intro b hb
    have hlt : b.index.1 < dim.blockRowNum := (h.has hb).1
    omega
  have hcols : (blocks.map fun b => b.index.2).Nodup := by
    refine List.Nodup.map_on (fun a ha b hb he => h.index_inj ha hb (Prod.ext ?_ he))
      (List.Nodup.of_map _ h.nodup)
    rw [hrow a ha, hrow b hb]
  refine ⟨rfl, h.cols, ?_, fun p => ?_, fun b hb => ?_, fun b hb i hi j hj => ?_⟩
  · rw [hindex]
    exact (hcols.product List.nodup_range).map Prod.swap_injective
  · rw [hindex, List.mem_map_swap, List.mem_product, List.mem_range, List.mem_map]
    constructor
    · rintro ⟨⟨b, hb, hcol⟩, hp⟩
      exact ⟨hp, hcol ▸ (h.has hb).2⟩
    · rintro ⟨hp1, hp2⟩
      obtain ⟨b, hb, hindex⟩ := List.mem_map.mp
        ((h.mem_index (0, p.2)).mpr ⟨by dsimp only; omega, hp2⟩)
      have hcol : b.index.2 = p.2 := by rw [hindex]
      exact ⟨⟨b, hb, hcol⟩, hp1⟩
  · obtain ⟨a, ha, hb⟩ := List.mem_flatMap.mp hb
    obtain ⟨k, -, rfl⟩ := List.mem_map.mp hb
    exact ⟨rfl, (h.sized a ha).2.1, by rw [← (h.sized a ha).2.1]; rfl⟩
  · obtain ⟨a, ha, hb⟩ := List.mem_flatMap.mp hb
    obtain ⟨k, -, rfl⟩ := List.mem_map.mp hb
    have hc := (h.sized a ha).2.1
    have hfirst : a.data.rawData j = a.coeff 0 j := by
      show _ = a.data.rawData (0 * a.data.colNums + j)
      rw [Nat.zero_mul, Nat.zero_add]
    refine (coeff_create hi (hc.symm ▸ hj)).trans ?_
    rw [hfirst, h.coeff a ha 0 (by omega) j hj, hrow a ha, Nat.zero_mul, Nat.zero_add]
    rfl

theorem duplicateCol_represents (h : Represents dim blocks A) (hsize : dim.blockColSize = 1)
    (hnum : dim.blockColNum = 1) (size num : ℕ) :
    Represents ⟨dim.blockRowSize, size, dim.blockRowNum, num⟩
      (blocks.flatMap (duplicateCol ⟨dim.blockRowSize, size, dim.blockRowNum, num⟩))
      (A.duplicateCol (num * size)) := by
  have hindex : (blocks.flatMap (duplicateCol ⟨dim.blockRowSize, size, dim.blockRowNum, num⟩)).map
      MatrixBlock.index = (blocks.map fun b => b.index.1) ×ˢ List.range num := by
    show _ = (blocks.map fun b => b.index.1).flatMap fun k => (List.range num).map (Prod.mk k)
    rw [List.map_flatMap, List.flatMap_map]
    refine List.flatMap_congr fun b _ => ?_
    rw [duplicateCol, List.map_map]
    rfl
  have hcol : ∀ b ∈ blocks, b.index.2 = 0 := by
    intro b hb
    have hlt : b.index.2 < dim.blockColNum := (h.has hb).2
    omega
  have hrows : (blocks.map fun b => b.index.1).Nodup := by
    refine List.Nodup.map_on (fun a ha b hb he => h.index_inj ha hb (Prod.ext he ?_))
      (List.Nodup.of_map _ h.nodup)
    rw [hcol a ha, hcol b hb]
  refine ⟨h.rows, rfl, ?_, fun p => ?_, fun b hb => ?_, fun b hb i hi j hj => ?_⟩
  · rw [hindex]
    exact hrows.product List.nodup_range
  · rw [hindex, List.mem_product, List.mem_range, List.mem_map]
    constructor
    · rintro ⟨⟨b, hb, hrow⟩, hp⟩
      exact ⟨hrow ▸ (h.has hb).1, hp⟩
    · rintro ⟨hp1, hp2⟩
      obtain ⟨b, hb, hindex⟩ := List.mem_map.mp
        ((h.mem_index (p.1, 0)).mpr ⟨hp1, by dsimp only; omega⟩)
      have hrow : b.index.1 = p.1 := by rw [hindex]
      exact ⟨⟨b, hb, hrow⟩, hp2⟩
  · obtain ⟨a, ha, hb⟩ := List.mem_flatMap.mp hb
    obtain ⟨k, -, rfl⟩ := List.mem_map.mp hb
    exact ⟨(h.sized a ha).1, rfl, by rw [← (h.sized a ha).1]; rfl⟩
  · obtain ⟨a, ha, hb⟩ := List.mem_flatMap.mp hb
    obtain ⟨k, -, rfl⟩ := List.mem_map.mp hb
    obtain ⟨hr, hc, -⟩ := h.sized a ha
    have hfirst : a.data.rawData i = a.coeff i 0 := by
      show _ = a.data.rawData (i * a.data.colNums + 0)
      rw [hc, hsize, Nat.mul_one, Nat.add_zero]
    refine (coeff_create (hr.symm ▸ hi) hj).trans ?_
    rw [hfirst, h.coeff a ha i hi 0 (by omega), hcol a ha, Nat.zero_mul, Nat.zero_add]
    rfl

/-! ## joins -/

theorem pairs_eq {comp : JoinComp F} {left right : List (MatrixBlock F)}
    {f : MatrixBlock F → MatrixBlock F → MatrixBlock F}
    (hproj : ∀ a ∈ left, ∀ b ∈ right, comp.selection a b = true → comp.projection a b = some (f a b)) :
    comp.pairs left right =
      some (((left ×ˢ right).filter fun e => comp.selection e.1 e.2).map fun e => f e.1 e.2) := by
  refine mapM_eq_map fun e he => ?_
  obtain ⟨he, hsel⟩ := List.mem_filter.mp he
  obtain ⟨ha, hb⟩ := List.mem_product.mp he
  exact hproj e.1 ha e.2 hb hsel

theorem element_represents {total : MatrixBlock F → MatrixBlock F → ℕ} (hA : Represents dim blocks A)
    (hB : Represents dim blocks' B) : ∃ out, (elementJoin op total).pairs blocks blocks' = some out ∧
      Represents dim out (A.zipWith op B) := by
  let block (in1 in2 : MatrixBlock F) : MatrixBlock F :=
    .create in1.info.blockRowIndex in1.info.blockColIndex in1.data.rowNums in1.data.colNums
      in1.info.totalRows (total in1 in2) fun i j => op (in1.coeff i j) (in2.coeff i j)
  have hproj : ∀ a ∈ blocks, ∀ b ∈ blocks', (elementJoin op total).selection a b = true →
      (elementJoin op total).projection a b = some (block a b) := by
    intro a ha b hb _
    obtain ⟨har, hac, -⟩ := hA.sized a ha
    obtain ⟨hbr, hbc, -⟩ := hB.sized b hb
    exact if_neg (not_or.mpr ⟨not_not.mpr (har.trans hbr.symm), not_not.mpr (hac.trans hbc.symm)⟩)
  refine ⟨_, pairs_eq hproj, ?_⟩
  generalize hpairs : (blocks ×ˢ blocks').filter (fun e => (elementJoin op total).selection e.1 e.2) = pairs
  have hmem : ∀ e, e ∈ pairs ↔ e.1 ∈ blocks ∧ e.2 ∈ blocks' ∧ e.1.index = e.2.index := by
    intro e
    rw [← hpairs, List.mem_filter, List.mem_product, and_assoc]
    exact and_congr_right fun _ => and_congr_right fun _ => decide_eq_true_iff
  have hnodup : pairs.Nodup :=
    hpairs ▸ ((List.Nodup.of_map _ hA.nodup).product (List.Nodup.of_map _ hB.nodup)).filter _
  refine ⟨hA.rows, hA.cols, ?_, fun p => ?_, fun c hc => ?_, fun c hc i hi j hj => ?_⟩
  · rw [List.map_map]
    refine List.Nodup.map_on (fun e he e' he' heq => ?_) hnodup
    obtain ⟨ha, hb, hindex⟩ := (hmem e).mp he
    obtain ⟨ha', hb', hindex'⟩ := (hmem e').mp he'
    have heq : e.1.index = e'.1.index := heq
    exact Prod.ext (hA.index_inj ha ha' heq)
      (hB.index_inj hb hb' (hindex.symm.trans (heq.trans hindex')))
  · rw [List.map_map, ← hA.mem_index, List.mem_map]
    constructor
    · rintro ⟨e, he, rfl⟩
      exact List.mem_map.mpr ⟨e.1, ((hmem e).mp he).1, rfl⟩
    · intro hp
      obtain ⟨a, ha, rfl⟩ := List.mem_map.mp hp
      obtain ⟨b, hb, hindex⟩ := List.mem_map.mp ((hB.mem_index _).mpr ((hA.mem_index _).mp hp))
      exact ⟨(a, b), (hmem _).mpr ⟨ha, hb, hindex.symm⟩, rfl⟩
  · obtain ⟨e, he, rfl⟩ := List.mem_map.mp hc
    obtain ⟨hr, hc, -⟩ := hA.sized e.1 ((hmem e).mp he).1
    exact ⟨hr, hc, by rw [← hr, ← hc]; rfl⟩
  · obtain ⟨e, he, rfl⟩ := List.mem_map.mp hc
    obtain ⟨ha, hb, hindex⟩ := (hmem e).mp he
    obtain ⟨hr, hc, -⟩ := hA.sized e.1 ha
    refine (coeff_create (hr.symm ▸ hi) (hc.symm ▸ hj)).trans ?_
    rw [hA.coeff e.1 ha i hi j hj, hB.coeff e.2 hb i hi j hj, ← hindex]
    rfl

/-- the join and the aggregation of a product -/
theorem multiply_represents (hA : Represents dim blocks A) (hB : Represents dim' blocks' B)
    (hsize : dim.blockColSize = dim'.blockRowSize) (hnum : dim.blockColNum = dim'.blockRowNum)
    (hpos : 0 < dim.blockColNum) : ∃ joined, multiply1Join.pairs blocks blocks' = some joined ∧
      ∀ out, multiply2Aggregate.Gives joined out → Represents
        ⟨dim.blockRowSize, dim'.blockColSize, dim.blockRowNum, dim'.blockColNum⟩ out (A.mul B) := by
  let block (in1 in2 : MatrixBlock F) : MatrixBlock F :=
    .create in1.info.blockRowIndex in2.info.blockColIndex in1.data.rowNums in2.data.colNums
      in1.info.totalRows in2.info.totalCols
      fun i j => ∑ k ∈ range in1.data.colNums, in1.coeff i k * in2.coeff k j
  have hproj : ∀ a ∈ blocks, ∀ b ∈ blocks', multiply1Join.selection a b = true →
      multiply1Join.projection a b = some (block a b) := by
    intro a ha b hb _
    exact if_neg (not_not.mpr ((hA.sized a ha).2.1.trans (hsize.trans (hB.sized b hb).1.symm)))
  refine ⟨_, pairs_eq hproj, fun out hout => ?_⟩
  generalize hpairs : (blocks ×ˢ blocks').filter (fun e => multiply1Join.selection e.1 e.2) = pairs at hout
  have hmem : ∀ e, e ∈ pairs ↔ e.1 ∈ blocks ∧ e.2 ∈ blocks' ∧ e.1.index.2 = e.2.index.1 := by
    intro e
    rw [← hpairs, List.mem_filter, List.mem_product, and_assoc]
    exact and_congr_right fun _ => and_congr_right fun _ => decide_eq_true_iff
  have hnodup : pairs.Nodup :=
    hpairs ▸ ((List.Nodup.of_map _ hA.nodup).product (List.Nodup.of_map _ hB.nodup)).filter _
  obtain ⟨atA, hatA⟩ := hA.exists_at
  obtain ⟨atB, hatB⟩ := hB.exists_at
  refine aggregate_represents hout (show Flag.Chooses _ .maxtrixSum from rfl) ⟨add_assoc⟩ ⟨add_comm⟩ hpos
    (fun p k => block (atA (p.1, k)) (atB (k, p.2))) hA.rows hB.cols (fun c hc => ?_) (fun p hp => ?_)
    (fun c hc => ?_) fun p hp i hi j hj => ?_
  · obtain ⟨e, he, rfl⟩ := List.mem_map.mp hc
    obtain ⟨ha, hb, -⟩ := (hmem e).mp he
    exact ⟨(hA.has ha).1, (hB.has hb).2⟩
  · -- the pairs of a key are those of the blocks of a row and of a column
    have hatA := fun k (hk : k < dim.blockColNum) => hatA (p.1, k) ⟨hp.1, hk⟩
    have hatB := fun k (hk : k < dim.blockColNum) => hatB (k, p.2) ⟨hnum ▸ hk, hp.2⟩
    have hperm : (pairs.filter fun e => (e.1.index.1, e.2.index.2) = p).Perm
        ((List.range dim.blockColNum).map fun k => (atA (p.1, k), atB (k, p.2))) := by
      refine perm_range_map (hnodup.filter _) (fun k hk k' hk' he => ?_) fun e => ?_
      · have hindex := (hatA k hk).2.symm.trans
          ((congrArg (fun e => e.1.index) he).trans (hatA k' hk').2)
        exact congrArg Prod.snd hindex
      · rw [List.mem_filter, hmem, decide_eq_true_iff]
        constructor
        · rintro ⟨⟨ha, hb, hindex⟩, rfl⟩
          have hk := (hA.has ha).2
          refine ⟨e.1.index.2, hk, Prod.ext ?_ ?_⟩
          · exact hA.index_inj (hatA _ hk).1 ha (hatA _ hk).2
          · exact hB.index_inj (hatB _ hk).1 hb ((hatB _ hk).2.trans (Prod.ext hindex rfl))
        · rintro ⟨k, hk, rfl⟩
          obtain ⟨ha, hia⟩ := hatA k hk
          obtain ⟨hb, hib⟩ := hatB k hk
          refine ⟨⟨ha, hb, ?_⟩, ?_⟩
          · rw [hia, hib]
          · rw [hia, hib]
    have hmap := hperm.map fun e => block e.1 e.2
    rw [List.map_map] at hmap
    refine List.Perm.trans (List.Perm.of_eq ?_) hmap
    rw [List.filter_map]
    rfl
  · obtain ⟨e, he, rfl⟩ := List.mem_map.mp hc
    obtain ⟨ha, hb, -⟩ := (hmem e).mp he
    obtain ⟨hr, -, -⟩ := hA.sized e.1 ha
    obtain ⟨-, hc, -⟩ := hB.sized e.2 hb
    exact ⟨⟨hr, hc, by rw [← hr, ← hc]; rfl⟩, rfl⟩
  · rw [total_add _ hpos]
    show _ = ∑ k ∈ range A.cols, _
    rw [hA.cols, sum_blocks]
    refine sum_congr rfl fun k hk => ?_
    have hk := mem_range.mp hk
    obtain ⟨ha, hia⟩ := hatA (p.1, k) ⟨hp.1, hk⟩
    obtain ⟨hb, hib⟩ := hatB (k, p.2) ⟨hnum ▸ hk, hp.2⟩
    obtain ⟨hr, hc, -⟩ := hA.sized _ ha
    obtain ⟨-, hcB, -⟩ := hB.sized _ hb
    show (block (atA (p.1, k)) (atB (k, p.2))).coeff i j = _
    refine (coeff_create (hr.symm ▸ hi) (hcB.symm ▸ hj)).trans ?_
    rw [hc]
    refine sum_congr rfl fun t ht => ?_
    have ht := mem_range.mp ht
    rw [hA.coeff _ ha i hi t ht, hB.coeff _ hb t (hsize ▸ ht) j hj, hia, hib, hsize]

/-- `'*` is `^T`, then `%*%` -/
theorem transposeMultiply_pairs (left right : List (MatrixBlock F)) :
    transposeMultiply1Join.pairs left right = multiply1Join.pairs (left.map transposeSelection) right := by
  have hprod : left.map transposeSelection ×ˢ right =
      (left ×ˢ right).map fun e => (transposeSelection e.1, e.2) := by
    show (left.map transposeSelection).flatMap (fun a => right.map (Prod.mk a)) =
      (left.flatMap fun a => right.map (Prod.mk a)).map _
    rw [List.flatMap_map, List.map_flatMap]
    refine List.flatMap_congr fun a _ => ?_
    rw [List.map_map]
    rfl
  rw [JoinComp.pairs, JoinComp.pairs, hprod, List.filter_map, List.mapM_map]
  have hproj : (fun e : MatrixBlock F × MatrixBlock F => transposeMultiply1Join.projection e.1 e.2) =
      fun e => multiply1Join.projection (transposeSelection e.1) e.2 := by
    funext e
    refine if_congr Iff.rfl rfl (congrArg some ?_)
    refine congrArg (MatrixBlock.mk _) (create_congr fun i hi j _ => sum_congr rfl fun k hk => ?_)
    have hcoeff : (transposeSelection e.1).coeff i k = e.1.coeff k i :=
      coeff_create hi (mem_range.mp hk)
    rw [hcoeff]
  rw [hproj]
  rfl

theorem transposeMultiply_represents (hA : Represents dim blocks A) (hB : Represents dim' blocks' B)
    (hsize : dim.blockRowSize = dim'.blockRowSize) (hnum : dim.blockRowNum = dim'.blockRowNum)
    (hpos : 0 < dim.blockRowNum) : ∃ joined, transposeMultiply1Join.pairs blocks blocks' = some joined ∧
      ∀ out, multiply2Aggregate.Gives joined out → Represents
        ⟨dim.blockColSize, dim'.blockColSize, dim.blockColNum, dim'.blockColNum⟩ out
        (A.transpose.mul B) := by
  rw [transposeMultiply_pairs]
  exact multiply_represents (transpose_represents hA) hB hsize hnum hpos

/-! ## inverses -/

/-- what Eigen says of its inverse -/
def Inverse.Inverts (inverse : Inverse F) : Prop :=
  ∀ n M, IsUnit (Matrix.det M) → M * inverse n M = 1

theorem getInverse_coeff {inverse : Inverse F} (hinv : inverse.Inverts) {M : Matrix (Fin n) (Fin n) F}
    (hrows : b.data.rowNums = n) (hcols : b.data.colNums = n)
    (hM : ∀ i j : Fin n, b.coeff i j = M i j) (hunit : IsUnit M.det) :
    ∃ inv, getInverse inverse b = some inv ∧ inv.data.colNums = n ∧
      ∀ i j : Fin n, inv.coeff i j = M⁻¹ i j := by
  subst hrows
  refine ⟨_, if_neg (not_not.mpr hcols), rfl, fun i j => ?_⟩
  have hblock : (Matrix.of fun i j : Fin b.data.rowNums => b.coeff i j) = M := by
    ext i j
    exact hM i j
  refine (coeff_create i.2 j.2).trans ?_
  rw [dif_pos ⟨i.2, j.2⟩, hblock, Matrix.inv_eq_right_inv (hinv _ M hunit)]

/-- a matrix of one block is not merged, and its inverse is one block -/
theorem inverse_represents {inverse : Inverse F} (hinv : inverse.Inverts) (h : Represents dim blocks A)
    (hrow : dim.blockRowNum = 1) (hcol : dim.blockColNum = 1) (hsquare : dim.blockColSize = dim.blockRowSize)
    (hunit : IsUnit A.toMatrix.det) {large : Option (MatrixBlock F)}
    (hlarge : Merged some mergeBlocks blocks large) : ∃ inv,
      large.bind (getInverse inverse) = some inv ∧
        Represents dim.transpose (split dim.transpose inv) A.inverse := by
  obtain ⟨at', hat⟩ := h.exists_at
  obtain ⟨hmem, hindex⟩ := hat (0, 0) ⟨hrow ▸ Nat.one_pos, hcol ▸ Nat.one_pos⟩
  generalize at' (0, 0) = b at hmem hindex
  have hblocks : blocks = [b] := by
    refine List.perm_singleton.mp ((List.perm_ext_iff_of_nodup (List.Nodup.of_map _ h.nodup)
      (List.nodup_singleton b)).mpr fun c => ?_)
    rw [List.mem_singleton]
    refine ⟨fun hc => h.index_inj hc hmem ?_, fun hc => hc ▸ hmem⟩
    obtain ⟨h1, h2⟩ := h.has hc
    rw [hindex]
    exact Prod.ext (by dsimp only; omega) (by dsimp only; omega)
  rw [hlarge.eq_of_singleton hblocks]
  obtain ⟨hr, hc, -⟩ := h.sized b hmem
  have hrows : A.rows = dim.blockRowSize := by rw [h.rows, hrow, Nat.one_mul]
  obtain ⟨inv, hinverse, hinvcols, hcoeff⟩ := getInverse_coeff hinv (hr.trans hrows.symm)
    (hc.trans (hsquare.trans hrows.symm)) (M := A.toMatrix) (fun i j => by
      rw [h.coeff b hmem i (hrows ▸ i.2) j (by rw [hsquare, ← hrows]; exact j.2), hindex, Nat.zero_mul,
        Nat.zero_add, Nat.zero_mul, Nat.zero_add]
      rfl) hunit
  refine ⟨inv, hinverse, ?_⟩
  have hsplit : split dim.transpose inv = [.create 0 0 dim.blockColSize dim.blockRowSize
      (dim.blockColSize * dim.blockColNum) (dim.blockRowSize * dim.blockRowNum) fun ii jj =>
        inv.data.rawData ((0 * dim.blockColSize + ii) * (dim.blockRowSize * dim.blockRowNum) +
          (0 * dim.blockRowSize + jj))] := by
    rw [split, LADimension.transpose, hrow, hcol]
    rfl
  rw [hsplit]
  refine ⟨?_, ?_, List.nodup_singleton _, fun p => ?_, fun c hc => ?_, fun c hc i hi j hj => ?_⟩
  · show A.rows = dim.blockColNum * dim.blockColSize
    rw [hrows, hcol, hsquare, Nat.one_mul]
  · show A.rows = dim.blockRowNum * dim.blockRowSize
    exact h.rows
  · rw [List.map_singleton, List.mem_singleton]
    show p = (0, 0) ↔ p.1 < dim.blockColNum ∧ p.2 < dim.blockRowNum
    rw [hrow, hcol, Nat.lt_one_iff, Nat.lt_one_iff]
    exact Prod.ext_iff
  · rw [List.mem_singleton.mp hc]
    exact ⟨rfl, rfl, rfl⟩
  · rw [List.mem_singleton.mp hc]
    have hi : i < A.rows := by rw [hrows, ← hsquare]; exact hi
    have hj : j < A.rows := by rw [hrows]; exact hj
    refine (coeff_create (by rw [hsquare, ← hrows]; exact hi) (by rw [← hrows]; exact hj)).trans ?_
    have hread : inv.data.rawData ((0 * dim.blockColSize + i) * (dim.blockRowSize * dim.blockRowNum) +
        (0 * dim.blockRowSize + j)) = inv.coeff i j := by
      show _ = inv.data.rawData (i * inv.data.colNums + j)
      rw [hinvcols, hrow, ← hrows, Nat.zero_mul, Nat.zero_mul, Nat.zero_add, Nat.zero_add, Nat.mul_one]
    show _ = (if hij : 0 * dim.blockColSize + i < A.rows ∧ 0 * dim.blockRowSize + j < A.rows then
      A.toMatrix⁻¹ ⟨_, hij.1⟩ ⟨_, hij.2⟩ else 0)
    simp only [Nat.zero_mul, Nat.zero_add] at hread ⊢
    rw [hread, dif_pos ⟨hi, hj⟩, hcoeff ⟨i, hi⟩ ⟨j, hj⟩]

end

end LinearAlgebra
end Netsdb
