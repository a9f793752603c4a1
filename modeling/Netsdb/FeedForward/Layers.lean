import Netsdb.LinearAlgebra.Represents
import Netsdb.Lib.Scatter

/-!
# The computations of feed-forward networks (`FF/headers`)

A block has the fields of a `MatrixBlock`.  Its data has no flag, and is always added up; it is built
with the flag of sums here.

* `transposeMult`, `inputLayerJoin`, `reluBiasSum`, `transposeBiasSum`, `outputLayer`   the joins;
* `Sums`               `FFAggMatrix` and `FFRowAggregate`, which add up the data of a key;
* `Blocks`             the blocks of a matrix, all of one size, with what is padding told by the totals;
* `rowJoin_blocks`     the blocks of a matrix and those of a column, joined by their block rows.
-/

set_option linter.unusedSectionVars false

namespace Netsdb
namespace FeedForward
open Finset Blocked Aggregation Netsdb.LinearAlgebra

variable {F : Type}

section
variable [Field F] [LinearOrder F]

/-! ## joins -/

def transposeMult : JoinComp F where
  selection in1 in2 := in1.info.blockColIndex = in2.info.blockColIndex
  projection in1 in2 :=
    if in1.data.colNums ≠ in2.data.colNums then none
    else some (.create in1.info.blockRowIndex in2.info.blockRowIndex in1.data.rowNums in2.data.rowNums
      in1.info.totalRows in2.info.totalRows
      fun i j => ∑ k ∈ range in1.data.colNums, in1.coeff i k * in2.coeff j k)

/-- no computation makes blocks that have a `bias` of their own -/
def inputLayerJoin : JoinComp F where
  selection in1 in2 := in1.info.blockColIndex = in2.info.blockRowIndex
  projection in1 in2 :=
    if in1.data.colNums ≠ in2.data.rowNums then none
    else some (.create in1.info.blockRowIndex in2.info.blockColIndex in1.data.rowNums in2.data.colNums
      in1.info.totalRows in2.info.totalCols
      fun i j => ∑ k ∈ range in1.data.colNums, in1.coeff i k * in2.coeff k j)

/-- with a `dropout_rate` of 0 -/
def reluBiasSum : JoinComp F where
  selection in1 in2 := in1.info.blockRowIndex = in2.info.blockRowIndex
  projection in1 in2 :=
    if in1.data.rowNums ≠ in2.data.rowNums ∨ in2.data.colNums ≠ 1 then none
    else some (.create in1.info.blockRowIndex in1.info.blockColIndex in1.data.rowNums in1.data.colNums
      in1.info.totalRows in1.info.totalCols fun i j => max 0 (in1.coeff i j + in2.data.rawData i))

variable (exp : F → F) (untold : MatrixBlock F → MatrixBlock F → Option (MatrixBlock F))

/-- `untold`: what Eigen makes of `transposeInPlace` where the memory is that of a block that is not
square -/
def transposeBiasSum : JoinComp F where
  selection in1 in2 := in1.info.blockRowIndex = in2.info.blockRowIndex
  projection in1 in2 :=
    if in1.data.rowNums ≠ in2.data.rowNums ∨ in2.data.colNums ≠ 1 then none
    else if in1.data.rowNums ≠ in1.data.colNums then untold in1 in2
    else some (.create in1.info.blockColIndex in1.info.blockRowIndex in1.data.colNums in1.data.rowNums
      in1.info.totalCols in1.info.totalRows fun i j =>
        let sum := in1.coeff j i + in2.data.rawData j
        if in1.info.blockColIndex * in1.data.colNums + i < in1.info.totalCols ∧
          in1.info.blockRowIndex * in1.data.rowNums + j < in1.info.totalRows then exp sum else sum)

/-- the loops, whose place is `i * I + j` -/
def divided (in1 in2 : MatrixBlock F) : ℕ → F :=
  scatter (fun p => p.1 * in1.data.rowNums + p.2)
    (fun p => in1.data.rawData (p.1 * in1.data.rowNums + p.2) / in2.data.rawData p.1)
    (nested in1.data.rowNums in1.data.colNums) fun _ => 0

/-- `untold`: where there are more rows than columns, the loops write behind the vector -/
def outputLayer : JoinComp F where
  selection in1 in2 := in1.info.blockRowIndex = in2.info.blockRowIndex
  projection in1 in2 :=
    if in1.data.rowNums ≠ in2.data.rowNums ∨ in2.data.colNums ≠ 1 then none
    else if in1.data.colNums < in1.data.rowNums then untold in1 in2
    else some ⟨in1.info, ⟨in1.data.rowNums, in1.data.colNums, .maxtrixSum,
      in1.data.rowNums * in1.data.colNums, divided in1 in2⟩⟩

/-! ## aggregations -/

/-- `operator+` of `FFMatrixData` -/
def plus (d other : MatrixData F) : MatrixData F := d.aggregate (fun x y => x + y) other

/-- for each key a block; of equal keys any one is kept -/
def Sums (comp : AggregateComp F) (inputs outputs : List (MatrixBlock F)) : Prop :=
  ∃ groups, Aggregates (fun b => (comp.key b).index) comp.value plus inputs groups ∧
    List.Forall₂ (fun e out => out.data = e.2 ∧ out.index = e.1 ∧ ∃ b ∈ inputs, comp.key b = out.info)
      groups outputs

/-- `FFAggMatrix` -/
def aggMatrix : AggregateComp F := ⟨fun b => b.info, fun b => { b.data with flag := .maxtrixSum }⟩

def getRowKey (b : MatrixBlock F) : MatrixMeta := ⟨b.info.blockRowIndex, 0, b.info.totalRows, 1⟩

/-- `FFRowAggregate` -/
def rowAggregate : AggregateComp F := ⟨getRowKey, MatrixBlock.getRowSumValue⟩

/-! ## blocks of one size -/

/-- `R` and `C` are the rows and columns that are not padding -/
structure Blocks (dim : LADimension) (R C : ℕ) (blocks : List (MatrixBlock F)) (A : Mat F) : Prop where
  represents : Represents dim blocks A
  totals : ∀ b ∈ blocks, b.info.totalRows = R ∧ b.info.totalCols = C

variable {exp untold} {dim dim' dim'' : LADimension} {blocks blocks' out joined : List (MatrixBlock F)}
  {A B C : Mat F} {R K N R' C' : ℕ} {comp : JoinComp F} {agg : AggregateComp F}

theorem Blocks.perm (h : Blocks dim R K blocks A) (hperm : out.Perm blocks) : Blocks dim R K out A :=
  ⟨h.represents.perm hperm, fun b hb => h.totals b (hperm.mem_iff.mp hb)⟩

/-- a block of a join is the projection of a pair -/
theorem mem_pairs (h : comp.pairs blocks blocks' = some out) {c : MatrixBlock F} (hc : c ∈ out) :
    ∃ a ∈ blocks, ∃ b ∈ blocks', comp.projection a b = some c := by
  have hmem : ∀ (l : List (MatrixBlock F × MatrixBlock F)) out,
      l.mapM (fun e => comp.projection e.1 e.2) = some out → c ∈ out →
        ∃ e ∈ l, comp.projection e.1 e.2 = some c := by
    intro l
    induction l with
    | nil =>
      intro out h hc
      obtain rfl := Option.some.inj h
      exact (List.not_mem_nil hc).elim
    | cons e l ih =>
      intro out h hc
      rw [List.mapM_cons] at h
      obtain ⟨d, hd, h⟩ := Option.bind_eq_some_iff.mp h
      obtain ⟨rest, hrest, h⟩ := Option.bind_eq_some_iff.mp h
      obtain rfl := Option.some.inj h
      rcases List.mem_cons.mp hc with rfl | hc
      · exact ⟨e, List.mem_cons_self, hd⟩
      · obtain ⟨e', he', hproj⟩ := ih rest hrest hc
        exact ⟨e', List.mem_cons_of_mem e he', hproj⟩
  obtain ⟨e, he, hproj⟩ := hmem _ out h hc
  obtain ⟨ha, hb⟩ := List.mem_product.mp (List.mem_filter.mp he).1
  exact ⟨e.1, ha, e.2, hb, hproj⟩

/-- the data of one size is added up as that of `MatrixBlock` is -/
theorem gives_of_sums (dim : LADimension) (h : Sums agg blocks out)
    (hvalue : ∀ b ∈ blocks, (agg.value b).Sized dim ∧ (agg.value b).flag = .maxtrixSum) :
    agg.Gives blocks out := by
  obtain ⟨groups, hgroups, hout⟩ := h
  let P (d : MatrixData F) : Prop := d.Sized dim ∧ d.flag = .maxtrixSum
  refine ⟨groups, hgroups.congr (P := P) hvalue (fun d d' hd _ => hd) fun d d' hd hd' => ?_, hout⟩
  exact (plus_eq (show Flag.Chooses _ d.flag by rw [hd.2]; rfl) (hd'.1.1.trans hd.1.1.symm)
    (hd'.1.2.1.trans hd.1.2.1.symm)).symm

theorem exists_sums (agg : AggregateComp F) (blocks : List (MatrixBlock F)) : ∃ out, Sums agg blocks out := by
  obtain ⟨groups, hgroups⟩ := exists_aggregates (fun b => (agg.key b).index) agg.value plus blocks
  have hinfo : ∀ e ∈ groups, ∃ info : MatrixMeta, info.index = e.1 ∧ ∃ b ∈ blocks, agg.key b = info := by
    intro e he
    obtain ⟨b, hb, hkey⟩ := (hgroups.keys e.1).mp (List.mem_map_of_mem he)
    exact ⟨agg.key b, hkey, b, hb, rfl⟩
  have : Nonempty MatrixMeta := ⟨⟨0, 0, 0, 0⟩⟩
  choose! info hindex hkey using hinfo
  refine ⟨groups.map fun e => ⟨info e, e.2⟩, groups, hgroups, ?_⟩
  rw [List.forall₂_map_right_iff, List.forall₂_same]
  exact fun e he => ⟨rfl, hindex e he, hkey e he⟩

theorem sums_totals (h : Sums agg blocks out) (htotals : ∀ b ∈ blocks, (agg.key b).totalRows = R ∧
    (agg.key b).totalCols = K) : ∀ b ∈ out, b.info.totalRows = R ∧ b.info.totalCols = K := by
  obtain ⟨groups, -, hout⟩ := h
  intro b hb
  obtain ⟨-, -, -, -, a, ha, hkey⟩ := Grid.forall₂_right hout b hb
  rw [← hkey]
  exact htotals a ha

/-! ## products -/

/-- a product of the blocks, added up -/
theorem inputLayer_blocks (hA : Blocks dim R K blocks A) (hB : Blocks dim' R' C' blocks' B)
    (hsize : dim.blockColSize = dim'.blockRowSize) (hnum : dim.blockColNum = dim'.blockRowNum)
    (hpos : 0 < dim.blockColNum) : ∃ joined, inputLayerJoin.pairs blocks blocks' = some joined ∧
      ∀ out, Sums aggMatrix joined out → Blocks
        ⟨dim.blockRowSize, dim'.blockColSize, dim.blockRowNum, dim'.blockColNum⟩ R C' out (A.mul B) := by
  obtain ⟨joined, hjoined, hrep⟩ := multiply_represents hA.represents hB.represents hsize hnum hpos
  have hall : ∀ c ∈ joined, c.data.Sized ⟨dim.blockRowSize, dim'.blockColSize, dim.blockRowNum,
      dim'.blockColNum⟩ ∧ c.info.totalRows = R ∧ c.info.totalCols = C' := by
    intro c hc
    obtain ⟨a, ha, b, hb, hproj⟩ := mem_pairs hjoined hc
    obtain ⟨hr, -, -⟩ := hA.represents.sized a ha
    obtain ⟨-, hc', -⟩ := hB.represents.sized b hb
    rw [multiply1Join] at hproj
    dsimp only at hproj
    split at hproj
    · cases hproj
    · obtain rfl := Option.some.inj hproj
      exact ⟨⟨hr, hc', by rw [← hr, ← hc']; rfl⟩, (hA.totals a ha).1, (hB.totals b hb).2⟩
  refine ⟨joined, hjoined, fun out hout => ⟨hrep out ?_, sums_totals hout fun c hc => (hall c hc).2⟩⟩
  exact gives_of_sums _ hout fun c hc => ⟨(hall c hc).1, rfl⟩

/-- the second operand is transposed -/
theorem transposeMult_pairs (left right : List (MatrixBlock F)) :
    transposeMult.pairs left right = inputLayerJoin.pairs left (right.map transposeSelection) := by
  have hprod : left ×ˢ right.map transposeSelection =
      (left ×ˢ right).map fun e => (e.1, transposeSelection e.2) := by
    show left.flatMap (fun a => (right.map transposeSelection).map (Prod.mk a)) =
      (left.flatMap fun a => right.map (Prod.mk a)).map _
    rw [List.map_flatMap]
    refine List.flatMap_congr fun a _ => ?_
    rw [List.map_map, List.map_map]
    rfl
  rw [JoinComp.pairs, JoinComp.pairs, hprod, List.filter_map, List.mapM_map]
  have hproj : (fun e : MatrixBlock F × MatrixBlock F => transposeMult.projection e.1 e.2) =
      fun e => inputLayerJoin.projection e.1 (transposeSelection e.2) := by
    funext e
    by_cases hne : e.1.data.colNums ≠ e.2.data.colNums
    · exact (if_pos hne).trans (if_pos hne).symm
    refine (if_neg hne).trans (Eq.trans ?_ (if_neg hne).symm)
    refine congrArg some (congrArg (MatrixBlock.mk _) (create_congr fun i _ j hj => ?_))
    refine sum_congr rfl fun k hk => ?_
    have hcoeff : (transposeSelection e.2).coeff k j = e.2.coeff j k :=
      coeff_create (not_not.mp hne ▸ mem_range.mp hk) hj
    rw [hcoeff]
  rw [hproj]
  rfl

theorem Blocks.transpose (h : Blocks dim R K blocks A) :
    Blocks dim.transpose K R (blocks.map transposeSelection) A.transpose := by
  refine ⟨transpose_represents h.represents, fun b hb => ?_⟩
  obtain ⟨a, ha, rfl⟩ := List.mem_map.mp hb
  exact (h.totals a ha).symm

theorem transposeMult_blocks (hA : Blocks dim R K blocks A) (hB : Blocks dim' R' C' blocks' B)
    (hsize : dim.blockColSize = dim'.blockColSize) (hnum : dim.blockColNum = dim'.blockColNum)
    (hpos : 0 < dim.blockColNum) : ∃ joined, transposeMult.pairs blocks blocks' = some joined ∧
      ∀ out, Sums aggMatrix joined out → Blocks
        ⟨dim.blockRowSize, dim'.blockRowSize, dim.blockRowNum, dim'.blockRowNum⟩ R R' out
        (A.mul B.transpose) := by
  rw [transposeMult_pairs]
  exact inputLayer_blocks hA hB.transpose hsize hnum hpos

/-! ## blocks and a column -/

/-- the value of a column in a row of a block -/
theorem column_rawData (hB : Represents ⟨dim.blockRowSize, 1, dim.blockRowNum, 1⟩ blocks B)
    {b : MatrixBlock F} (hb : b ∈ blocks) {i : ℕ} (hi : i < dim.blockRowSize) :
    b.data.rawData i = B.entry (b.index.1 * dim.blockRowSize + i) 0 := by
  have hcol : b.index.2 = 0 := Nat.lt_one_iff.mp (hB.has hb).2
  have hplace : i * b.data.colNums + 0 = i := by rw [(hB.sized b hb).2.1, Nat.mul_one, Nat.add_zero]
  have hcoeff := hB.coeff b hb i hi 0 Nat.one_pos
  rw [hcol] at hcoeff
  exact (congrArg b.data.rawData hplace).symm.trans hcoeff

/-- each block meets the block of the column in its block row -/
theorem rowJoin_blocks (f : MatrixBlock F → MatrixBlock F → MatrixBlock F) (place : ℕ × ℕ → ℕ × ℕ)
    (hA : Represents dim blocks A)
    (hB : Represents ⟨dim.blockRowSize, 1, dim.blockRowNum, 1⟩ blocks' B)
    (hsel : ∀ a b, comp.selection a b = decide (a.index.1 = b.index.1))
    (hproj : ∀ a ∈ blocks, ∀ b ∈ blocks', comp.projection a b = some (f a b))
    (hplace : Function.Injective place) (hindex : ∀ a b, (f a b).index = place a.index)
    (hhas : ∀ p, dim''.Has p ↔ ∃ q, dim.Has q ∧ place q = p)
    (hrows : C.rows = dim''.blockRowNum * dim''.blockRowSize)
    (hcols : C.cols = dim''.blockColNum * dim''.blockColSize)
    (hsized : ∀ a ∈ blocks, ∀ b ∈ blocks', (f a b).data.Sized dim'')
    (htotals : ∀ a ∈ blocks, ∀ b ∈ blocks', (f a b).info.totalRows = R ∧ (f a b).info.totalCols = K)
    (hcoeff : ∀ a ∈ blocks, ∀ b ∈ blocks', a.index.1 = b.index.1 → ∀ i < dim''.blockRowSize,
      ∀ j < dim''.blockColSize, (f a b).coeff i j =
        C.entry ((place a.index).1 * dim''.blockRowSize + i) ((place a.index).2 * dim''.blockColSize + j)) :
    ∃ out, comp.pairs blocks blocks' = some out ∧ Blocks dim'' R K out C := by
  refine ⟨_, pairs_eq fun a ha b hb _ => hproj a ha b hb, ?_⟩
  generalize hpairs : (blocks ×ˢ blocks').filter (fun e => comp.selection e.1 e.2) = pairs
  have hmem : ∀ e, e ∈ pairs ↔ e.1 ∈ blocks ∧ e.2 ∈ blocks' ∧ e.1.index.1 = e.2.index.1 := by
    intro e
    rw [← hpairs, List.mem_filter, List.mem_product, and_assoc, hsel, decide_eq_true_iff]
  have hnodup : pairs.Nodup :=
    hpairs ▸ ((List.Nodup.of_map _ hA.nodup).product (List.Nodup.of_map _ hB.nodup)).filter _
  have hcolumn : ∀ b ∈ blocks', b.index = (b.index.1, 0) := fun b hb =>
    Prod.ext rfl (Nat.lt_one_iff.mp (hB.has hb).2)
  refine ⟨⟨hrows, hcols, ?_, fun p => ?_, fun c hc => ?_, fun c hc i hi j hj => ?_⟩, fun c hc => ?_⟩
  · rw [List.map_map]
    refine List.Nodup.map_on (fun e he e' he' heq => ?_) hnodup
    obtain ⟨ha, hb, hrow⟩ := (hmem e).mp he
    obtain ⟨ha', hb', hrow'⟩ := (hmem e').mp he'
    have heq : (f e.1 e.2).index = (f e'.1 e'.2).index := heq
    rw [hindex, hindex] at heq
    have hfirst : e.1 = e'.1 := hA.index_inj ha ha' (hplace heq)
    refine Prod.ext hfirst (hB.index_inj hb hb' ?_)
    rw [hcolumn _ hb, hcolumn _ hb', ← hrow, ← hrow', hfirst]
  · rw [List.map_map, List.mem_map, hhas]
    constructor
    · rintro ⟨e, he, rfl⟩
      exact ⟨e.1.index, hA.has ((hmem e).mp he).1, (hindex e.1 e.2).symm⟩
    · rintro ⟨q, hq, rfl⟩
      obtain ⟨a, ha, rfl⟩ := List.mem_map.mp ((hA.mem_index _).mpr hq)
      obtain ⟨b, hb, hrow⟩ := List.mem_map.mp ((hB.mem_index (a.index.1, 0)).mpr ⟨hq.1, Nat.one_pos⟩)
      exact ⟨(a, b), (hmem _).mpr ⟨ha, hb, (congrArg Prod.fst hrow).symm⟩, hindex a b⟩
  · obtain ⟨e, he, rfl⟩ := List.mem_map.mp hc
    exact hsized e.1 ((hmem e).mp he).1 e.2 ((hmem e).mp he).2.1
  · obtain ⟨e, he, rfl⟩ := List.mem_map.mp hc
    obtain ⟨ha, hb, hrow⟩ := (hmem e).mp he
    rw [hindex]
    exact hcoeff e.1 ha e.2 hb hrow i hi j hj
  · obtain ⟨e, he, rfl⟩ := List.mem_map.mp hc
    exact htotals e.1 ((hmem e).mp he).1 e.2 ((hmem e).mp he).2.1

/-- a bias is added, and what is negative is 0 -/
def relu (A B : Mat F) : Mat F := ⟨A.rows, A.cols, fun i j => max 0 (A.entry i j + B.entry i 0)⟩

theorem reluBias_blocks (hA : Blocks dim R K blocks A)
    (hB : Represents ⟨dim.blockRowSize, 1, dim.blockRowNum, 1⟩ blocks' B) :
    ∃ out, reluBiasSum.pairs blocks blocks' = some out ∧ Blocks dim R K out (relu A B) := by
  let block (in1 in2 : MatrixBlock F) : MatrixBlock F :=
    .create in1.info.blockRowIndex in1.info.blockColIndex in1.data.rowNums in1.data.colNums
      in1.info.totalRows in1.info.totalCols fun i j => max 0 (in1.coeff i j + in2.data.rawData i)
  refine rowJoin_blocks block id hA.represents hB (fun _ _ => rfl)
    (fun a ha b hb => ?_) Function.injective_id (fun _ _ => rfl) (fun p => ?_) hA.represents.rows
    hA.represents.cols (fun a ha b hb => ?_) (fun a ha b hb => hA.totals a ha)
    fun a ha b hb hrow i hi j hj => ?_
  · obtain ⟨hr, -, -⟩ := hA.represents.sized a ha
    obtain ⟨hr', hc', -⟩ := hB.sized b hb
    exact if_neg (not_or.mpr ⟨not_not.mpr (hr.trans hr'.symm), not_not.mpr hc'⟩)
  · exact ⟨fun hp => ⟨p, hp, rfl⟩, fun ⟨q, hq, he⟩ => he ▸ hq⟩
  · obtain ⟨hr, hc, -⟩ := hA.represents.sized a ha
    exact ⟨hr, hc, by rw [← hr, ← hc]; rfl⟩
  · obtain ⟨hr, hc, -⟩ := hA.represents.sized a ha
    refine (coeff_create (hr.symm ▸ hi) (hc.symm ▸ hj)).trans ?_
    rw [hA.represents.coeff a ha i hi j hj, column_rawData hB hb hi, ← hrow]
    rfl

/-- a bias is added, what is not padding is an exponent, and the matrix is transposed -/
def expTranspose (exp : F → F) (R K : ℕ) (A B : Mat F) : Mat F :=
  ⟨A.cols, A.rows, fun i j =>
    if i < K ∧ j < R then exp (A.entry j i + B.entry j 0) else A.entry j i + B.entry j 0⟩

theorem transposeBias_blocks (hA : Blocks dim R K blocks A)
    (hB : Represents ⟨dim.blockRowSize, 1, dim.blockRowNum, 1⟩ blocks' B)
    (hsquare : dim.blockRowSize = dim.blockColSize) :
    ∃ out, (transposeBiasSum exp untold).pairs blocks blocks' = some out ∧
      Blocks dim.transpose K R out (expTranspose exp R K A B) := by
  let block (in1 in2 : MatrixBlock F) : MatrixBlock F :=
    .create in1.info.blockColIndex in1.info.blockRowIndex in1.data.colNums in1.data.rowNums
      in1.info.totalCols in1.info.totalRows fun i j =>
        let sum := in1.coeff j i + in2.data.rawData j
        if in1.info.blockColIndex * in1.data.colNums + i < in1.info.totalCols ∧
          in1.info.blockRowIndex * in1.data.rowNums + j < in1.info.totalRows then exp sum else sum
  refine rowJoin_blocks block Prod.swap hA.represents hB (fun _ _ => rfl)
    (fun a ha b hb => ?_) Prod.swap_injective (fun _ _ => rfl) (fun p => ?_) hA.represents.cols
    hA.represents.rows (fun a ha b hb => ?_) (fun a ha b hb => (hA.totals a ha).symm)
    fun a ha b hb hrow i hi j hj => ?_
  · obtain ⟨hr, hc, -⟩ := hA.represents.sized a ha
    obtain ⟨hr', hc', -⟩ := hB.sized b hb
    refine (if_neg (not_or.mpr ⟨not_not.mpr (hr.trans hr'.symm), not_not.mpr hc'⟩)).trans (if_neg ?_)
    exact not_not.mpr (hr.trans (hsquare.trans hc.symm))
  · exact ⟨fun hp => ⟨p.swap, ⟨hp.2, hp.1⟩, p.swap_swap⟩, fun ⟨q, hq, he⟩ => he ▸ ⟨hq.2, hq.1⟩⟩
  · obtain ⟨hr, hc, -⟩ := hA.represents.sized a ha
    exact ⟨hc, hr, by rw [LADimension.transpose, ← hr, ← hc]; rfl⟩
  · obtain ⟨hr, hc, -⟩ := hA.represents.sized a ha
    obtain ⟨hR, hK⟩ := hA.totals a ha
    refine (coeff_create (hc.symm ▸ hi) (hr.symm ▸ hj)).trans ?_
    dsimp only
    rw [hr, hc, hR, hK, hA.represents.coeff a ha j hj i hi, column_rawData hB hb hj, ← hrow]
    rfl

theorem divided_place {in1 in2 : MatrixBlock F} {i j : ℕ} (hsquare : in1.data.rowNums = in1.data.colNums)
    (hi : i < in1.data.rowNums) (hj : j < in1.data.colNums) :
    divided in1 in2 (i * in1.data.colNums + j) = in1.coeff i j / in2.data.rawData i := by
  have hmem : (i, j) ∈ nested in1.data.rowNums in1.data.colNums := mem_nested.mpr ⟨hi, hj⟩
  have hone : ∀ p ∈ nested in1.data.rowNums in1.data.colNums,
      p.1 * in1.data.rowNums + p.2 = i * in1.data.rowNums + j → p = (i, j) := by
    intro p hp he
    obtain ⟨hp1, hp2⟩ := mem_nested.mp hp
    obtain ⟨e1, e2⟩ := cell_inj (by omega) (by omega) he
    exact Prod.ext e1 e2
  have hhit : divided in1 in2 (i * in1.data.rowNums + j) =
      in1.data.rawData (i * in1.data.rowNums + j) / in2.data.rawData i :=
    scatter_hit hmem (fun p hp he => by rw [hone p hp he]) fun _ => 0
  rw [← hsquare]
  refine hhit.trans ?_
  rw [MatrixBlock.coeff, MatrixData.coeff, ← hsquare]

/-- rows are divided by what a column has for them -/
def divideRows (A B : Mat F) : Mat F := ⟨A.rows, A.cols, fun i j => A.entry i j / B.entry i 0⟩

theorem outputLayer_blocks (hA : Blocks dim R K blocks A)
    (hB : Represents ⟨dim.blockRowSize, 1, dim.blockRowNum, 1⟩ blocks' B)
    (hsquare : dim.blockRowSize = dim.blockColSize) :
    ∃ out, (outputLayer untold).pairs blocks blocks' = some out ∧ Blocks dim R K out (divideRows A B) := by
  let block (in1 in2 : MatrixBlock F) : MatrixBlock F :=
    ⟨in1.info, ⟨in1.data.rowNums, in1.data.colNums, .maxtrixSum, in1.data.rowNums * in1.data.colNums,
      divided in1 in2⟩⟩
  refine rowJoin_blocks block id hA.represents hB (fun _ _ => rfl)
    (fun a ha b hb => ?_) Function.injective_id (fun _ _ => rfl) (fun p => ?_) hA.represents.rows
    hA.represents.cols (fun a ha b hb => ?_) (fun a ha b hb => hA.totals a ha)
    fun a ha b hb hrow i hi j hj => ?_
  · obtain ⟨hr, hc, -⟩ := hA.represents.sized a ha
    obtain ⟨hr', hc', -⟩ := hB.sized b hb
    refine (if_neg (not_or.mpr ⟨not_not.mpr (hr.trans hr'.symm), not_not.mpr hc'⟩)).trans (if_neg ?_)
    omega
  · exact ⟨fun hp => ⟨p, hp, rfl⟩, fun ⟨q, hq, he⟩ => he ▸ hq⟩
  · obtain ⟨hr, hc, -⟩ := hA.represents.sized a ha
    exact ⟨hr, hc, by rw [← hr, ← hc]⟩
  · obtain ⟨hr, hc, -⟩ := hA.represents.sized a ha
    refine (divided_place (hr.trans (hsquare.trans hc.symm)) (hr.symm ▸ hi) (hc.symm ▸ hj)).trans ?_
    rw [hA.represents.coeff a ha i hi j hj, column_rawData hB hb hi, ← hrow]
    rfl

theorem rowAggregate_represents (hA : Blocks dim R K blocks A) (hpos : dim.Positive)
    (hout : Sums rowAggregate blocks out) :
    Represents ⟨dim.blockRowSize, 1, dim.blockRowNum, 1⟩ out (A.totalRows fun x y => x + y) := by
  refine totalRows_represents hA.represents hpos
    (show Flag.Chooses _ .maxtrixSum from rfl) ⟨add_assoc⟩ ⟨add_comm⟩ (fun _ => rfl)
    (gives_of_sums ⟨dim.blockRowSize, 1, dim.blockRowNum, 1⟩ hout fun b hb => ⟨?_, rfl⟩)
  obtain ⟨hr, -, -⟩ := hA.represents.sized b hb
  exact ⟨hr, rfl, by rw [← hr]; rfl⟩

end

end FeedForward
end Netsdb
