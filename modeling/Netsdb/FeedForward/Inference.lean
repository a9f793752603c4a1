import Netsdb.FeedForward.Layers
import Netsdb.LinearAlgebra.Evaluate
import Mathlib.Algebra.Order.Field.Rat

/-!
# Inference with a feed-forward network (`SimpleFF.cc`)

* `inference`            the four jobs, one after the other; in each, blocks may come in any order;
* `score`                the dense network;
* `inference_softmax`    each run writes the blocks of its softmax, where the blocks of the last layer are
                         square and zeros pad the weights.
-/

set_option linter.unusedSectionVars false

namespace Netsdb
namespace FeedForward
open Finset Blocked Netsdb.LinearAlgebra

variable {F : Type}

section
variable [Field F] [LinearOrder F]

/-! ## the jobs -/

/-- `none`: the program ends with an error -/
def layer (mult bias : JoinComp F) (w x b : List (MatrixBlock F)) (res : Option (List (MatrixBlock F))) :
    Prop :=
  match mult.pairs w x with
  | none => res = none
  | some joined => ∃ myAggregation, Sums aggMatrix joined myAggregation ∧
    match bias.pairs myAggregation b with
    | none => res = none
    | some blocks => ∃ out, out.Perm blocks ∧ res = some out

/-- the job that reads what another one wrote -/
def andThen (first : Option (List (MatrixBlock F)) → Prop)
    (next : List (MatrixBlock F) → Option (List (MatrixBlock F)) → Prop)
    (res : Option (List (MatrixBlock F))) : Prop :=
  first none ∧ res = none ∨ ∃ y, first (some y) ∧ next y res

variable (exp : F → F) (untold : MatrixBlock F → MatrixBlock F → Option (MatrixBlock F))

def inferenceCompute (w1 w2 wo inputs b1 b2 bo : List (MatrixBlock F)) :
    Option (List (MatrixBlock F)) → Prop :=
  andThen (layer transposeMult reluBiasSum w1 inputs b1) fun y1 =>
    andThen (layer inputLayerJoin reluBiasSum w2 y1 b2) fun y2 =>
      layer inputLayerJoin (transposeBiasSum exp untold) wo y2 bo

def softmax (yo : List (MatrixBlock F)) (res : Option (List (MatrixBlock F))) : Prop :=
  ∃ expSum, Sums rowAggregate yo expSum ∧
    match (outputLayer untold).pairs yo expSum with
    | none => res = none
    | some blocks => ∃ out, out.Perm blocks ∧ res = some out

def inference (w1 w2 wo inputs b1 b2 bo : List (MatrixBlock F)) : Option (List (MatrixBlock F)) → Prop :=
  andThen (inferenceCompute exp untold w1 w2 wo inputs b1 b2 bo) (softmax untold)

/-! ## the dense network -/

/-- a hidden layer of `size` inputs -/
def hidden (W b : Mat F) (size : ℕ) (x : ℕ → F) (i : ℕ) : F :=
  max 0 (∑ k ∈ range size, W.entry i k * x k + b.entry i 0)

/-- the sizes of the input and of the hidden layers -/
structure Sizes where
  input : ℕ
  hidden1 : ℕ
  hidden2 : ℕ

def score (size : Sizes) (W1 W2 Wo b1 b2 bo : Mat F) (x : ℕ → F) (c : ℕ) : F :=
  ∑ h ∈ range size.hidden2,
      Wo.entry c h * hidden W2 b2 size.hidden1 (hidden W1 b1 size.input x) h + bo.entry c 0

/-! ## jobs that end -/

/-- some run ends, and each run writes blocks for which `P` holds -/
def Always (job : Option (List (MatrixBlock F)) → Prop) (P : List (MatrixBlock F) → Prop) : Prop :=
  (∃ res, job res) ∧ ∀ res, job res → ∃ out, res = some out ∧ P out

variable {exp untold} {dim dim' : LADimension} {blocks blocks' bias : List (MatrixBlock F)}
  {A B C : Mat F} {R K R' K' R'' K'' : ℕ} {P Q : List (MatrixBlock F) → Prop}

theorem Always.andThen {first : Option (List (MatrixBlock F)) → Prop}
    {next : List (MatrixBlock F) → Option (List (MatrixBlock F)) → Prop} (h : Always first P)
    (hnext : ∀ y, P y → Always (next y) Q) : Always (FeedForward.andThen first next) Q := by
  obtain ⟨⟨res, hres⟩, hall⟩ := h
  obtain ⟨y, rfl, hy⟩ := hall res hres
  obtain ⟨res', hres'⟩ := (hnext y hy).1
  refine ⟨⟨res', .inr ⟨y, hres, hres'⟩⟩, fun res hrun => ?_⟩
  rcases hrun with ⟨hnone, -⟩ | ⟨y, hfirst, hrun⟩
  · obtain ⟨out, hout, -⟩ := hall none hnone
    exact (Option.some_ne_none out hout.symm).elim
  · obtain ⟨y', hy', hP⟩ := hall _ hfirst
    obtain rfl := Option.some.inj hy'
    exact (hnext y hP).2 res hrun

/-- a layer, from what its join, its aggregation and its bias do -/
theorem layer_always {mult biasJoin : JoinComp F} {dimS dimY : LADimension} {S Y : Mat F}
    {RS KS RY KY : ℕ} (hmult : ∃ joined, mult.pairs blocks blocks' = some joined ∧
      ∀ out, Sums aggMatrix joined out → Blocks dimS RS KS out S)
    (hbias : ∀ sums, Blocks dimS RS KS sums S →
      ∃ out, biasJoin.pairs sums bias = some out ∧ Blocks dimY RY KY out Y) :
    Always (layer mult biasJoin blocks blocks' bias) (Blocks dimY RY KY · Y) := by
  obtain ⟨joined, hjoined, hsums⟩ := hmult
  have hlayer : layer mult biasJoin blocks blocks' bias = fun res => ∃ sums, Sums aggMatrix joined sums ∧
      ∃ blocks, biasJoin.pairs sums bias = some blocks ∧ ∃ out, out.Perm blocks ∧ res = some out := by
    funext res
    rw [layer, hjoined]
    refine propext (exists_congr fun sums => and_congr_right fun hs => ?_)
    obtain ⟨out, hout, -⟩ := hbias sums (hsums sums hs)
    rw [hout]
    exact ⟨fun h => ⟨out, rfl, h⟩, fun ⟨blocks, hblocks, h⟩ => Option.some.inj hblocks ▸ h⟩
  rw [hlayer]
  obtain ⟨sums, hs⟩ := exists_sums aggMatrix joined
  obtain ⟨out, hout, -⟩ := hbias sums (hsums sums hs)
  refine ⟨⟨some out, sums, hs, out, hout, out, .refl _, rfl⟩, ?_⟩
  rintro res ⟨sums, hs, blocks, hblocks, out, hperm, rfl⟩
  obtain ⟨out', hout', hY⟩ := hbias sums (hsums sums hs)
  obtain rfl := Option.some.inj (hblocks.symm.trans hout')
  exact ⟨out, rfl, hY.perm hperm⟩

theorem softmax_always (hY : Blocks dim R K blocks A) (hpos : dim.Positive)
    (hsquare : dim.blockRowSize = dim.blockColSize) :
    Always (softmax untold blocks)
      (Blocks dim R K · (divideRows A (A.totalRows fun x y => x + y))) := by
  have hdivide : ∀ sums, Sums rowAggregate blocks sums → ∃ out, (outputLayer untold).pairs blocks sums =
      some out ∧ Blocks dim R K out (divideRows A (A.totalRows fun x y => x + y)) := fun sums hs =>
    outputLayer_blocks hY (rowAggregate_represents hY hpos hs) hsquare
  obtain ⟨sums, hs⟩ := exists_sums rowAggregate blocks
  obtain ⟨out, hout, -⟩ := hdivide sums hs
  refine ⟨⟨some out, sums, hs, ?_⟩, ?_⟩
  · rw [hout]
    exact ⟨out, .refl _, rfl⟩
  · rintro res ⟨sums, hs, hres⟩
    obtain ⟨out, hout, hD⟩ := hdivide sums hs
    rw [hout] at hres
    obtain ⟨out', hperm, rfl⟩ := hres
    exact ⟨out', rfl, hD.perm hperm⟩

/-! ## zeros in the padding -/

/-- zeros behind `K` columns -/
def PadsCols (K : ℕ) (A : Mat F) : Prop := ∀ i < A.rows, ∀ k < A.cols, K ≤ k → A.entry i k = 0

/-- zeros below `R` rows -/
def PadsRows (R : ℕ) (A : Mat F) : Prop := ∀ i < A.rows, R ≤ i → ∀ k < A.cols, A.entry i k = 0

/-- the padding adds nothing to a product -/
theorem sum_padded (hA : PadsCols K A) (hK : K ≤ A.cols) {i : ℕ} (hi : i < A.rows) {x y : ℕ → F}
    (hxy : ∀ k < K, x k = y k) :
    ∑ k ∈ range A.cols, A.entry i k * x k = ∑ k ∈ range K, A.entry i k * y k := by
  have hsub : range K ⊆ range A.cols := range_subset_range.mpr hK
  rw [← sum_subset hsub fun k hk hnot => ?_]
  · exact sum_congr rfl fun k hk => by rw [hxy k (mem_range.mp hk)]
  · rw [hA i hi k (mem_range.mp hk) (Nat.le_of_not_lt fun h => hnot (mem_range.mpr h)), zero_mul]

/-! ## the network -/

/-- how the matrices are cut into blocks -/
structure Cut where
  w1 : LADimension
  inputs : LADimension
  w2 : LADimension
  wo : LADimension

structure Cut.Fits (cut : Cut) : Prop where
  w1 : cut.w1.Positive
  inputs : cut.inputs.Positive
  w2 : cut.w2.Positive
  wo : cut.wo.Positive
  input_size : cut.w1.blockColSize = cut.inputs.blockColSize
  input_num : cut.w1.blockColNum = cut.inputs.blockColNum
  hidden1_size : cut.w2.blockColSize = cut.w1.blockRowSize
  hidden1_num : cut.w2.blockColNum = cut.w1.blockRowNum
  hidden2_size : cut.wo.blockColSize = cut.w2.blockRowSize
  hidden2_num : cut.wo.blockColNum = cut.w2.blockRowNum
  /-- the blocks of the last layer -/
  square : cut.wo.blockRowSize = cut.inputs.blockRowSize

/-- a bias is a column that is cut as the rows of a matrix are -/
def biasDim (dim : LADimension) : LADimension := ⟨dim.blockRowSize, 1, dim.blockRowNum, 1⟩

/-- the stored sets, for `rows` inputs and `classes` outputs -/
structure Stored (cut : Cut) (size : Sizes) (rows classes : ℕ)
    (w1 w2 wo inputs b1 b2 bo : List (MatrixBlock F)) (W1 W2 Wo X B1 B2 Bo : Mat F) : Prop where
  w1 : Blocks cut.w1 size.hidden1 size.input w1 W1
  w2 : Blocks cut.w2 size.hidden2 size.hidden1 w2 W2
  wo : Blocks cut.wo classes size.hidden2 wo Wo
  inputs : Blocks cut.inputs rows size.input inputs X
  b1 : Represents (biasDim cut.w1) b1 B1
  b2 : Represents (biasDim cut.w2) b2 B2
  bo : Represents (biasDim cut.wo) bo Bo

/-- the padding, of which only that of the weights and of the last bias has to be zero -/
structure Padded (size : Sizes) (classes : ℕ) (W1 W2 Wo Bo : Mat F) : Prop where
  input_le : size.input ≤ W1.cols
  hidden1_le : size.hidden1 ≤ W2.cols
  hidden2_le : size.hidden2 ≤ Wo.cols
  classes_le : classes ≤ Wo.rows
  w1 : PadsCols size.input W1
  w2 : PadsCols size.hidden1 W2
  wo : PadsCols size.hidden2 Wo
  wo_rows : PadsRows classes Wo
  bo_rows : PadsRows classes Bo

section
variable {cut : Cut} {size : Sizes} {rows classes : ℕ} {w1 w2 wo inputs b1 b2 bo : List (MatrixBlock F)}
  {W1 W2 Wo X B1 B2 Bo : Mat F} {n k c : ℕ}

/-- what the first two jobs write -/
def y1 (W1 X B1 : Mat F) : Mat F := relu (W1.mul X.transpose) B1

def y2 (W1 W2 X B1 B2 : Mat F) : Mat F := relu (W2.mul (y1 W1 X B1)) B2

def yo (exp : F → F) (rows classes : ℕ) (W1 W2 Wo X B1 B2 Bo : Mat F) : Mat F :=
  expTranspose exp classes rows (Wo.mul (y2 W1 W2 X B1 B2)) Bo

variable (exp untold) in
theorem inference_blocks (hcut : cut.Fits)
    (h : Stored cut size rows classes w1 w2 wo inputs b1 b2 bo W1 W2 Wo X B1 B2 Bo) :
    Always (inference exp untold w1 w2 wo inputs b1 b2 bo)
      (Blocks ⟨cut.inputs.blockRowSize, cut.wo.blockRowSize, cut.inputs.blockRowNum, cut.wo.blockRowNum⟩
        rows classes · (divideRows (yo exp rows classes W1 W2 Wo X B1 B2 Bo)
          ((yo exp rows classes W1 W2 Wo X B1 B2 Bo).totalRows fun x y => x + y))) := by
  let dim (d : LADimension) : LADimension :=
    ⟨d.blockRowSize, cut.inputs.blockRowSize, d.blockRowNum, cut.inputs.blockRowNum⟩
  have hone : Always (layer transposeMult reluBiasSum w1 inputs b1)
      (Blocks (dim cut.w1) size.hidden1 rows · (y1 W1 X B1)) :=
    layer_always (transposeMult_blocks h.w1 h.inputs hcut.input_size hcut.input_num hcut.w1.colNum)
      fun sums hs => reluBias_blocks hs h.b1
  have htwo : ∀ y, Blocks (dim cut.w1) size.hidden1 rows y (y1 W1 X B1) →
      Always (layer inputLayerJoin reluBiasSum w2 y b2)
        (Blocks (dim cut.w2) size.hidden2 rows · (y2 W1 W2 X B1 B2)) := fun y hy =>
    layer_always (inputLayer_blocks h.w2 hy hcut.hidden1_size hcut.hidden1_num hcut.w2.colNum)
      fun sums hs => reluBias_blocks hs h.b2
  have hthree : ∀ y, Blocks (dim cut.w2) size.hidden2 rows y (y2 W1 W2 X B1 B2) →
      Always (layer inputLayerJoin (transposeBiasSum exp untold) wo y bo)
        (Blocks (dim cut.wo).transpose rows classes · (yo exp rows classes W1 W2 Wo X B1 B2 Bo)) :=
    fun y hy =>
      layer_always (inputLayer_blocks h.wo hy hcut.hidden2_size hcut.hidden2_num hcut.wo.colNum)
        fun sums hs => transposeBias_blocks hs h.bo hcut.square
  refine (hone.andThen fun y hy => (htwo y hy).andThen hthree).andThen fun y hy => ?_
  exact softmax_always hy ⟨hcut.inputs.rowSize, hcut.wo.rowSize, hcut.inputs.rowNum, hcut.wo.rowNum⟩
    hcut.square.symm

/-! ## what the matrices are where there is no padding -/

theorem y1_entry (hpad : Padded size classes W1 W2 Wo Bo) (hk : k < W1.rows) :
    (y1 W1 X B1).entry k n = hidden W1 B1 size.input (X.entry n) k :=
  congrArg (fun s => max 0 (s + B1.entry k 0)) (sum_padded hpad.w1 hpad.input_le hk fun _ _ => rfl)

theorem y2_entry (hpad : Padded size classes W1 W2 Wo Bo) (hinner : W2.cols = W1.rows)
    (hk : k < W2.rows) : (y2 W1 W2 X B1 B2).entry k n =
      hidden W2 B2 size.hidden1 (hidden W1 B1 size.input (X.entry n)) k :=
  congrArg (fun s => max 0 (s + B2.entry k 0)) (sum_padded hpad.w2 hpad.hidden1_le hk fun _ hi =>
    y1_entry hpad (hinner ▸ hi.trans_le hpad.hidden1_le))

theorem yo_sum (hpad : Padded size classes W1 W2 Wo Bo) (hinner : W2.cols = W1.rows)
    (hinner' : Wo.cols = W2.rows) (hc : c < Wo.rows) :
    (Wo.mul (y2 W1 W2 X B1 B2)).entry c n + Bo.entry c 0 =
      score size W1 W2 Wo B1 B2 Bo (X.entry n) c :=
  congrArg (fun s => s + Bo.entry c 0) (sum_padded hpad.wo hpad.hidden2_le hc fun _ hi =>
    y2_entry hpad hinner (hinner' ▸ hi.trans_le hpad.hidden2_le))

theorem score_padding (hpad : Padded size classes W1 W2 Wo Bo) (hbo : Bo.rows = Wo.rows)
    (hcol : 0 < Bo.cols) (hc : c < Wo.rows) (hclass : classes ≤ c) (x : ℕ → F) :
    score size W1 W2 Wo B1 B2 Bo x c = 0 := by
  rw [score, hpad.bo_rows c (hbo ▸ hc) hclass 0 hcol, add_zero]
  refine sum_eq_zero fun h hh => ?_
  rw [hpad.wo_rows c hc hclass h ((mem_range.mp hh).trans_le hpad.hidden2_le), zero_mul]

theorem yo_entry (hpad : Padded size classes W1 W2 Wo Bo) (hinner : W2.cols = W1.rows)
    (hinner' : Wo.cols = W2.rows) (hn : n < rows) (hc : c < classes) :
    (yo exp rows classes W1 W2 Wo X B1 B2 Bo).entry n c =
      exp (score size W1 W2 Wo B1 B2 Bo (X.entry n) c) := by
  rw [← yo_sum hpad hinner hinner' (hc.trans_le hpad.classes_le)]
  exact if_pos ⟨hn, hc⟩

/-- the rows of `yo` add up the exponents: what is in the padding is 0 -/
theorem yo_total (hpad : Padded size classes W1 W2 Wo Bo) (hinner : W2.cols = W1.rows)
    (hinner' : Wo.cols = W2.rows) (hbo : Bo.rows = Wo.rows) (hcol : 0 < Bo.cols) (hpos : 0 < Wo.rows)
    (hn : n < rows) :
    ((yo exp rows classes W1 W2 Wo X B1 B2 Bo).totalRows fun x y => x + y).entry n 0 =
      ∑ c ∈ range classes, exp (score size W1 W2 Wo B1 B2 Bo (X.entry n) c) := by
  show total _ Wo.rows ((yo exp rows classes W1 W2 Wo X B1 B2 Bo).entry n) = _
  rw [total_add _ hpos, ← sum_subset (range_subset_range.mpr hpad.classes_le) fun c hc hnot => ?_]
  · exact sum_congr rfl fun c hc => yo_entry hpad hinner hinner' hn (mem_range.mp hc)
  · have hclass : ¬ c < classes := fun h => hnot (mem_range.mpr h)
    have hc := mem_range.mp hc
    refine (if_neg fun h => hclass h.2).trans ((yo_sum hpad hinner hinner' hc).trans ?_)
    exact score_padding hpad hbo hcol hc (Nat.le_of_not_lt hclass) _

variable (exp untold) in
/-- **Blocked inference is that of the dense network**: some run ends, and each run writes every block of
the result once, in whatever order blocks are joined, added up and stored; where there is no padding, its
elements are the softmax of the scores -/
theorem inference_softmax (hcut : cut.Fits)
    (h : Stored cut size rows classes w1 w2 wo inputs b1 b2 bo W1 W2 Wo X B1 B2 Bo)
    (hpad : Padded size classes W1 W2 Wo Bo) :
    (∃ res, inference exp untold w1 w2 wo inputs b1 b2 bo res) ∧
      ∀ res, inference exp untold w1 w2 wo inputs b1 b2 bo res → ∃ out S, res = some out ∧
        Represents ⟨cut.inputs.blockRowSize, cut.wo.blockRowSize, cut.inputs.blockRowNum,
          cut.wo.blockRowNum⟩ out S ∧
        ∀ n < rows, ∀ c < classes, S.entry n c =
          exp (score size W1 W2 Wo B1 B2 Bo (X.entry n) c) /
            ∑ c' ∈ range classes, exp (score size W1 W2 Wo B1 B2 Bo (X.entry n) c') := by
  have hinner : W2.cols = W1.rows := by
    rw [h.w2.represents.cols, h.w1.represents.rows, hcut.hidden1_size, hcut.hidden1_num]
  have hinner' : Wo.cols = W2.rows := by
    rw [h.wo.represents.cols, h.w2.represents.rows, hcut.hidden2_size, hcut.hidden2_num]
  have hbo : Bo.rows = Wo.rows := h.bo.rows.trans h.wo.represents.rows.symm
  have hcol : 0 < Bo.cols := h.bo.cols ▸ Nat.one_pos
  have hpos : 0 < Wo.rows := h.wo.represents.rows ▸ Nat.mul_pos hcut.wo.rowNum hcut.wo.rowSize
  obtain ⟨hexists, hall⟩ := inference_blocks exp untold hcut h
  refine ⟨hexists, fun res hres => ?_⟩
  obtain ⟨out, hout, hblocks⟩ := hall res hres
  refine ⟨out, _, hout, hblocks.represents, fun n hn c hc => ?_⟩
  show (yo exp rows classes W1 W2 Wo X B1 B2 Bo).entry n c / _ = _
  rw [yo_entry hpad hinner hinner' hn hc, yo_total hpad hinner hinner' hbo hcol hpos hn]

end

end

/-! ### one input, one neuron a layer and two classes, in blocks of two rows and columns -/

/-- the blocks of a matrix that has `R` rows and `K` columns and padding -/
def cutBlocks (dim : LADimension) (R K : ℕ) (A : Mat ℚ) : List (MatrixBlock ℚ) :=
  (List.range (dim.blockRowNum * dim.blockColNum)).map fun k =>
    .create (k / dim.blockColNum) (k % dim.blockColNum) dim.blockRowSize dim.blockColSize R K fun i j =>
      A.entry (k / dim.blockColNum * dim.blockRowSize + i) (k % dim.blockColNum * dim.blockColSize + j)

theorem cutBlocks_blocks {dim : LADimension} {A : Mat ℚ} (R K : ℕ)
    (hrows : A.rows = dim.blockRowNum * dim.blockRowSize)
    (hcols : A.cols = dim.blockColNum * dim.blockColSize) : Blocks dim R K (cutBlocks dim R K A) A := by
  refine ⟨created_represents R K hcols hrows (fun i j ii jj => A.entry (i * dim.blockRowSize + ii)
    (j * dim.blockColSize + jj)) fun _ _ _ _ _ _ => rfl, fun b hb => ?_⟩
  obtain ⟨k, -, rfl⟩ := List.mem_map.mp hb
  exact ⟨rfl, rfl⟩

def twoByTwo : LADimension := ⟨2, 2, 1, 1⟩

theorem twoByTwo_positive : twoByTwo.Positive := ⟨Nat.two_pos, Nat.two_pos, Nat.one_pos, Nat.one_pos⟩

def twoByTwoCut : Cut := ⟨twoByTwo, twoByTwo, twoByTwo, twoByTwo⟩

/-- a weight of 1, in padding -/
def oneWeight : Mat ℚ := ⟨2, 2, fun i j => if i = 0 ∧ j = 0 then 1 else 0⟩

def classWeights : Mat ℚ := ⟨2, 2, fun c h => if h = 0 then c + 1 else 0⟩

/-- what pads the input is not zero -/
def threes : Mat ℚ := ⟨2, 2, fun _ _ => 3⟩

def noBias : Mat ℚ := ⟨2, 1, fun _ _ => 0⟩

theorem oneWeight_pads : PadsCols 1 oneWeight := by
  intro i _ k _ hk
  have hne : k ≠ 0 := Nat.one_le_iff_ne_zero.mp hk
  exact if_neg fun h => hne h.2

theorem twoByTwo_padded : Padded ⟨1, 1, 1⟩ 2 oneWeight oneWeight classWeights noBias where
  input_le := Nat.one_lt_two.le
  hidden1_le := Nat.one_lt_two.le
  hidden2_le := Nat.one_lt_two.le
  classes_le := Nat.le_refl 2
  w1 := oneWeight_pads
  w2 := oneWeight_pads
  wo := by
    intro c _ h _ hh
    have hne : h ≠ 0 := Nat.one_le_iff_ne_zero.mp hh
    exact if_neg hne
  wo_rows := fun _ hi hle => absurd hi (Nat.not_lt.mpr hle)
  bo_rows := fun _ hi hle => absurd hi (Nat.not_lt.mpr hle)

/-- scores of 3 and 6, with `x + 1` as the exponent -/
theorem inference_softmax_two : ∃ out S,
    inference (fun x => x + 1) (fun _ _ => none) (cutBlocks twoByTwo 1 1 oneWeight)
        (cutBlocks twoByTwo 1 1 oneWeight) (cutBlocks twoByTwo 2 1 classWeights)
        (cutBlocks twoByTwo 1 1 threes) (cutBlocks (biasDim twoByTwo) 1 1 noBias)
        (cutBlocks (biasDim twoByTwo) 1 1 noBias) (cutBlocks (biasDim twoByTwo) 2 1 noBias) (some out) ∧
      Represents twoByTwo out S ∧ S.entry 0 0 = 4 / 11 ∧ S.entry 0 1 = 7 / 11 := by
  have hstored : Stored twoByTwoCut ⟨1, 1, 1⟩ 1 2 (cutBlocks twoByTwo 1 1 oneWeight)
      (cutBlocks twoByTwo 1 1 oneWeight) (cutBlocks twoByTwo 2 1 classWeights)
      (cutBlocks twoByTwo 1 1 threes) (cutBlocks (biasDim twoByTwo) 1 1 noBias)
      (cutBlocks (biasDim twoByTwo) 1 1 noBias) (cutBlocks (biasDim twoByTwo) 2 1 noBias)
      oneWeight oneWeight classWeights threes noBias noBias noBias :=
    ⟨cutBlocks_blocks 1 1 rfl rfl, cutBlocks_blocks 1 1 rfl rfl, cutBlocks_blocks 2 1 rfl rfl,
      cutBlocks_blocks 1 1 rfl rfl, (cutBlocks_blocks 1 1 rfl rfl).represents,
      (cutBlocks_blocks 1 1 rfl rfl).represents, (cutBlocks_blocks 2 1 rfl rfl).represents⟩
  have hfits : twoByTwoCut.Fits := ⟨twoByTwo_positive, twoByTwo_positive, twoByTwo_positive,
    twoByTwo_positive, rfl, rfl, rfl, rfl, rfl, rfl, rfl⟩
  obtain ⟨⟨res, hres⟩, hall⟩ := inference_softmax (fun x => x + 1) (fun _ _ => none) hfits hstored
    twoByTwo_padded
  obtain ⟨out, S, rfl, hrep, hentry⟩ := hall res hres
  refine ⟨out, S, hres, hrep, ?_, ?_⟩
  · rw [hentry 0 Nat.one_pos 0 Nat.two_pos]
    decide +kernel
  · rw [hentry 0 Nat.one_pos 1 Nat.one_lt_two]
    decide +kernel

end FeedForward
end Netsdb
