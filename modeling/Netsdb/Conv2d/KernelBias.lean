import Netsdb.Conv2d.RowChunks

/-!
# The matrix of the kernels with their bias (`KernelToChunks.h`, `KernelBiasJoin.h`)

* `KernelToChunks.getProjection`, `KernelBiasJoin.run`   as in the source;
* `KernelPlan.Works`   the chunks of the kernels, in any order, come out as the whole matrix of kernels
                       and bias;
* `works_iff`          they do just where the matrix is one block, whose columns are padded and whose
                       rows are not.
-/

set_option linter.unusedSectionVars false

namespace Netsdb.Conv2d
variable {V : Type}

/-! ## Kernels -/

/-- `matrices`: by channel and position -/
structure Kernel (V : Type) where
  index : ℕ
  x : ℕ
  y : ℕ
  z : ℕ
  matrices : ℕ → ℕ → V

/-- where the last chunk is full, the next one gets the kernel's row as `block_row` too -/
def KernelToChunks.getProjection [Zero V] (blockY : ℕ) (checkMe : Kernel V) : List (ImageChunk V) :=
  let s := (nested checkMe.z (checkMe.x * checkMe.y)).foldl
    (fun s p => s.push blockY 0 checkMe.index (checkMe.matrices p.1 p.2))
    (RowChunks.start blockY 0 checkMe.index)
  s.finish blockY checkMe.index checkMe.index 0

namespace KernelBiasJoin

/-- only a last block of the kernels is joined -/
def getSelection (in1 in2 : FFMatrixBlock V) : Prop :=
  in1.blockRowIndex = in2.blockRowIndex ∧ in1.isLastColBlock

instance (in1 in2 : FFMatrixBlock V) : Decidable (getSelection in1 in2) :=
  inferInstanceAs (Decidable (_ ∧ _))

/-- `none`: an assertion fails, `pos` is `-1`, or there is no bias for a row -/
def getProjection (in1 in2 : FFMatrixBlock V) : Option (FFMatrixBlock V) :=
  if in2.colNums = 1 ∧ in2.totalCols = 1 ∧ in1.totalRows = in2.rowNums ∧ in2.isLastColBlock then
    match in1.totalCols % in1.colNums with
    | 0 => none
    | pos + 1 =>
      (Grid.make in1.rowNums in1.colNums fun i j =>
        if j = pos then Grid.getAt in2.rawData i 0 else Grid.getAt in1.rawData i j).map
      fun rawData => { in1 with rawData }
  else none

/-- the pairs that are joined -/
def pairs (kernels biases : List (FFMatrixBlock V)) : List (FFMatrixBlock V × FFMatrixBlock V) :=
  (kernels ×ˢ biases).filter fun p => getSelection p.1 p.2

def run (kernels biases : List (FFMatrixBlock V)) : Option (List (FFMatrixBlock V)) :=
  (pairs kernels biases).mapM fun p => getProjection p.1 p.2

end KernelBiasJoin

/-! ## The whole way -/

/-- the kernels, and how their matrix and the bias are blocked -/
structure KernelPlan where
  numKernels : ℕ
  x : ℕ
  y : ℕ
  z : ℕ
  blockX : ℕ
  blockY : ℕ
  padding : Bool
  biasPadding : Bool
  blockX_pos : 0 < blockX
  blockY_pos : 0 < blockY

namespace KernelPlan
variable (p : KernelPlan)

/-- the flattened size of a kernel -/
def size : ℕ := p.z * (p.x * p.y)

/-- kernel `q` has the values `K q` -/
def kernel (K : ℕ → ℕ → ℕ → V) (q : ℕ) : Kernel V := ⟨q, p.x, p.y, p.z, K q⟩

def chunks [Zero V] (K : ℕ → ℕ → ℕ → V) : List (ImageChunk V) :=
  (List.range p.numKernels).flatMap fun q => KernelToChunks.getProjection p.blockY (p.kernel K q)

/-- flattened kernels, followed by the bias -/
def withBias (K : ℕ → ℕ → ℕ → V) (bias : ℕ → V) (q c : ℕ) : V :=
  if c < p.size then K q (c / (p.x * p.y)) (c % (p.x * p.y)) else bias q

/-- the kernels and the bias come out as their matrix -/
def Works (V : Type) [Zero V] : Prop :=
  ∀ (K : ℕ → ℕ → ℕ → V) (bias : ℕ → V) (blocks : List (ℕ × ImageBlock V)),
    ImageChunksToBlock.Aggregates p.blockX (p.chunks K) blocks →
    ∀ biases, Represents p.blockX 1 p.biasPadding p.numKernels 1 (fun q _ => bias q) biases →
    ∃ kernels out,
      (blocks.mapM fun e => ImageBlockToMatrix.getProjection p.blockX p.blockY p.padding p.numKernels
        (p.size + 1) e.2) = some kernels ∧
      KernelBiasJoin.run kernels biases = some out ∧
      Represents p.blockX p.blockY p.padding p.numKernels (p.size + 1) (p.withBias K bias) out

end KernelPlan

/-! ## The join -/

namespace KernelBiasJoin
variable {in1 in2 m : FFMatrixBlock V}

/-- a join that goes through -/
theorem getProjection_cases (h : getProjection in1 in2 = some m) :
    in2.colNums = 1 ∧ in1.totalRows = in2.rowNums ∧ m.index = in1.index ∧ m.rowNums = in1.rowNums ∧
      m.colNums = in1.colNums ∧
      ∃ pos, in1.totalCols % in1.colNums = pos + 1 ∧ ∀ i < in1.rowNums, ∀ j < in1.colNums,
        ∃ v, Grid.getAt m.rawData i j = some v ∧
          (if j = pos then Grid.getAt in2.rawData i 0 else Grid.getAt in1.rawData i j) = some v := by
  unfold getProjection at h
  split at h
  · next hassert =>
    split at h
    · cases h
    · next pos hpos =>
      obtain ⟨rawData, hmake, rfl⟩ := Option.map_eq_some_iff.mp h
      refine ⟨hassert.1, hassert.2.2.1, rfl, rfl, rfl, pos, hpos, fun i hi j hj => ?_⟩
      exact Grid.getAt_make hmake hi hj
  · cases h

theorem mem_pairs {kernels biases : List (FFMatrixBlock V)} {p : FFMatrixBlock V × FFMatrixBlock V} :
    p ∈ pairs kernels biases ↔ (p.1 ∈ kernels ∧ p.2 ∈ biases) ∧ getSelection p.1 p.2 := by
  rw [pairs, List.mem_filter, List.mem_product, decide_eq_true_iff]

end KernelBiasJoin

/-! ## What has to be so -/

namespace KernelPlan
variable {p : KernelPlan} [Zero V]

/-- the first block of the result has been joined -/
theorem first_block {K : ℕ → ℕ → ℕ → V} {bias : ℕ → V} {kernels biases out : List (FFMatrixBlock V)}
    {blocks : List (ℕ × ImageBlock V)} (hf : 0 < p.numKernels)
    (hb : Represents p.blockX 1 p.biasPadding p.numKernels 1 (fun q _ => bias q) biases)
    (hk : (blocks.mapM fun e => ImageBlockToMatrix.getProjection p.blockX p.blockY p.padding
      p.numKernels (p.size + 1) e.2) = some kernels)
    (hrun : KernelBiasJoin.run kernels biases = some out)
    (hout : Represents p.blockX p.blockY p.padding p.numKernels (p.size + 1) (p.withBias K bias) out) :
    (if p.biasPadding then p.blockX else min p.blockX p.numKernels) = p.numKernels ∧
      (if p.padding then p.blockX else min p.blockX p.numKernels) ≤ p.numKernels ∧
      ∃ pos, (p.size + 1) % (if p.padding then p.blockY else min p.blockY (p.size + 1)) = pos + 1 ∧
        p.withBias K bias 0 pos = bias 0 := by
  have hx := p.blockX_pos
  have hy := p.blockY_pos
  obtain ⟨m, hm, hi, hj⟩ := hout.exists_block (i := 0) (j := 0) (by omega) (by omega)
  have hrows := hout.rowNums m hm
  have hcols := hout.colNums m hm
  rw [hi, Nat.zero_mul, Nat.sub_zero] at hrows
  rw [hj, Nat.zero_mul, Nat.sub_zero] at hcols
  obtain ⟨⟨in1, in2⟩, hp, hproj⟩ := Grid.mem_mapM hrun hm
  change KernelBiasJoin.getProjection in1 in2 = some m at hproj
  obtain ⟨⟨hin1, hin2⟩, hsel⟩ := KernelBiasJoin.mem_pairs.mp hp
  dsimp only at hin1 hin2 hsel
  obtain ⟨hone, htotal, hindex, hrow, hcol, pos, hpos, hentry⟩ := KernelBiasJoin.getProjection_cases hproj
  obtain ⟨e, -, he⟩ := Grid.mem_mapM hk hin1
  obtain ⟨-, -, -, htr, htc, -⟩ := ImageBlockToMatrix.getProjection_cases he
  have hi2 : in2.blockRowIndex = 0 := by
    rw [← hsel.1, ← (Prod.mk.inj hindex).1, hi]
  have hbrows := hb.rowNums in2 hin2
  rw [hi2, Nat.zero_mul, Nat.sub_zero, ← htotal, htr] at hbrows
  have hcolpos : 0 < in1.colNums := by
    rw [← hcol, hcols]
    split <;> omega
  have hlt : pos < in1.colNums :=
    lt_of_lt_of_le (Nat.lt_succ_self pos) (hpos.symm.trans_le (Nat.mod_lt _ hcolpos).le)
  refine ⟨hbrows.symm, ?_, pos, ?_, ?_⟩
  · -- there is a bias for each row
    rw [← hrows, hrow]
    by_contra hmany
    obtain ⟨v, -, hv⟩ := hentry p.numKernels (by omega) pos hlt
    rw [if_pos rfl] at hv
    obtain ⟨w, hw, -⟩ := Grid.getAt_eq.mp hv
    obtain ⟨hwlt, -⟩ := List.getElem?_eq_some_iff.mp hw
    rw [(hb.values in2 hin2).rows, ← htotal, htr] at hwlt
    omega
  · rw [← hcols, hcol, ← htc]
    exact hpos
  · have hrowpos : 0 < in1.rowNums := by
      rw [← hrow, hrows]
      split <;> omega
    obtain ⟨v, hm0, hv⟩ := hentry 0 hrowpos pos hlt
    rw [if_pos rfl] at hv
    have hbias := (hb.values in2 hin2).entry 0 0 v hv
    have hval := (hout.values m hm).entry 0 pos v hm0
    have hposlt : pos < p.size + 1 := by
      rw [← htc]
      exact lt_of_lt_of_le (Nat.lt_succ_self pos) (hpos.symm.trans_le (Nat.mod_le _ _))
    have hj2 : in2.blockColIndex = 0 := by
      have := (hb.inside hin2).2
      omega
    rw [hi2, hj2, if_pos (by omega)] at hbias
    rw [hi, hj, if_pos (by omega)] at hval
    simp only [Nat.zero_mul, Nat.zero_add] at hbias hval
    rw [← hval, hbias]

/-- what a kernel without values gives -/
theorem getProjection_empty {p : KernelPlan} (h : p.size = 0) (K : ℕ → ℕ → ℕ → V) (q : ℕ) :
    KernelToChunks.getProjection p.blockY (p.kernel K q) =
      [RowChunks.make p.blockY 0 q 0 [], RowChunks.make p.blockY q q 1 [0]] := by
  have hnil : nested p.z (p.x * p.y) = [] := by
    rw [nested_eq_map, show p.z * (p.x * p.y) = 0 from h]
    rfl
  show RowChunks.finish _ _ _ ((nested p.z (p.x * p.y)).foldl _ _) 0 = _
  rw [hnil]
  exact finish_empty _ _ _ _ _

theorem mem_chunks_empty {p : KernelPlan} (h : p.size = 0) {K : ℕ → ℕ → ℕ → V} {c : ImageChunk V} :
    c ∈ p.chunks K ↔ ∃ q < p.numKernels, c = RowChunks.make p.blockY 0 q 0 [] ∨
      c = RowChunks.make p.blockY q q 1 [0] := by
  rw [chunks, List.mem_flatMap]
  refine exists_congr fun q => ?_
  rw [getProjection_empty h, List.mem_range, List.mem_cons, List.mem_singleton]

/-- three kernels without values: the rows of their bias are not there -/
theorem not_works_empty {p : KernelPlan} (h : p.size = 0) (hpad : p.padding = true)
    (hf : p.numKernels = p.blockX) (hthree : 3 ≤ p.numKernels) (hy : 1 < p.blockY)
    {K : ℕ → ℕ → ℕ → V} {blocks : List (ℕ × ImageBlock V)}
    (ha : ImageChunksToBlock.Aggregates p.blockX (p.chunks K) blocks)
    {kernels : List (FFMatrixBlock V)}
    (hk : (blocks.mapM fun e => ImageBlockToMatrix.getProjection p.blockX p.blockY p.padding
      p.numKernels (p.size + 1) e.2) = some kernels) : False := by
  have hthree' : 3 ≤ p.blockX := hf ▸ hthree
  have hmem : ∀ q < p.numKernels, RowChunks.make p.blockY q q 1 [0] ∈ p.chunks K := fun q hq =>
    (mem_chunks_empty h).mpr ⟨q, hq, .inr rfl⟩
  have hkey : ∀ q < 2, ImageChunksToBlock.getKeyProjection p.blockX
      (RowChunks.make p.blockY q q 1 [(0 : V)]) = 1 := by
    intro q hq
    show (q + q) / p.blockX * 10000 + 1 = 1
    rw [Nat.div_eq_of_lt (by omega)]
  obtain ⟨b, hb⟩ := ha.exists_output (hmem 0 (by omega))
  rw [hkey 0 (by omega)] at hb
  have hg := gathers_of_merged (ha.merged _ hb)
  have hgroup : ∀ c ∈ (p.chunks K).filter fun a =>
      ImageChunksToBlock.getKeyProjection p.blockX a = 1,
      ∃ q < p.numKernels, c = RowChunks.make p.blockY q q 1 [0] ∧ (q + q) / p.blockX = 0 := by
    intro c hc
    obtain ⟨hin, hone⟩ := List.mem_filter.mp hc
    have hone := of_decide_eq_true hone
    obtain ⟨q, hq, rfl | rfl⟩ := (mem_chunks_empty h).mp hin
    · change (q + 0) / p.blockX * 10000 + 0 = 1 at hone
      omega
    · change (q + q) / p.blockX * 10000 + 1 = 1 at hone
      exact ⟨q, hq, rfl, by omega⟩
  obtain ⟨m, -, hm⟩ := Grid.mapM_mem hk hb
  obtain ⟨-, hrow, hcol, -, -, hdata⟩ := ImageBlockToMatrix.getProjection_cases hm
  rw [ImageBlockToMatrix.realBlockX, hpad, if_pos rfl] at hrow
  rw [ImageBlockToMatrix.realBlockY, hpad, if_pos rfl] at hcol
  obtain ⟨v, -, hv⟩ := hdata 1 (by omega) 0 (by omega)
  -- two rows, and row 1 is not one of them
  have hrows : ∀ q < 2, q + q ∈ b.chunks.map Prod.fst := fun q hq =>
    hg.rows _ (List.mem_filter.mpr ⟨hmem q (by omega), decide_eq_true (hkey q hq)⟩)
  have htwo : 1 < b.chunks.length := by
    by_contra hle
    obtain ⟨e, he, h0⟩ := List.mem_map.mp (hrows 0 (by omega))
    obtain ⟨e', he', h2⟩ := List.mem_map.mp (hrows 1 (by omega))
    rcases hc : b.chunks with _ | ⟨x, _ | ⟨x', l⟩⟩
    · rw [hc] at he
      cases he
    · rw [hc] at he he'
      rw [List.mem_singleton.mp he] at h0
      rw [List.mem_singleton.mp he', h0] at h2
      omega
    · rw [hc] at hle
      exact hle (by simp)
  obtain ⟨c, hc, hI, -, hW⟩ := hg.first
  obtain ⟨q, -, rfl, hq⟩ := hgroup c hc
  have hnone : b.chunks.lookup (b.blockXIndex * b.blockXSize + 1) = none := by
    rw [Table.lookup_eq_none]
    intro e he heq
    obtain ⟨c', hc', rfl⟩ := hg.entries e he
    obtain ⟨q', -, rfl, -⟩ := hgroup c' hc'
    change q' + q' = _ at heq
    rw [hI, show (RowChunks.make p.blockY q q 1 [(0 : V)]).getChunkActualRowIndex = q + q from rfl, hq]
      at heq
    omega
  rw [ImageBlockToMatrix.data, if_neg, hnone] at hv
  · cases hv
  · rw [not_or, not_le, not_le, hW]
    exact ⟨htwo, Nat.zero_lt_one⟩

/-! ## One block -/

/-- the kernels have one block in the first column, and room for the bias in it -/
structure OneBlock (p : KernelPlan) (K : ℕ → ℕ → ℕ → V) (kernels : List (FFMatrixBlock V))
    (m : FFMatrixBlock V) : Prop where
  only : (kernels.filter fun k => k.blockColIndex = 0) = [m]
  totals : ∀ k ∈ kernels, k.totalRows = p.numKernels ∧ k.totalCols = p.size + 1 ∧ k.colNums = p.blockY
  row : m.blockRowIndex = 0
  rowNums : m.rowNums = p.numKernels
  values : Grid.Shaped p.numKernels p.blockY (fun x y v => y ≠ p.size → v =
    if y < p.size then K x (y / (p.x * p.y)) (y % (p.x * p.y)) else 0) m.rawData

section
variable {K : ℕ → ℕ → ℕ → V} {bias : ℕ → V} {kernels biases : List (FFMatrixBlock V)}
  {m b : FFMatrixBlock V}

theorem OneBlock.mem (h : OneBlock p K kernels m) : m ∈ kernels ∧ m.blockColIndex = 0 := by
  have hm : m ∈ kernels.filter fun k => k.blockColIndex = 0 := h.only ▸ List.mem_singleton_self m
  obtain ⟨hin, hcol⟩ := List.mem_filter.mp hm
  exact ⟨hin, of_decide_eq_true hcol⟩

/-- only this block is joined -/
theorem OneBlock.pairs (h : OneBlock p K kernels m) (hy : p.size + 1 ≤ p.blockY)
    (hb : b.blockRowIndex = 0) : KernelBiasJoin.pairs kernels [b] = [(m, b)] := by
  have hsel : ∀ k ∈ kernels, KernelBiasJoin.getSelection k b ↔
      k.blockRowIndex = 0 ∧ k.blockColIndex = 0 := by
    intro k hk
    obtain ⟨-, htotal, hcol⟩ := h.totals k hk
    rw [KernelBiasJoin.getSelection, FFMatrixBlock.isLastColBlock, htotal, hcol,
      Binary32.ceilDiv_of_le (Nat.succ_pos _) hy, hb]
    refine and_congr_right fun _ => ?_
    omega
  have hprod : kernels ×ˢ [b] = kernels.map fun k => (k, b) := by
    exact List.map_eq_flatMap.symm
  rw [KernelBiasJoin.pairs, hprod, List.filter_map]
  have hfilter : (kernels.filter fun k => decide (KernelBiasJoin.getSelection k b)) = [m] := by
    have hboth : (kernels.filter fun k => decide (KernelBiasJoin.getSelection k b)) =
        (kernels.filter fun k => k.blockColIndex = 0).filter fun k => k.blockRowIndex = 0 := by
      rw [List.filter_filter]
      refine List.filter_congr fun k hk => ?_
      rw [decide_eq_decide.mpr (hsel k hk), Bool.decide_and]
    rw [hboth, h.only, List.filter_singleton, h.row]
    rfl
  exact congrArg (List.map _) hfilter

theorem OneBlock.run (h : OneBlock p K kernels m) (hpad : p.padding = true) (hf : 0 < p.numKernels)
    (hx : p.numKernels = p.blockX) (hy : p.size + 1 < p.blockY)
    (hb : Represents p.blockX 1 p.biasPadding p.numKernels 1 (fun q _ => bias q) biases) :
    ∃ out, KernelBiasJoin.run kernels biases = some out ∧
      Represents p.blockX p.blockY p.padding p.numKernels (p.size + 1) (p.withBias K bias) out := by
  obtain ⟨b, rfl, hi, hj⟩ := hb.single hf Nat.zero_lt_one hx.le (Nat.le_refl 1)
  have hmem := List.mem_singleton_self b
  obtain ⟨hin, hcol0⟩ := h.mem
  obtain ⟨hrows, hcols, hcolNums⟩ := h.totals m hin
  have hbrows : b.rowNums = p.numKernels := by
    rw [hb.rowNums b hmem, hi, ← hx]
    split <;> omega
  have hbcols : b.colNums = 1 := by
    rw [hb.colNums b hmem, hj]
    split <;> rfl
  have hassert : b.colNums = 1 ∧ b.totalCols = 1 ∧ m.totalRows = b.rowNums ∧ b.isLastColBlock := by
    refine ⟨hbcols, (hb.totals b hmem).2, hrows.trans hbrows.symm, ?_⟩
    rw [FFMatrixBlock.isLastColBlock, hj, (hb.totals b hmem).2, hbcols,
      Binary32.ceilDiv_of_le Nat.zero_lt_one (Nat.le_refl 1)]
    rfl
  have hdata : ∀ i < m.rowNums, ∀ j < m.colNums, ∃ v,
      (if j = p.size then Grid.getAt b.rawData i 0 else Grid.getAt m.rawData i j) = some v ∧
        v = if i < p.numKernels ∧ j < p.size + 1 then p.withBias K bias i j else 0 := by
    intro i hi' j hj'
    rw [h.rowNums] at hi'
    rw [hcolNums] at hj'
    by_cases hsize : j = p.size
    · obtain ⟨v, hv, hval⟩ := (hb.values b hmem).getAt (hbrows ▸ hi') (hbcols ▸ Nat.zero_lt_one)
      rw [hi, hj, if_pos (by omega)] at hval
      refine ⟨v, (if_pos hsize).trans hv, ?_⟩
      rw [if_pos (by omega), withBias, if_neg (by omega), hval]
      simp only [Nat.zero_mul, Nat.zero_add]
    · obtain ⟨v, hv, hval⟩ := h.values.getAt hi' hj'
      refine ⟨v, (if_neg hsize).trans hv, ?_⟩
      rw [hval hsize, withBias]
      by_cases hlt : j < p.size
      · rw [if_pos hlt, if_pos (by omega), if_pos hlt]
      · rw [if_neg hlt, if_neg (by omega)]
  obtain ⟨g, hg, hshape⟩ := Grid.make_spec hdata
  have hproj : KernelBiasJoin.getProjection m b = some { m with rawData := g } := by
    have hpos : m.totalCols % m.colNums = p.size + 1 := by
      rw [hcols, hcolNums, Nat.mod_eq_of_lt hy]
    rw [KernelBiasJoin.getProjection, if_pos hassert, hpos]
    exact congrArg (Option.map _) hg
  refine ⟨[{ m with rawData := g }], ?_, ?_⟩
  · rw [KernelBiasJoin.run, h.pairs hy.le hi, List.mapM_cons, hproj]
    rfl
  · have hindex : m.index = (0, 0) := by rw [FFMatrixBlock.index, h.row, hcol0]
    refine ⟨List.nodup_singleton _, fun i j => ?_, ?_, ?_, ?_, ?_⟩
    · show (i, j) ∈ [m.index] ↔ _
      rw [hindex, List.mem_singleton, Prod.mk.injEq]
      constructor
      · rintro ⟨rfl, rfl⟩
        omega
      · rintro ⟨hi, hj⟩
        exact ⟨eq_zero_of_mul_lt hi hx.le, eq_zero_of_mul_lt hj hy.le⟩
    all_goals
      intro k hk
      rw [List.mem_singleton.mp hk]
    · exact ⟨hrows, hcols⟩
    · show m.rowNums = _
      rw [hpad, if_pos rfl, h.rowNums, hx]
    · show m.colNums = _
      rw [hpad, if_pos rfl, hcolNums]
    · show Grid.Shaped m.rowNums m.colNums (fun x y v => v =
        if m.blockRowIndex * _ + x < _ ∧ m.blockColIndex * _ + y < _ then
          p.withBias K bias (m.blockRowIndex * _ + x) (m.blockColIndex * _ + y) else 0) g
      rw [h.row, hcol0]
      simp only [Nat.zero_mul, Nat.zero_add]
      exact hshape

end

/-! ## The kernels in one block -/

/-- a kernel that fits into one chunk with its bias -/
theorem getProjection_one (hsize : 0 < p.size) (hy : p.size + 1 < p.blockY) (K : ℕ → ℕ → ℕ → V) (q : ℕ) :
    KernelToChunks.getProjection p.blockY (p.kernel K q) =
      [RowChunks.make p.blockY 0 q 0 ((List.range (p.size + 1)).map (p.withBias K (fun _ => 0) q))] := by
  have hrow : ((List.range (p.size + 1)).map (p.withBias K (fun _ => 0) q)) =
      ((List.range p.size).map fun c => K q (c / (p.x * p.y)) (c % (p.x * p.y))) ++ [0] := by
    rw [List.range_succ, List.map_append, List.map_singleton, withBias, if_neg (Nat.lt_irrefl _)]
    congr 1
    exact List.map_congr_left fun c hc => if_pos (List.mem_range.mp hc)
  have hpushed := pushed_run p.blockY_pos 0 q
    ((List.range p.size).map fun c => K q (c / (p.x * p.y)) (c % (p.x * p.y)))
  rw [List.foldl_map] at hpushed
  have hlen : ((List.range p.size).map fun c => K q (c / (p.x * p.y)) (c % (p.x * p.y))).length =
      p.size := by rw [List.length_map, List.length_range]
  have hfit := hpushed.finish_fits p.blockY_pos (by rw [hlen, Nat.mod_eq_of_lt (by omega)]; omega) q 0
  rw [hlen, Nat.div_eq_of_lt (by omega), ← hrow] at hfit
  show RowChunks.finish _ _ _ ((nested p.z (p.x * p.y)).foldl _ _) 0 = _
  rw [nested_eq_map, List.foldl_map]
  refine hfit.trans ?_
  show [piece _ _ _ _ 0] = _
  rw [piece, window, Nat.zero_mul, List.drop_zero, List.take_of_length_le]
  rw [List.length_map, List.length_range]
  exact hy.le

/-- kernels with values -/
theorem oneBlock_of_pos (hsize : 0 < p.size) (hy : p.size + 1 < p.blockY) (hpad : p.padding = true)
    (hf : 0 < p.numKernels) (hx : p.numKernels = p.blockX) {K : ℕ → ℕ → ℕ → V}
    {blocks : List (ℕ × ImageBlock V)}
    (ha : ImageChunksToBlock.Aggregates p.blockX (p.chunks K) blocks) :
    ∃ kernels m, (blocks.mapM fun e => ImageBlockToMatrix.getProjection p.blockX p.blockY p.padding
        p.numKernels (p.size + 1) e.2) = some kernels ∧ OneBlock p K kernels m := by
  have hmem : ∀ c ∈ p.chunks K, ∃ q < p.numKernels, c = RowChunks.make p.blockY 0 q 0
      ((List.range (p.size + 1)).map (p.withBias K (fun _ => 0) q)) := by
    intro c hc
    obtain ⟨q, hq, hc⟩ := List.mem_flatMap.mp hc
    rw [getProjection_one hsize hy] at hc
    exact ⟨q, List.mem_range.mp hq, List.mem_singleton.mp hc⟩
  have hcuts : Cuts p.blockY p.numKernels (p.size + 1) (p.withBias K fun _ => 0) (p.chunks K) := by
    refine ⟨fun c hc => ?_, fun c hc => ?_, fun r hr j hj => ?_⟩
    · obtain ⟨q, hq, rfl⟩ := hmem c hc
      exact ⟨hq, by show 0 * _ < _; omega⟩
    · obtain ⟨q, hq, rfl⟩ := hmem c hc
      show _ = (List.range (min p.blockY (p.size + 1 - 0 * p.blockY))).map fun y =>
        p.withBias K (fun _ => 0) (q + 0) (0 * p.blockY + y)
      rw [Nat.zero_mul, Nat.sub_zero, Nat.min_eq_right hy.le]
      simp only [Nat.zero_add, Nat.add_zero]
      rfl
    · refine ⟨RowChunks.make p.blockY 0 r 0 ((List.range (p.size + 1)).map
        (p.withBias K (fun _ => 0) r)), List.mem_flatMap.mpr ⟨r, List.mem_range.mpr hr, ?_⟩,
        Nat.add_zero r, (eq_zero_of_mul_lt hj hy.le).symm⟩
      rw [getProjection_one hsize hy]
      exact List.mem_singleton_self _
  have hkeys : KeysApart p.blockX (p.chunks K) := by
    intro c hc c' hc' heq
    obtain ⟨q, -, rfl⟩ := hmem c hc
    obtain ⟨q', -, rfl⟩ := hmem c' hc'
    change (q + 0) / p.blockX * 10000 + 0 = (q' + 0) / p.blockX * 10000 + 0 at heq
    refine ⟨?_, rfl⟩
    show (q + 0) / p.blockX = (q' + 0) / p.blockX
    omega
  obtain ⟨kernels, hk, hr⟩ := hcuts.represents p.blockX_pos hkeys ha p.padding
  obtain ⟨m, rfl, hi, hj⟩ := hr.single hf (Nat.succ_pos _) hx.le hy.le
  have hm := List.mem_singleton_self m
  have hrows := hr.rowNums m hm
  have hcols := hr.colNums m hm
  rw [hpad, if_pos rfl] at hrows hcols
  refine ⟨[m], m, hk, ?_, fun k hk => ?_, hi, hrows.trans hx.symm, ?_⟩
  · rw [List.filter_singleton, hj]
    rfl
  · rw [List.mem_singleton.mp hk]
    exact ⟨(hr.totals m hm).1, (hr.totals m hm).2, hcols⟩
  · have hv := hr.values m hm
    rw [hrows, hcols, hi, hj, ← hx] at hv
    refine ⟨hv.rows, hv.cols, fun x y v hg hne => ?_⟩
    have hval := hv.entry x y v hg
    simp only [Nat.zero_mul, Nat.zero_add] at hval
    have hxlt : x < p.numKernels := by
      obtain ⟨row, hrow, -⟩ := Grid.getAt_eq.mp hg
      exact hv.rows ▸ (List.getElem?_eq_some_iff.mp hrow).1
    rw [hval, withBias]
    by_cases hlt : y < p.size
    · rw [if_pos ⟨hxlt, by omega⟩, if_pos hlt]
    · rw [if_neg (fun h => hne (by omega)), if_neg hlt]

/-! ## Kernels without values -/

/-- a block of one or two kernels without values -/
structure Blank (p : KernelPlan) (key : ℕ) (m : FFMatrixBlock V) : Prop where
  key : key = m.blockRowIndex * 10000 + m.blockColIndex
  row : m.blockColIndex = 0 → m.blockRowIndex = 0
  totals : m.totalRows = p.numKernels ∧ m.totalCols = p.size + 1
  rowNums : m.rowNums = p.blockX
  colNums : m.colNums = p.blockY
  values : Grid.Shaped p.blockX p.blockY (fun _ _ v => v = 0) m.rawData

theorem data_blank (h : p.size = 0) (hf : p.numKernels = p.blockX) (htwo : p.numKernels ≤ 2)
    {K : ℕ → ℕ → ℕ → V} {key : ℕ} {b : ImageBlock V}
    (hg : Gathers p.blockX ((p.chunks K).filter fun a =>
      ImageChunksToBlock.getKeyProjection p.blockX a = key) b) (x y : ℕ) :
    ImageBlockToMatrix.data b x y = some 0 := by
  rw [ImageBlockToMatrix.data]
  split
  · rfl
  · next hin =>
    rw [not_or, not_le, not_le] at hin
    obtain ⟨c, hc, hI, -, hW⟩ := hg.first
    obtain ⟨hcin, hckey⟩ := List.mem_filter.mp hc
    have hckey := of_decide_eq_true hckey
    obtain ⟨q, hq, rfl | rfl⟩ := (mem_chunks_empty h).mp hcin
    · -- no value is there
      rw [hW] at hin
      exact absurd hin.2 (Nat.not_lt_zero _)
    · rw [hW] at hin
      have hy : y = 0 := Nat.lt_one_iff.mp hin.2
      change (q + q) / p.blockX * 10000 + 1 = key at hckey
      -- the row is alone
      have hrow : ∀ e ∈ b.chunks, e = (q + q, [0]) := by
        intro e he
        obtain ⟨c', hc', rfl⟩ := hg.entries e he
        obtain ⟨hin', hkey'⟩ := List.mem_filter.mp hc'
        have hkey' := of_decide_eq_true hkey'
        obtain ⟨q', hq', rfl | rfl⟩ := (mem_chunks_empty h).mp hin'
        · change (q' + 0) / p.blockX * 10000 + 0 = key at hkey'
          omega
        · change (q' + q') / p.blockX * 10000 + 1 = key at hkey'
          have heq : q' = q := by
            rcases (show p.blockX = 1 ∨ p.blockX = 2 by omega) with h1 | h2
            · omega
            · rw [h2] at hckey hkey'
              omega
          rw [heq]
          rfl
      have hone : b.chunks = [(q + q, [0])] := by
        have hmem := List.getElem_mem (h := (Nat.zero_lt_of_lt hin.1 : 0 < b.chunks.length))
        refine eq_singleton_of_nodup_map (f := Prod.fst) hg.keyed (hrow _ hmem ▸ hmem) fun e he => ?_
        rw [hrow e he]
      have hx : x = 0 := by
        have hlt := hin.1
        rw [ImageBlock.getActualBlockSize, hone] at hlt
        exact Nat.lt_one_iff.mp hlt
      have hoffset : b.blockXIndex * b.blockXSize + x = q + q := by
        rw [hI, hg.size_eq, hx]
        show (q + q) / p.blockX * p.blockX + 0 = q + q
        rcases (show p.blockX = 1 ∨ p.blockX = 2 by omega) with h1 | h2
        · rw [h1]
          omega
        · rw [h2]
          omega
      rw [hoffset, hone, hy, List.lookup_cons_self]
      rfl

theorem getProjection_blank (h : p.size = 0) (hpad : p.padding = true) (hf : p.numKernels = p.blockX)
    (htwo : p.numKernels ≤ 2) {K : ℕ → ℕ → ℕ → V} {key : ℕ} {b : ImageBlock V}
    (hg : Gathers p.blockX ((p.chunks K).filter fun a =>
      ImageChunksToBlock.getKeyProjection p.blockX a = key) b) :
    ∃ m, ImageBlockToMatrix.getProjection p.blockX p.blockY p.padding p.numKernels (p.size + 1) b =
      some m ∧ Blank p key m := by
  have hdata : ∀ x < p.blockX, ∀ y < p.blockY, ∃ v, ImageBlockToMatrix.data b x y = some v ∧ v = 0 :=
    fun x _ y _ => ⟨0, data_blank h hf htwo hg x y, rfl⟩
  obtain ⟨g, hg', hshape⟩ := Grid.make_spec hdata
  have hproj : ImageBlockToMatrix.getProjection p.blockX p.blockY p.padding p.numKernels (p.size + 1) b =
      some ⟨b.blockXIndex, b.blockYIndex, p.blockX, p.blockY, p.numKernels, p.size + 1, g⟩ := by
    rw [ImageBlockToMatrix.getProjection, if_pos (.inl hpad), ImageBlockToMatrix.realBlockX,
      ImageBlockToMatrix.realBlockY, if_pos hpad, if_pos hpad, hg']
    rfl
  obtain ⟨c, hc, hI, hJ, -⟩ := hg.first
  obtain ⟨hcin, hckey⟩ := List.mem_filter.mp hc
  refine ⟨_, hproj, ?_, fun h0 => ?_, ⟨rfl, rfl⟩, rfl, rfl, hshape⟩
  · show key = b.blockXIndex * 10000 + b.blockYIndex
    rw [hI, hJ]
    exact (of_decide_eq_true hckey).symm
  · change b.blockYIndex = 0 at h0
    show b.blockXIndex = 0
    rw [hJ] at h0
    rw [hI]
    obtain ⟨q, hq, rfl | rfl⟩ := (mem_chunks_empty h).mp hcin
    · exact Nat.div_eq_of_lt (hf ▸ hq)
    · exact absurd h0 Nat.one_ne_zero

theorem oneBlock_of_empty (h : p.size = 0) (hpad : p.padding = true) (hf : 0 < p.numKernels)
    (hx : p.numKernels = p.blockX) (htwo : p.numKernels ≤ 2) {K : ℕ → ℕ → ℕ → V}
    {blocks : List (ℕ × ImageBlock V)}
    (ha : ImageChunksToBlock.Aggregates p.blockX (p.chunks K) blocks) :
    ∃ kernels m, (blocks.mapM fun e => ImageBlockToMatrix.getProjection p.blockX p.blockY p.padding
        p.numKernels (p.size + 1) e.2) = some kernels ∧ OneBlock p K kernels m := by
  obtain ⟨kernels, hk, hall⟩ := Grid.mapM_spec (l := blocks) (Q := fun e m => Blank p e.1 m)
    fun e he => getProjection_blank h hpad hx htwo (gathers_of_merged (ha.merged e he))
  have hto := Grid.forall₂_right hall
  obtain ⟨b, hb⟩ := ha.exists_output ((mem_chunks_empty h).mpr ⟨0, hf, .inl rfl⟩)
  obtain ⟨m, hm, hblank⟩ := Grid.forall₂_left hall _ hb
  have hkey : m.blockRowIndex * 10000 + m.blockColIndex = 0 := by
    rw [← hblank.key]
    show (0 + 0) / p.blockX * 10000 + 0 = 0
    rw [Nat.zero_div]
  have hnodup : (kernels.map FFMatrixBlock.index).Nodup := by
    have hcode : blocks.map Prod.fst =
        (kernels.map FFMatrixBlock.index).map fun p => p.1 * 10000 + p.2 := by
      rw [List.map_map, ← List.forall₂_eq_eq_eq, List.forall₂_map_left_iff, List.forall₂_map_right_iff]
      exact hall.imp fun e m hm => hm.key
    have hkeyed := ha.keyed
    rw [hcode] at hkeyed
    exact hkeyed.of_map
  refine ⟨kernels, m, hk, ?_, fun k hk => ?_, by omega, hblank.rowNums.trans hx.symm, ?_⟩
  · refine eq_singleton_of_nodup_map (f := FFMatrixBlock.index)
      (hnodup.sublist (List.filter_sublist.map _)) ?_ fun k hk => ?_
    · exact List.mem_filter.mpr ⟨hm, decide_eq_true (by omega)⟩
    · obtain ⟨hin, hcol⟩ := List.mem_filter.mp hk
      have hcol := of_decide_eq_true hcol
      obtain ⟨e, -, hblank'⟩ := hto k hin
      rw [FFMatrixBlock.index, FFMatrixBlock.index, hblank'.row hcol, hcol]
      refine Prod.ext ?_ ?_ <;> show 0 = _ <;> omega
  · obtain ⟨e, -, hblank'⟩ := hto k hk
    exact ⟨hblank'.totals.1, hblank'.totals.2, hblank'.colNums⟩
  · rw [hx]
    refine ⟨hblank.values.rows, hblank.values.cols, fun x y v hv _ => ?_⟩
    rw [if_neg (by omega)]
    exact hblank.values.entry x y v hv

/-! ## When it works -/

theorem works_none (h : p.numKernels = 0) : p.Works V := by
  intro K bias blocks ha biases hb
  have hchunks : p.chunks K = [] := by
    rw [chunks, h]
    rfl
  rw [hchunks] at ha
  rw [Aggregation.Aggregates.eq_nil ha, h]
  exact ⟨[], [], rfl, rfl, represents_nil _ _ _ _ _⟩

/-- one block, with padding -/
def Fits (p : KernelPlan) : Prop :=
  p.numKernels = 0 ∨ p.padding = true ∧ p.numKernels = p.blockX ∧ p.size + 1 < p.blockY ∧
    (0 < p.size ∨ p.numKernels ≤ 2)

instance (p : KernelPlan) : Decidable p.Fits := inferInstanceAs (Decidable (_ ∨ _))

theorem works_of_fits (h : p.Fits) : p.Works V := by
  rcases h with hnone | ⟨hpad, hx, hy, hsize⟩
  · exact works_none hnone
  intro K bias blocks ha biases hb
  have hf : 0 < p.numKernels := hx ▸ p.blockX_pos
  have hone : ∃ kernels m, (blocks.mapM fun e => ImageBlockToMatrix.getProjection p.blockX p.blockY
      p.padding p.numKernels (p.size + 1) e.2) = some kernels ∧ OneBlock p K kernels m := by
    rcases Nat.eq_zero_or_pos p.size with h0 | hpos
    · exact oneBlock_of_empty h0 hpad hf hx (hsize.resolve_left (by omega)) ha
    · exact oneBlock_of_pos hpos hy hpad hf hx ha
  obtain ⟨kernels, m, hk, hone⟩ := hone
  obtain ⟨out, hrun, hout⟩ := hone.run hpad hf hx hy hb
  exact ⟨kernels, out, hk, hrun, hout⟩

theorem fits_of_works [Nontrivial V] (h : p.Works V) : p.Fits := by
  rcases Nat.eq_zero_or_pos p.numKernels with hnone | hf
  · exact .inl hnone
  obtain ⟨v, hv⟩ := exists_ne (0 : V)
  -- kernels of zeros, and a bias that is none
  obtain ⟨blocks, ha⟩ := Aggregation.exists_aggregates
    (ImageChunksToBlock.getKeyProjection p.blockX) (ImageBlock.ofChunk p.blockX) ImageBlock.plus
    (p.chunks fun _ _ _ => (0 : V))
  have hb := represents_cut p.blockX_pos Nat.zero_lt_one p.biasPadding p.numKernels 1
    fun _ _ => v
  obtain ⟨kernels, out, hk, hrun, hout⟩ := h _ (fun _ => v) blocks ha _ hb
  obtain ⟨hbias, hrows, pos, hpos, hval⟩ := first_block hf hb hk hrun hout
  have hx := p.blockX_pos
  have hlast : p.size ≤ pos := by
    by_contra hlt
    rw [withBias, if_pos (by omega)] at hval
    exact hv hval.symm
  have hy := p.blockY_pos
  cases hpad : p.padding with
  | false =>
    rw [hpad] at hpos
    have hmod := Nat.mod_lt (p.size + 1) (y := min p.blockY (p.size + 1)) (by omega)
    rw [if_neg Bool.false_ne_true] at hpos
    have hself : (p.size + 1) % (p.size + 1) = 0 := Nat.mod_self _
    rcases Nat.lt_or_ge p.blockY (p.size + 1) with hlt | hge
    · omega
    · rw [Nat.min_eq_right hge] at hpos
      omega
  | true =>
    rw [hpad, if_pos rfl] at hpos hrows
    have hfull : p.numKernels = p.blockX := by
      split at hbias <;> omega
    have hmod := Nat.mod_lt (p.size + 1) hy
    have hfit : p.size + 1 < p.blockY := by
      by_contra hge
      rcases Nat.lt_or_ge p.blockY (p.size + 1) with hlt | hle
      · omega
      · rw [show p.size + 1 = p.blockY by omega, Nat.mod_self] at hpos
        omega
    refine .inr ⟨hpad, hfull, hfit, ?_⟩
    by_contra hnot
    exact not_works_empty (by omega) hpad hfull (by omega) (by omega) ha hk

/-- **The kernels and their bias come out as their matrix just where it is one block, with padding:
there are as many kernels as the block has rows, and the block has more columns than the matrix.** -/
theorem works_iff [Nontrivial V] : p.Works V ↔ p.Fits := ⟨fits_of_works, works_of_fits⟩

/-- a plan where the flattened size is that of a block -/
def fullBlock : KernelPlan :=
  { numKernels := 2, x := 2, y := 2, z := 1, blockX := 2, blockY := 4, padding := true
    biasPadding := true, blockX_pos := Nat.two_pos, blockY_pos := by decide }

theorem works_iff_fullBlock : fullBlock.Works ℤ ↔ fullBlock.Fits := works_iff

/-- the join has only the block that the bias is in -/
theorem works_not_always : ¬ ∀ p : KernelPlan, p.Works ℤ := fun h =>
  absurd (fits_of_works (h fullBlock)) (by decide)

end KernelPlan
end Netsdb.Conv2d
