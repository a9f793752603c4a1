import Netsdb.Conv2d.FFMatrixBlock
import Netsdb.Lib.Aggregation
import Netsdb.Lib.FiniteMap
import Netsdb.Lib.Table

/-!
# Chunks of rows, collected to blocks of a matrix (`ImageChunk.h`, `ImageBlock.h`,
`ImageChunksToBlock.h`, `ImageBlockToMatrix.h`)

A chunk is the part of a row of the matrix that is in one block.  Chunks are aggregated to blocks by a key,
and a block of chunks is turned into a block of the matrix.

* `ImageBlock.plus`, `ImageChunksToBlock.getKeyProjection`, `ImageBlockToMatrix.getProjection`   as in
                         the source;
* `Gathers`              what is in a block of chunks, in whatever order they were merged;
* `Cuts`                 chunks that are the rows of a matrix, cut;
* `Cuts.represents`      these come out as the matrix where no two blocks share a key.
-/

set_option linter.unusedSectionVars false

namespace Netsdb.Conv2d
open Aggregation

/-! ## Chunks and blocks -/

/-- `chunk.resize (size)` reserves memory, and the vector is empty -/
structure ImageChunk (V : Type) where
  blockRow : ℕ
  yIndex : ℕ
  chunk : List V
  ySize : ℕ
  blockRowStart : ℕ
deriving DecidableEq

def ImageChunk.getChunkActualRowIndex {V : Type} (c : ImageChunk V) : ℕ := c.blockRowStart + c.blockRow

structure ImageBlock (V : Type) where
  blockXIndex : ℕ
  blockXSize : ℕ
  blockYSize : ℕ
  blockYIndex : ℕ
  chunks : List (ℕ × List V)
  featureCount : ℕ

namespace ImageBlock
variable {V : Type}

/-- the constructor -/
def ofChunk (blockXSize : ℕ) (chunk : ImageChunk V) : ImageBlock V :=
  { blockYSize := chunk.ySize, blockYIndex := chunk.yIndex, blockXSize
    blockXIndex := chunk.getChunkActualRowIndex / blockXSize
    featureCount := chunk.chunk.length
    chunks := [(chunk.getChunkActualRowIndex, chunk.chunk)] }

def getActualBlockSize (b : ImageBlock V) : ℕ := b.chunks.length

/-- `operator+`: a row that is there stays -/
def plus (this addMeIn : ImageBlock V) : ImageBlock V :=
  { this with chunks := addMeIn.chunks.foldl (fun l e => FiniteMap.enter l e.1 e.2) this.chunks }

end ImageBlock

/-- `ImageChunksToBlock` -/
def ImageChunksToBlock.getKeyProjection {V : Type} (chunkSize : ℕ) (c : ImageChunk V) : ℕ :=
  c.getChunkActualRowIndex / chunkSize * 10000 + c.yIndex

/-- the aggregation of chunks to blocks -/
def ImageChunksToBlock.Aggregates {V : Type} (chunkSize : ℕ) (chunks : List (ImageChunk V))
    (blocks : List (ℕ × ImageBlock V)) : Prop :=
  Aggregation.Aggregates (ImageChunksToBlock.getKeyProjection chunkSize) (ImageBlock.ofChunk chunkSize)
    ImageBlock.plus chunks blocks

/-! ## Blocks of a matrix -/

namespace ImageBlockToMatrix
variable {V : Type}

def realBlockX (blockX : ℕ) (padding : Bool) (checkMe : ImageBlock V) : ℕ :=
  if padding then blockX else checkMe.getActualBlockSize

def realBlockY (blockY : ℕ) (padding : Bool) (totalFeatures : ℕ) (checkMe : ImageBlock V) : ℕ :=
  if padding then blockY else min blockY (totalFeatures - checkMe.blockYIndex * blockY)

/-- `none`: a row of the map is missing, or too short -/
def data [Zero V] (checkMe : ImageBlock V) (x y : ℕ) : Option V :=
  let offset := checkMe.blockXIndex * checkMe.blockXSize
  if checkMe.getActualBlockSize ≤ x ∨ checkMe.featureCount ≤ y then some 0
  else (checkMe.chunks.lookup (offset + x)).bind fun row => row[y]?

/-- `none` also where `realBlockY` is negative -/
def getProjection [Zero V] (blockX blockY : ℕ) (padding : Bool) (batchSize totalFeatures : ℕ)
    (checkMe : ImageBlock V) : Option (FFMatrixBlock V) :=
  if padding ∨ checkMe.blockYIndex * blockY ≤ totalFeatures then
    (Grid.make (realBlockX blockX padding checkMe) (realBlockY blockY padding totalFeatures checkMe)
      (data checkMe)).map fun rawData =>
    { blockRowIndex := checkMe.blockXIndex, blockColIndex := checkMe.blockYIndex
      rowNums := realBlockX blockX padding checkMe
      colNums := realBlockY blockY padding totalFeatures checkMe
      totalRows := batchSize, totalCols := totalFeatures, rawData }
  else none

end ImageBlockToMatrix

/-! ## What is in a block of chunks -/

section
variable {V : Type} {l l' : List (ImageChunk V)} {b b' : ImageBlock V} {size : ℕ}

/-- the rows of these chunks -/
structure Gathers (size : ℕ) (l : List (ImageChunk V)) (b : ImageBlock V) : Prop where
  first : ∃ c ∈ l, b.blockXIndex = c.getChunkActualRowIndex / size ∧ b.blockYIndex = c.yIndex ∧
    b.featureCount = c.chunk.length
  size_eq : b.blockXSize = size
  entries : ∀ e ∈ b.chunks, ∃ c ∈ l, e = (c.getChunkActualRowIndex, c.chunk)
  rows : ∀ c ∈ l, c.getChunkActualRowIndex ∈ b.chunks.map Prod.fst
  keyed : Table.Keyed b.chunks

theorem enter_cases {K W : Type} [DecidableEq K] (m : List (K × W)) (k : K) (v : W) :
    k ∈ m.map Prod.fst ∧ FiniteMap.enter m k v = m ∨
      k ∉ m.map Prod.fst ∧ FiniteMap.enter m k v = m ++ [(k, v)] := by
  have hhas : FiniteMap.Has m k ↔ k ∈ m.map Prod.fst := by
    rw [List.mem_map]
    exact exists_congr fun e => and_congr_right fun _ => beq_iff_eq
  unfold FiniteMap.enter
  split
  · next h => exact .inl ⟨hhas.mp h, rfl⟩
  · next h => exact .inr ⟨fun hm => h (hhas.mpr hm), rfl⟩

theorem Gathers.enter {m : List (ℕ × List V)} {e : ℕ × List V} (hm : Table.Keyed m) :
    Table.Keyed (FiniteMap.enter m e.1 e.2) ∧
      (∀ x ∈ FiniteMap.enter m e.1 e.2, x ∈ m ∨ x = e) ∧
      ∀ k, k ∈ (FiniteMap.enter m e.1 e.2).map Prod.fst ↔ k ∈ m.map Prod.fst ∨ k = e.1 := by
  rcases enter_cases m e.1 e.2 with ⟨hin, heq⟩ | ⟨hnot, heq⟩ <;> rw [heq]
  · exact ⟨hm, fun x hx => .inl hx, fun k => ⟨.inl, fun h => h.elim id fun hk => hk ▸ hin⟩⟩
  · refine ⟨?_, fun x hx => ?_, fun k => ?_⟩
    · rw [Table.Keyed, List.map_append, List.nodup_append_comm]
      exact List.nodup_cons.mpr ⟨hnot, hm⟩
    · exact (List.mem_append.mp hx).imp_right List.mem_singleton.mp
    · rw [List.map_append, List.mem_append]
      exact or_congr_right List.mem_singleton

/-- the rows of the second block come to those of the first -/
theorem Gathers.foldl_enter (es : List (ℕ × List V)) : ∀ {m : List (ℕ × List V)}, Table.Keyed m →
    Table.Keyed (es.foldl (fun l e => FiniteMap.enter l e.1 e.2) m) ∧
      (∀ x ∈ es.foldl (fun l e => FiniteMap.enter l e.1 e.2) m, x ∈ m ∨ x ∈ es) ∧
      ∀ k, k ∈ (es.foldl (fun l e => FiniteMap.enter l e.1 e.2) m).map Prod.fst ↔
        k ∈ m.map Prod.fst ∨ k ∈ es.map Prod.fst := by
  induction es with
  | nil =>
    intro m hm
    exact ⟨hm, fun x hx => .inl hx, fun k => (or_iff_left List.not_mem_nil).symm⟩
  | cons e es ih =>
    intro m hm
    obtain ⟨hk, hmem, hkeys⟩ := Gathers.enter (e := e) hm
    obtain ⟨hk', hmem', hkeys'⟩ := ih hk
    refine ⟨hk', fun x hx => ?_, fun k => ?_⟩
    · rcases hmem' x hx with h | h
      · exact (hmem x h).imp_right fun heq => List.mem_cons.mpr (.inl heq)
      · exact .inr (List.mem_cons_of_mem e h)
    · rw [List.foldl_cons, hkeys', hkeys, List.map_cons, List.mem_cons, or_assoc]

theorem gathers_of_merged (h : Merged (ImageBlock.ofChunk size) ImageBlock.plus l b) :
    Gathers size l b := by
  induction h with
  | one c =>
    refine ⟨⟨c, List.mem_cons_self, rfl, rfl, rfl⟩, rfl, fun e he => ?_, fun c' hc => ?_,
      List.nodup_singleton _⟩
    · exact ⟨c, List.mem_cons_self, List.mem_singleton.mp he⟩
    · rw [List.mem_singleton.mp hc]
      exact List.mem_cons_self
  | @add l l' b b' h h' ih ih' =>
    obtain ⟨hk, hmem, hkeys⟩ := Gathers.foldl_enter b'.chunks ih.keyed
    refine ⟨?_, ih.size_eq, fun e he => ?_, fun c hc => ?_, hk⟩
    · obtain ⟨c, hc, hfirst⟩ := ih.first
      exact ⟨c, List.mem_append_left _ hc, hfirst⟩
    · rcases hmem e he with h | h
      · obtain ⟨c, hc, heq⟩ := ih.entries e h
        exact ⟨c, List.mem_append_left _ hc, heq⟩
      · obtain ⟨c, hc, heq⟩ := ih'.entries e h
        exact ⟨c, List.mem_append_right _ hc, heq⟩
    · refine (hkeys _).mpr ?_
      exact (List.mem_append.mp hc).imp (ih.rows c) (ih'.rows c)
  | @perm l l' b h hp ih =>
    obtain ⟨c, hc, hfirst⟩ := ih.first
    refine ⟨⟨c, hp.mem_iff.mp hc, hfirst⟩, ih.size_eq, fun e he => ?_, fun c hc => ?_, ih.keyed⟩
    · obtain ⟨c, hc, heq⟩ := ih.entries e he
      exact ⟨c, hp.mem_iff.mp hc, heq⟩
    · exact ih.rows c (hp.mem_iff.mpr hc)

end

/-! ## Chunks that are the rows of a matrix -/

/-- the chunks of each row -/
structure Cuts {V : Type} (blockY rows cols : ℕ) (M : ℕ → ℕ → V) (l : List (ImageChunk V)) : Prop where
  inside : ∀ c ∈ l, c.getChunkActualRowIndex < rows ∧ c.yIndex * blockY < cols
  content : ∀ c ∈ l, c.chunk = (List.range (min blockY (cols - c.yIndex * blockY))).map fun y =>
    M c.getChunkActualRowIndex (c.yIndex * blockY + y)
  all : ∀ r < rows, ∀ j, j * blockY < cols → ∃ c ∈ l, c.getChunkActualRowIndex = r ∧ c.yIndex = j

/-- chunks with the same key are of the same block -/
def KeysApart {V : Type} (chunkSize : ℕ) (l : List (ImageChunk V)) : Prop :=
  ∀ c ∈ l, ∀ c' ∈ l, ImageChunksToBlock.getKeyProjection chunkSize c =
    ImageChunksToBlock.getKeyProjection chunkSize c' →
      c.getChunkActualRowIndex / chunkSize = c'.getChunkActualRowIndex / chunkSize ∧
        c.yIndex = c'.yIndex

section
variable {V : Type} [Zero V] {blockX blockY rows cols : ℕ} {M : ℕ → ℕ → V} {l : List (ImageChunk V)}
  {padding : Bool}

/-- what becomes of a group -/
structure Turned (blockX blockY rows cols : ℕ) (M : ℕ → ℕ → V) (padding : Bool)
    (l : List (ImageChunk V)) (key : ℕ) (b : FFMatrixBlock V) : Prop where
  index : ∀ c ∈ l, ImageChunksToBlock.getKeyProjection blockX c = key →
    b.index = (c.getChunkActualRowIndex / blockX, c.yIndex)
  totals : b.totalRows = rows ∧ b.totalCols = cols
  rowNums : b.rowNums = if padding then blockX else min blockX (rows - b.blockRowIndex * blockX)
  colNums : b.colNums = if padding then blockY else min blockY (cols - b.blockColIndex * blockY)
  values : Grid.Shaped b.rowNums b.colNums (fun x y v => v =
    if b.blockRowIndex * blockX + x < rows ∧ b.blockColIndex * blockY + y < cols then
      M (b.blockRowIndex * blockX + x) (b.blockColIndex * blockY + y) else 0) b.rawData

theorem mem_block (hx : 0 < blockX) {r i : ℕ} (hr : r < rows) :
    r / blockX = i ↔ i * blockX ≤ r ∧ r < i * blockX + min blockX (rows - i * blockX) := by
  rw [Nat.div_eq_iff hx, Nat.mul_comm]
  omega

/-- the rows that a group has -/
theorem Cuts.keys (h : Cuts blockY rows cols M l) (hx : 0 < blockX) (hkeys : KeysApart blockX l)
    {c : ImageChunk V} (hc : c ∈ l) {b : ImageBlock V}
    (hb : Gathers blockX (l.filter fun a => ImageChunksToBlock.getKeyProjection blockX a =
      ImageChunksToBlock.getKeyProjection blockX c) b) :
    (b.chunks.map Prod.fst).Perm (List.range' (c.getChunkActualRowIndex / blockX * blockX)
      (min blockX (rows - c.getChunkActualRowIndex / blockX * blockX))) := by
  refine (List.perm_ext_iff_of_nodup hb.keyed (List.nodup_range' ..)).mpr fun r => ?_
  rw [List.mem_range'_1]
  constructor
  · intro hr
    obtain ⟨e, he, rfl⟩ := List.mem_map.mp hr
    obtain ⟨c', hc', rfl⟩ := hb.entries e he
    obtain ⟨hin, hkey⟩ := List.mem_filter.mp hc'
    exact (mem_block hx (h.inside c' hin).1).mp (hkeys c' hin c hc (of_decide_eq_true hkey)).1
  · intro hr
    have hlt : r < rows := by omega
    obtain ⟨c', hc', rfl, hj⟩ := h.all r hlt c.yIndex (h.inside c hc).2
    refine hb.rows c' (List.mem_filter.mpr ⟨hc', decide_eq_true ?_⟩)
    rw [ImageChunksToBlock.getKeyProjection, (mem_block hx hlt).mpr hr, hj]
    rfl

/-- a row of the group -/
theorem Cuts.lookup (h : Cuts blockY rows cols M l) (hkeys : KeysApart blockX l)
    {c : ImageChunk V} (hc : c ∈ l) {b : ImageBlock V}
    (hb : Gathers blockX (l.filter fun a => ImageChunksToBlock.getKeyProjection blockX a =
      ImageChunksToBlock.getKeyProjection blockX c) b) {r : ℕ}
    (hr : r ∈ b.chunks.map Prod.fst) :
    b.chunks.lookup r = some ((List.range (min blockY (cols - c.yIndex * blockY))).map fun y =>
      M r (c.yIndex * blockY + y)) := by
  obtain ⟨e, he, rfl⟩ := List.mem_map.mp hr
  obtain ⟨c', hc', rfl⟩ := hb.entries e he
  obtain ⟨hin, hkey⟩ := List.mem_filter.mp hc'
  have hj : c'.yIndex = c.yIndex := (hkeys c' hin c hc (of_decide_eq_true hkey)).2
  rw [hb.keyed.lookup_iff, ← hj, ← h.content c' hin]
  exact he

/-- the block that a group is in -/
theorem Cuts.place (h : Cuts blockY rows cols M l) (hkeys : KeysApart blockX l)
    {c : ImageChunk V} (hc : c ∈ l) {b : ImageBlock V}
    (hb : Gathers blockX (l.filter fun a => ImageChunksToBlock.getKeyProjection blockX a =
      ImageChunksToBlock.getKeyProjection blockX c) b) :
    b.blockXIndex = c.getChunkActualRowIndex / blockX ∧ b.blockYIndex = c.yIndex ∧
      b.featureCount = min blockY (cols - c.yIndex * blockY) := by
  obtain ⟨c₀, hc₀, hI, hJ, hW⟩ := hb.first
  obtain ⟨hin, hkey⟩ := List.mem_filter.mp hc₀
  obtain ⟨hi, hj⟩ := hkeys c₀ hin c hc (of_decide_eq_true hkey)
  rw [h.content c₀ hin, List.length_map, List.length_range, hj] at hW
  exact ⟨hI.trans hi, hJ.trans hj, hW⟩

/-- an element of the block -/
theorem Cuts.data (h : Cuts blockY rows cols M l) (hx : 0 < blockX) (hkeys : KeysApart blockX l)
    {c : ImageChunk V} (hc : c ∈ l) {b : ImageBlock V}
    (hb : Gathers blockX (l.filter fun a => ImageChunksToBlock.getKeyProjection blockX a =
      ImageChunksToBlock.getKeyProjection blockX c) b) {x y : ℕ} (hxlt : x < blockX) (hylt : y < blockY) :
    ImageBlockToMatrix.data b x y =
      some (if b.blockXIndex * blockX + x < rows ∧ b.blockYIndex * blockY + y < cols then
        M (b.blockXIndex * blockX + x) (b.blockYIndex * blockY + y) else 0) := by
  obtain ⟨hI, hJ, hW⟩ := h.place hkeys hc hb
  have hperm := h.keys hx hkeys hc hb
  have hcount : b.getActualBlockSize =
      min blockX (rows - c.getChunkActualRowIndex / blockX * blockX) := by
    rw [ImageBlock.getActualBlockSize, ← List.length_map Prod.fst, hperm.length_eq,
      List.length_range']
  rw [ImageBlockToMatrix.data, hI, hJ, hcount, hW, hb.size_eq]
  generalize hi : c.getChunkActualRowIndex / blockX = i at *
  split
  · rw [if_neg (by omega)]
  · next hin =>
    rw [not_or, not_le, not_le] at hin
    have hmem : i * blockX + x ∈ b.chunks.map Prod.fst :=
      hperm.mem_iff.mpr (List.mem_range'_1.mpr ⟨Nat.le_add_right _ _, by omega⟩)
    rw [h.lookup hkeys hc hb hmem, Option.bind_some, List.getElem?_map,
      List.getElem?_range hin.2, if_pos (by omega)]
    rfl

theorem Cuts.turned (h : Cuts blockY rows cols M l) (hx : 0 < blockX) (hkeys : KeysApart blockX l)
    (padding : Bool) {c : ImageChunk V} (hc : c ∈ l) {b : ImageBlock V}
    (hb : Gathers blockX (l.filter fun a => ImageChunksToBlock.getKeyProjection blockX a =
      ImageChunksToBlock.getKeyProjection blockX c) b) :
    ∃ m, ImageBlockToMatrix.getProjection blockX blockY padding rows cols b = some m ∧
      Turned blockX blockY rows cols M padding l (ImageChunksToBlock.getKeyProjection blockX c) m := by
  obtain ⟨hI, hJ, -⟩ := h.place hkeys hc hb
  have hperm := h.keys hx hkeys hc hb
  have hX : ImageBlockToMatrix.realBlockX blockX padding b =
      if padding then blockX else min blockX (rows - b.blockXIndex * blockX) := by
    rw [ImageBlockToMatrix.realBlockX, ImageBlock.getActualBlockSize, ← List.length_map Prod.fst,
      hperm.length_eq, List.length_range', hI]
  have hXle : ImageBlockToMatrix.realBlockX blockX padding b ≤ blockX := by
    rw [hX]
    split <;> omega
  have hYle : ImageBlockToMatrix.realBlockY blockY padding cols b ≤ blockY := by
    unfold ImageBlockToMatrix.realBlockY
    split <;> omega
  have hdata : ∀ x < ImageBlockToMatrix.realBlockX blockX padding b,
      ∀ y < ImageBlockToMatrix.realBlockY blockY padding cols b, ∃ v,
        ImageBlockToMatrix.data b x y = some v ∧
          v = if b.blockXIndex * blockX + x < rows ∧ b.blockYIndex * blockY + y < cols then
            M (b.blockXIndex * blockX + x) (b.blockYIndex * blockY + y) else 0 := fun x hxlt y hylt =>
    ⟨_, h.data hx hkeys hc hb (lt_of_lt_of_le hxlt hXle) (lt_of_lt_of_le hylt hYle), rfl⟩
  obtain ⟨g, hg, hshape⟩ := Grid.make_spec hdata
  have hout : ImageBlockToMatrix.getProjection blockX blockY padding rows cols b =
      some ⟨b.blockXIndex, b.blockYIndex, ImageBlockToMatrix.realBlockX blockX padding b,
        ImageBlockToMatrix.realBlockY blockY padding cols b, rows, cols, g⟩ := by
    rw [ImageBlockToMatrix.getProjection, if_pos (.inr (by rw [hJ]; exact (h.inside c hc).2.le)), hg]
    rfl
  refine ⟨_, hout, fun c' hc' hkey => ?_, ⟨rfl, rfl⟩, hX, rfl, hshape⟩
  obtain ⟨hi, hj⟩ := hkeys c' hc' c hc hkey
  show (b.blockXIndex, b.blockYIndex) = _
  rw [hI, hJ, hi, hj]

/-- **The chunks of a matrix come out as its blocks, in whatever order they are merged.** -/
theorem Cuts.represents (h : Cuts blockY rows cols M l) (hx : 0 < blockX)
    (hkeys : KeysApart blockX l) {outs : List (ℕ × ImageBlock V)}
    (ho : ImageChunksToBlock.Aggregates blockX l outs) (padding : Bool) :
    ∃ blocks, (outs.mapM fun e =>
        ImageBlockToMatrix.getProjection blockX blockY padding rows cols e.2) = some blocks ∧
      Represents blockX blockY padding rows cols M blocks := by
  have hturn : ∀ e ∈ outs, ∃ m,
      ImageBlockToMatrix.getProjection blockX blockY padding rows cols e.2 = some m ∧
        ((∃ c ∈ l, ImageChunksToBlock.getKeyProjection blockX c = e.1) ∧
          Turned blockX blockY rows cols M padding l e.1 m) := by
    intro e he
    obtain ⟨c, hc, hkey⟩ := (ho.keys e.1).mp (List.mem_map.mpr ⟨e, he, rfl⟩)
    have hb := gathers_of_merged (ho.merged e he)
    rw [← hkey] at hb ⊢
    obtain ⟨m, hm, ht⟩ := h.turned hx hkeys padding hc hb
    exact ⟨m, hm, ⟨c, hc, rfl⟩, ht⟩
  obtain ⟨blocks, hblocks, hall⟩ := Grid.mapM_spec hturn
  have hto := Grid.forall₂_right hall
  refine ⟨blocks, hblocks, ?_, fun i j => ?_, fun m hm => ?_, fun m hm => ?_, fun m hm => ?_,
    fun m hm => ?_⟩
  · -- the key is told by the index
    have hcode : outs.map Prod.fst =
        (blocks.map FFMatrixBlock.index).map fun p => p.1 * 10000 + p.2 := by
      rw [List.map_map, ← List.forall₂_eq_eq_eq, List.forall₂_map_left_iff, List.forall₂_map_right_iff]
      refine hall.imp fun e m ⟨⟨c, hc, hkey⟩, ht⟩ => ?_
      rw [Function.comp_apply, ht.index c hc hkey, ← hkey]
      rfl
    have hnodup := ho.keyed
    rw [hcode] at hnodup
    exact hnodup.of_map
  · constructor
    · intro hm
      obtain ⟨m, hm, heq⟩ := List.mem_map.mp hm
      obtain ⟨e, -, ⟨c, hc, hkey⟩, ht⟩ := hto m hm
      rw [ht.index c hc hkey] at heq
      obtain ⟨rfl, rfl⟩ := Prod.mk.inj heq
      obtain ⟨hrow, hcol⟩ := h.inside c hc
      exact ⟨lt_of_le_of_lt (Nat.div_mul_le_self _ _) hrow, hcol⟩
    · rintro ⟨hi, hj⟩
      obtain ⟨c, hc, hrow, hcol⟩ := h.all _ hi j hj
      obtain ⟨b, hb⟩ := ho.exists_output hc
      obtain ⟨m, hm, -, ht⟩ := Grid.forall₂_left hall _ hb
      refine List.mem_map.mpr ⟨m, hm, ?_⟩
      rw [ht.index c hc rfl, hrow, hcol, Nat.mul_div_cancel _ hx]
  · obtain ⟨e, -, -, ht⟩ := hto m hm
    exact ht.totals
  · obtain ⟨e, -, -, ht⟩ := hto m hm
    exact ht.rowNums
  · obtain ⟨e, -, -, ht⟩ := hto m hm
    exact ht.colNums
  · obtain ⟨e, -, -, ht⟩ := hto m hm
    exact ht.values

/-- a block of chunks that is turned into a block of the matrix -/
theorem ImageBlockToMatrix.getProjection_cases {b : ImageBlock V} {m : FFMatrixBlock V}
    (h : ImageBlockToMatrix.getProjection blockX blockY padding rows cols b = some m) :
    m.index = (b.blockXIndex, b.blockYIndex) ∧
      m.rowNums = ImageBlockToMatrix.realBlockX blockX padding b ∧
      m.colNums = ImageBlockToMatrix.realBlockY blockY padding cols b ∧
      m.totalRows = rows ∧ m.totalCols = cols ∧ ∀ x < m.rowNums, ∀ y < m.colNums,
        ∃ v, Grid.getAt m.rawData x y = some v ∧ ImageBlockToMatrix.data b x y = some v := by
  unfold ImageBlockToMatrix.getProjection at h
  split at h
  · obtain ⟨rawData, hmake, rfl⟩ := Option.map_eq_some_iff.mp h
    exact ⟨rfl, rfl, rfl, rfl, rfl, fun x hx y hy => Grid.getAt_make hmake hx hy⟩
  · cases h

end
end Netsdb.Conv2d
