import Netsdb.Conv2d.ImageBlock

/-!
# The blocks of a convolution, cut into chunks (`ConvResultToChunks.h`)

Each column of a block is cut where an image ends.

* `ConvResultToChunks.loop`, `getProjection`   as in the source;
* `Whole`                what has to be so of a row block size, or a column block size, that nothing is
                         lost at the edge;
* `ConvChunk`            a chunk, and where its values are in the block;
* `getProjection_spec`   all chunks are such, and the loop ends.
-/

set_option linter.unusedSectionVars false

namespace Netsdb.Conv2d
variable {V : Type}

/-! ## The loop -/

namespace ConvResultToChunks

/-- the rows without the padding -/
def realX (checkMe : FFMatrixBlock V) : ℕ :=
  if checkMe.isLastRowBlock then checkMe.totalRows % checkMe.rowNums else checkMe.rowNums

def realY (checkMe : FFMatrixBlock V) : ℕ :=
  if checkMe.isLastColBlock then checkMe.totalCols % checkMe.colNums else checkMe.colNums

/-- a chunk for each column; `none`: a value is not there -/
def columns (checkMe : FFMatrixBlock V) (i left done imageId : ℕ) : Option (List (ImageChunk V)) :=
  (List.range (realY checkMe)).mapM fun j =>
    ((List.range left).mapM fun pos => Grid.getAt checkMe.rawData (i + pos) j).map fun chunk =>
      { blockRow := done, yIndex := checkMe.blockColIndex * checkMe.colNums + j, chunk, ySize := 1
        blockRowStart := imageId }

/-- `none` if `fuel` rounds are not enough, too -/
def loop (groupSize : ℕ) (checkMe : FFMatrixBlock V) :
    ℕ → (i left done imageId : ℕ) → Option (List (ImageChunk V))
  | 0, i, _, _, _ => if i < realX checkMe then none else some []
  | fuel + 1, i, left, done, imageId =>
    if i < realX checkMe then do
      let result ← columns checkMe i left done imageId
      let rest ← loop groupSize checkMe fuel (i + left) (min (realX checkMe - (i + left)) groupSize) 0
        (imageId + 1)
      return result ++ rest
    else some []

/-- `none`: the assertion fails, or a division by zero; each round takes a row -/
def getProjection (numImages : ℕ) (checkMe : FFMatrixBlock V) : Option (List (ImageChunk V)) :=
  let groupSize := checkMe.totalRows / numImages
  let originX := checkMe.blockRowIndex * checkMe.rowNums
  if numImages = 0 ∨ checkMe.totalRows % numImages ≠ 0 ∨ groupSize = 0 then none
  else
    let done := originX % groupSize
    loop groupSize checkMe (realX checkMe) 0 (min (groupSize - done) (realX checkMe)) done
      (originX / groupSize)

end ConvResultToChunks

/-! ## Chunks -/

section
open ConvResultToChunks
variable {groupSize i j left done imageId : ℕ} {m : FFMatrixBlock V} {c : ImageChunk V}

/-- a part of column `j`, from row `i` -/
structure ConvChunk (groupSize : ℕ) (m : FFMatrixBlock V) (i j : ℕ) (c : ImageChunk V) : Prop where
  row : i < realX m
  col : j < realY m
  place : c.blockRowStart * groupSize + c.blockRow = m.blockRowIndex * m.rowNums + i
  inside : c.blockRow < groupSize
  start : i = 0 ∨ c.blockRow = 0
  yIndex : c.yIndex = m.blockColIndex * m.colNums + j
  length : c.chunk.length = min (groupSize - c.blockRow) (realX m - i)
  values : ∀ pos v, c.chunk[pos]? = some v → Grid.getAt m.rawData (i + pos) j = some v

theorem columns_spec (hdata : ∀ x < realX m, ∀ y < realY m, ∃ v, Grid.getAt m.rawData x y = some v)
    (hi : i < realX m) (hdone : done < groupSize) (hleft : left = min (groupSize - done) (realX m - i))
    (hplace : imageId * groupSize + done = m.blockRowIndex * m.rowNums + i) (hstart : i = 0 ∨ done = 0) :
    ∃ cs, columns m i left done imageId = some cs ∧
      List.Forall₂ (fun j c => ConvChunk groupSize m i j c) (List.range (realY m)) cs := by
  refine Grid.mapM_spec fun j hj => ?_
  have hj := List.mem_range.mp hj
  obtain ⟨chunk, hchunk, -⟩ := Grid.mapM_spec (l := List.range left) (Q := fun _ _ => True)
    (f := fun pos => Grid.getAt m.rawData (i + pos) j) fun pos hpos => by
      have hpos := List.mem_range.mp hpos
      obtain ⟨v, hv⟩ := hdata (i + pos) (by omega) j hj
      exact ⟨v, hv, trivial⟩
  have hlen : chunk.length = left := (Grid.length_mapM hchunk).trans (List.length_range)
  refine ⟨_, congrArg (Option.map _) hchunk, hi, hj, hplace, hdone, hstart, rfl, hlen.trans hleft,
    fun pos v hv => ?_⟩
  have hlt : pos < left := hlen ▸ (List.getElem?_eq_some_iff.mp hv).1
  obtain ⟨w, hw, hget⟩ := Grid.getElem?_mapM hchunk (List.getElem?_range hlt)
  change chunk[pos]? = some v at hv
  rw [hget, ← hv, hw]

theorem loop_spec (hdata : ∀ x < realX m, ∀ y < realY m, ∃ v, Grid.getAt m.rawData x y = some v)
    (fuel : ℕ) : ∀ {i left done imageId : ℕ}, realX m - i ≤ fuel → done < groupSize →
      left = min (groupSize - done) (realX m - i) →
      imageId * groupSize + done = m.blockRowIndex * m.rowNums + i → (i = 0 ∨ done = 0) →
      ∃ cs, loop groupSize m fuel i left done imageId = some cs ∧
        (∀ c ∈ cs, ∃ i j, ConvChunk groupSize m i j c) ∧
        (i < realX m → ∀ j < realY m, ∃ c ∈ cs, ConvChunk groupSize m i j c) := by
  induction fuel with
  | zero =>
    intro i left done imageId hfuel hdone hleft hplace hstart
    have hend : ¬ i < realX m := by omega
    exact ⟨[], if_neg hend, fun c hc => (nomatch hc), fun hi => absurd hi hend⟩
  | succ fuel ih =>
    intro i left done imageId hfuel hdone hleft hplace hstart
    rw [loop]
    split
    · next hi =>
      obtain ⟨cs, hcs, hall⟩ := columns_spec hdata hi hdone hleft hplace hstart
      rw [hcs]
      have hchunks : ∀ c ∈ cs, ∃ i j, ConvChunk groupSize m i j c := fun c hc => by
        obtain ⟨j, -, hc⟩ := Grid.forall₂_right hall c hc
        exact ⟨i, j, hc⟩
      have hfirst : ∀ j < realY m, ∃ c ∈ cs, ConvChunk groupSize m i j c := fun j hj =>
        Grid.forall₂_left hall j (List.mem_range.mpr hj)
      -- the next round begins with an image, unless there is none
      rcases Nat.lt_or_ge (i + left) (realX m) with hmore | hend
      · have hnext : (imageId + 1) * groupSize + 0 = m.blockRowIndex * m.rowNums + (i + left) := by
          rw [Nat.succ_mul]
          omega
        obtain ⟨rest, hrest, hall', -⟩ := @ih (i + left) (min (realX m - (i + left)) groupSize) 0 _
          (by omega) (by omega) (by rw [Nat.sub_zero, Nat.min_comm]) hnext (.inr rfl)
        rw [Option.bind_eq_bind, Option.bind_some, hrest]
        exact ⟨_, rfl, fun c hc => (List.mem_append.mp hc).elim (hchunks c) (hall' c),
          fun _ j hj => (hfirst j hj).imp fun c hc => ⟨List.mem_append_left _ hc.1, hc.2⟩⟩
      · have hrest : loop groupSize m fuel (i + left) (min (realX m - (i + left)) groupSize) 0
            (imageId + 1) = some [] := by
          cases fuel <;> exact if_neg (by omega)
        rw [Option.bind_eq_bind, Option.bind_some, hrest]
        refine ⟨cs ++ [], rfl, ?_, ?_⟩ <;> rw [List.append_nil]
        · exact hchunks
        · exact fun _ => hfirst
    · next hend => exact ⟨[], rfl, fun c hc => (nomatch hc), fun hi => absurd hi hend⟩

theorem getProjection_spec {n size : ℕ} (hn : 0 < n) (hsize : 0 < size) (htotal : m.totalRows = n * size)
    (hdata : ∀ x < realX m, ∀ y < realY m, ∃ v, Grid.getAt m.rawData x y = some v) :
    ∃ cs, getProjection n m = some cs ∧ (∀ c ∈ cs, ∃ i j, ConvChunk size m i j c) ∧
      (0 < realX m → ∀ j < realY m, ∃ c ∈ cs, ConvChunk size m 0 j c) := by
  have hgroup : m.totalRows / n = size := by rw [htotal, Nat.mul_div_cancel_left _ hn]
  have hok : ¬ (n = 0 ∨ m.totalRows % n ≠ 0 ∨ size = 0) := by
    rw [htotal, Nat.mul_mod_right]
    omega
  rw [getProjection, hgroup, if_neg hok]
  refine loop_spec hdata _ (Nat.sub_le _ _) (Nat.mod_lt _ hsize) (by rw [Nat.sub_zero]) ?_ (.inl rfl)
  exact Nat.div_add_mod' _ _

end

/-! ## The edge -/

section
variable {padding : Bool} {size total i : ℕ}

/-- the rows that block `i` has -/
def blockNums (padding : Bool) (size total i : ℕ) : ℕ :=
  if padding then size else min size (total - i * size)

/-- the rows that are read -/
def realNums (total nums i : ℕ) : ℕ :=
  if (i : ℤ) = Binary32.ceilDiv total nums - 1 then total % nums else nums

/-- blocks at the edge are like the others, and the edge is not taken for the end of a smaller block -/
def Whole (padding : Bool) (size total : ℕ) : Prop :=
  (padding = true ∨ size ∣ total) ∧ total / size < Binary32.ceilDiv total size

theorem realX_eq (m : FFMatrixBlock V) : ConvResultToChunks.realX m =
    realNums m.totalRows m.rowNums m.blockRowIndex := rfl

theorem realY_eq (m : FFMatrixBlock V) : ConvResultToChunks.realY m =
    realNums m.totalCols m.colNums m.blockColIndex := rfl

theorem blockNums_le (padding : Bool) (size total i : ℕ) : blockNums padding size total i ≤ size := by
  unfold blockNums
  split <;> omega

theorem blockNums_pos (hsize : 0 < size) (hi : i * size < total) : 0 < blockNums padding size total i := by
  unfold blockNums
  split <;> omega

theorem realNums_le {nums : ℕ} (h : 0 < nums) : realNums total nums i ≤ nums := by
  unfold realNums
  split
  · exact (Nat.mod_lt _ h).le
  · exact le_refl _

theorem Whole.nums (h : Whole padding size total) (hi : i * size < total) :
    blockNums padding size total i = size := by
  unfold blockNums
  split
  · rfl
  · next hpad =>
    obtain ⟨k, rfl⟩ := h.1.resolve_left hpad
    rw [Nat.mul_comm i] at hi
    have hik : i + 1 ≤ k := Nat.lt_of_mul_lt_mul_left hi
    have := Nat.mul_le_mul_left size hik
    rw [Nat.mul_succ] at this
    rw [Nat.mul_comm i]
    omega

/-- all rows that there are, are read -/
theorem Whole.real (h : Whole padding size total) (hsize : 0 < size) (hi : i * size < total) :
    min size (total - i * size) ≤ realNums total size i := by
  unfold realNums
  split
  · next hlast =>
    have hle := (Nat.le_div_iff_mul_le hsize).mpr hi.le
    have hq := h.2
    have heq : i = total / size := by omega
    have := Nat.div_add_mod' total size
    rw [← heq] at this
    omega
  · exact Nat.min_le_left _ _

/-- where padding is read there are several blocks -/
theorem Whole.over (h : Whole padding size total) (hi : i * size < total)
    (hover : total - i * size < realNums total size i) : size < total := by
  by_contra hle
  have hle := Nat.not_lt.mp hle
  have hzero := eq_zero_of_mul_lt hi hle
  have hq := h.2
  rw [Binary32.ceilDiv_of_le (by omega) hle] at hq
  have hlt : total < size := by
    by_contra hge
    have heq : total = size := by omega
    rw [heq, Nat.div_self (by omega)] at hq
    exact Nat.lt_irrefl _ hq
  rw [hzero, realNums, Binary32.ceilDiv_of_le (by omega) hle, if_pos (by omega), Nat.mod_eq_of_lt hlt] at hover
  omega

/-- **Nothing is lost only so.** -/
theorem whole_of_reads (hsize : 0 < size) (htotal : 0 < total)
    (h : ∀ t < total, t % size < realNums total (blockNums padding size total (t / size)) (t / size) ∧
      t / size * blockNums padding size total (t / size) = t / size * size) :
    Whole padding size total := by
  constructor
  · by_contra hnot
    rw [not_or, Bool.not_eq_true] at hnot
    obtain ⟨hpad, hdvd⟩ := hnot
    have hmod : 0 < total % size := Nat.pos_of_ne_zero fun h0 => hdvd (Nat.dvd_of_mod_eq_zero h0)
    have hmod' := Nat.mod_lt total hsize
    have hdiv := Nat.div_add_mod' total size
    -- the first row of the last block, which is smaller
    obtain ⟨hread, hplace⟩ := h (total / size * size) (by omega)
    rw [Nat.mul_div_cancel _ hsize, Nat.mul_mod_left] at hread
    rw [Nat.mul_div_cancel _ hsize] at hplace
    have hnums : blockNums padding size total (total / size) = total % size := by
      rw [blockNums, hpad, if_neg Bool.false_ne_true]
      omega
    rw [hnums] at hread hplace
    rcases Nat.eq_zero_or_pos (total / size) with h0 | hpos
    · have heq : total % size = total := by
        rw [h0, Nat.zero_mul, Nat.zero_add] at hdiv
        exact hdiv
      rw [heq, h0, realNums, Binary32.ceilDiv_of_le htotal (le_refl _), if_pos (by omega), Nat.mod_self]
        at hread
      exact Nat.lt_irrefl _ hread
    · have := Nat.eq_of_mul_eq_mul_left hpos hplace
      omega
  · by_contra hnot
    have hD := Binary32.ceilDiv_pos htotal hsize
    generalize hd : Binary32.ceilDiv total size = D at hnot hD
    obtain ⟨i, rfl⟩ : ∃ i, D = i + 1 := ⟨D - 1, by omega⟩
    have hle : i + 1 ≤ total / size := Nat.not_lt.mp hnot
    have hfull := (Nat.le_div_iff_mul_le hsize).mp hle
    rw [Nat.succ_mul] at hfull
    -- the last row of a full block that is taken for the last one
    obtain ⟨hread, -⟩ := h (i * size + (size - 1)) (by omega)
    have hdiv : (i * size + (size - 1)) / size = i := by
      rw [Nat.mul_comm, Nat.mul_add_div hsize, Nat.div_eq_of_lt (by omega)]
      rfl
    have hmod : (i * size + (size - 1)) % size = size - 1 := by
      rw [Nat.mul_comm, Nat.mul_add_mod, Nat.mod_eq_of_lt (by omega)]
    have hnums : blockNums padding size total i = size := by
      unfold blockNums
      split <;> omega
    rw [hdiv, hmod, hnums, realNums, hd, if_pos (by omega)] at hread
    have := Nat.mod_lt total hsize
    omega

end
end Netsdb.Conv2d
