import Netsdb.Conv2d.RowChunks

/-!
# The windows of the images as a matrix (`Image.h`, `ImageToChunks.h`)

* `Image.getWinValue`, `ImageToChunks.getProjection`   as in the source;
* `Image.pixel`          the image in its border of zeros;
* `ImagePlan.im2col`     the matrix with a row for each window;
* `ImagePlan.Flattens`   the chunks of the images, in any order, come out as this matrix;
* `flattens_iff`         they do where the columns of ones do not begin a block, or there is one window, and
                         the keys do not collide.
-/

set_option linter.unusedSectionVars false

namespace Netsdb.Conv2d
variable {V : Type}

/-! ## Images -/

/-- `matrices`: by channel, and the rows one behind the other -/
structure Image (M : Type) where
  index : ℕ
  x : ℕ
  y : ℕ
  z : ℕ
  matrices : M

namespace Image

def getX {M : Type} (img : Image M) (padding : ℕ) : ℕ := img.x + padding * 2

def getY {M : Type} (img : Image M) (padding : ℕ) : ℕ := img.y + padding * 2

def getHSlides {M : Type} (img : Image M) (padding kernelSize stride : ℕ) : ℕ :=
  (img.getY padding - kernelSize) / stride + 1

def getVSlides {M : Type} (img : Image M) (padding kernelSize stride : ℕ) : ℕ :=
  (img.getX padding - kernelSize) / stride + 1

def getConv2dWindowCount {M : Type} (img : Image M) (kernelSize stride padding : ℕ) : ℕ :=
  img.getHSlides padding kernelSize stride * img.getVSlides padding kernelSize stride

def getWinValue [Zero V] (img : Image (ℕ → ℕ → V)) (window i j stride channel kernelSize padding : ℕ) : V :=
  let hSlides := img.getHSlides padding kernelSize stride
  let r := window / hSlides
  let c := window % hSlides
  let xIndex : ℤ := (r * stride + i : ℕ) - padding
  let yIndex : ℤ := (c * stride + j : ℕ) - padding
  if 0 < padding ∧ (xIndex < 0 ∨ yIndex < 0 ∨ img.x ≤ xIndex ∨ img.y ≤ yIndex) then 0
  else img.matrices channel (xIndex * img.y + yIndex).toNat

/-- the image in a border of zeros -/
def pixel [Zero V] (img : Image (ℕ → ℕ → V)) (padding c a b : ℕ) : V :=
  if (padding ≤ a ∧ a < img.x + padding) ∧ padding ≤ b ∧ b < img.y + padding then
    img.matrices c ((a - padding) * img.y + (b - padding))
  else 0

end Image

/-! ## The chunks of an image -/

namespace ImageToChunks
variable [Zero V] [One V]

/-- the values of a window -/
def window (blockY kernelSize stride padding rowStart : ℕ) (img : Image (ℕ → ℕ → V)) (w : ℕ) :
    RowChunks V :=
  (List.range img.z).foldl (fun s c => (nested kernelSize kernelSize).foldl (fun s p =>
    s.push blockY w rowStart (img.getWinValue w p.1 p.2 stride c kernelSize padding)) s)
    (RowChunks.start blockY w rowStart)

/-- one window; the row before it is finished first, and a chunk begun for that has the number `w` -/
def step (blockY kernelSize stride padding rowStart : ℕ) (img : Image (ℕ → ℕ → V))
    (s : List (ImageChunk V) × Option (RowChunks V)) (w : ℕ) :
    List (ImageChunk V) × Option (RowChunks V) :=
  (s.1 ++ (s.2.elim [] fun row => row.finish blockY w rowStart 1),
    some (window blockY kernelSize stride padding rowStart img w))

def getProjection (blockY kernelSize stride padding : ℕ) (checkMe : Image (ℕ → ℕ → V)) :
    List (ImageChunk V) :=
  let windows := checkMe.getConv2dWindowCount kernelSize stride padding
  let rowStart := checkMe.index * windows
  let s := (List.range windows).foldl (step blockY kernelSize stride padding rowStart checkMe) ([], none)
  s.1 ++ (s.2.elim [] fun row => row.finish blockY (windows - 1) rowStart 1)

end ImageToChunks

/-! ## The whole way -/

/-- the images, the windows and the blocks of the matrix -/
structure ImagePlan where
  n : ℕ
  x : ℕ
  y : ℕ
  z : ℕ
  kernelSize : ℕ
  stride : ℕ
  pad : ℕ
  blockX : ℕ
  blockY : ℕ
  padding : Bool
  stride_pos : 0 < stride
  blockX_pos : 0 < blockX
  blockY_pos : 0 < blockY
  kernel_x : kernelSize ≤ x + pad * 2
  kernel_y : kernelSize ≤ y + pad * 2

namespace ImagePlan
variable (p : ImagePlan)

/-- image `q` has the values `I q` -/
def image (I : ℕ → ℕ → ℕ → V) (q : ℕ) : Image (ℕ → ℕ → V) := ⟨q, p.x, p.y, p.z, I q⟩

/-- windows side by side -/
def hSlides : ℕ := (p.y + p.pad * 2 - p.kernelSize) / p.stride + 1

def vSlides : ℕ := (p.x + p.pad * 2 - p.kernelSize) / p.stride + 1

def windows : ℕ := p.hSlides * p.vSlides

/-- the flattened size of a window -/
def size : ℕ := p.z * (p.kernelSize * p.kernelSize)

def chunks [Zero V] [One V] (I : ℕ → ℕ → ℕ → V) : List (ImageChunk V) :=
  (List.range p.n).flatMap fun q =>
    ImageToChunks.getProjection p.blockY p.kernelSize p.stride p.pad (p.image I q)

/-- offset `i`, `j` of a window -/
def entry [Zero V] (I : ℕ → ℕ → ℕ → V) (q w c i j : ℕ) : V :=
  (p.image I q).pixel p.pad c (w / p.hSlides * p.stride + i) (w % p.hSlides * p.stride + j)

/-- a row for each window, and a column of ones -/
def im2col [Zero V] [One V] (I : ℕ → ℕ → ℕ → V) (r t : ℕ) : V :=
  if t < p.size then
    p.entry I (r / p.windows) (r % p.windows) (t / (p.kernelSize * p.kernelSize))
      (t % (p.kernelSize * p.kernelSize) / p.kernelSize)
      (t % (p.kernelSize * p.kernelSize) % p.kernelSize)
  else 1

/-- the images come out as their matrix, and no two blocks share a key -/
def Flattens (V : Type) [Zero V] [One V] : Prop :=
  ∀ (I : ℕ → ℕ → ℕ → V) (blocks : List (ℕ × ImageBlock V)),
    ImageChunksToBlock.Aggregates p.blockX (p.chunks I) blocks →
    KeysApart p.blockX (p.chunks I) ∧ ∃ out,
      (blocks.mapM fun e => ImageBlockToMatrix.getProjection p.blockX p.blockY p.padding
        (p.n * p.windows) (p.size + 1) e.2) = some out ∧
      Represents p.blockX p.blockY p.padding (p.n * p.windows) (p.size + 1) (p.im2col I) out

/-- the ones are in the row of their window, and the keys are apart -/
def Fits : Prop :=
  p.n = 0 ∨ 0 < p.size ∧ (¬ p.blockY ∣ p.size ∨ p.windows = 1) ∧
    (p.size / p.blockY < 10000 ∨ p.n * p.windows ≤ p.blockX)

instance : Decidable p.Fits := inferInstanceAs (Decidable (_ ∨ _))

end ImagePlan

/-! ## Windows -/

namespace ImagePlan
variable {p : ImagePlan}

theorem windows_pos : 0 < p.windows := Nat.mul_pos (Nat.succ_pos _) (Nat.succ_pos _)

/-- windows are inside the image and its border -/
theorem inside {w i j : ℕ} (hw : w < p.windows) (hi : i < p.kernelSize) (hj : j < p.kernelSize) :
    w / p.hSlides * p.stride + i < p.x + p.pad * 2 ∧ w % p.hSlides * p.stride + j < p.y + p.pad * 2 := by
  have hr : w / p.hSlides ≤ (p.x + p.pad * 2 - p.kernelSize) / p.stride :=
    Nat.lt_succ_iff.mp (Nat.div_lt_of_lt_mul hw)
  have hc : w % p.hSlides ≤ (p.y + p.pad * 2 - p.kernelSize) / p.stride :=
    Nat.lt_succ_iff.mp (Nat.mod_lt w (Nat.succ_pos _))
  have hr' := (Nat.le_div_iff_mul_le p.stride_pos).mp hr
  have hc' := (Nat.le_div_iff_mul_le p.stride_pos).mp hc
  have hx := p.kernel_x
  have hy := p.kernel_y
  omega

theorem getWinValue_eq [Zero V] {I : ℕ → ℕ → ℕ → V} {q w c i j : ℕ} (hw : w < p.windows)
    (hi : i < p.kernelSize) (hj : j < p.kernelSize) :
    (p.image I q).getWinValue w i j p.stride c p.kernelSize p.pad = p.entry I q w c i j := by
  obtain ⟨ha, hb⟩ := inside hw hi hj
  rw [entry, Image.pixel, Image.getWinValue]
  show (if 0 < p.pad ∧ (((w / p.hSlides * p.stride + i : ℕ) : ℤ) - p.pad < 0 ∨
      ((w % p.hSlides * p.stride + j : ℕ) : ℤ) - p.pad < 0 ∨
      (p.x : ℤ) ≤ ((w / p.hSlides * p.stride + i : ℕ) : ℤ) - p.pad ∨
      (p.y : ℤ) ≤ ((w % p.hSlides * p.stride + j : ℕ) : ℤ) - p.pad) then (0 : V)
    else I q c ((((w / p.hSlides * p.stride + i : ℕ) : ℤ) - p.pad) * p.y +
      (((w % p.hSlides * p.stride + j : ℕ) : ℤ) - p.pad)).toNat) =
    if (p.pad ≤ w / p.hSlides * p.stride + i ∧ w / p.hSlides * p.stride + i < p.x + p.pad) ∧
      p.pad ≤ w % p.hSlides * p.stride + j ∧ w % p.hSlides * p.stride + j < p.y + p.pad then
      I q c ((w / p.hSlides * p.stride + i - p.pad) * p.y + (w % p.hSlides * p.stride + j - p.pad)) else 0
  generalize w / p.hSlides * p.stride + i = a at *
  generalize w % p.hSlides * p.stride + j = b at *
  by_cases hin : (p.pad ≤ a ∧ a < p.x + p.pad) ∧ p.pad ≤ b ∧ b < p.y + p.pad
  · have hpos : (((a : ℤ) - p.pad) * p.y + ((b : ℤ) - p.pad)).toNat = (a - p.pad) * p.y + (b - p.pad) := by
      rw [← Nat.cast_sub hin.1.1, ← Nat.cast_sub hin.2.1, ← Nat.cast_mul, ← Nat.cast_add, Int.toNat_natCast]
    rw [if_neg (by omega), if_pos hin, hpos]
  · rw [if_pos (by omega), if_neg hin]

/-! ## Rows -/

section
variable [Zero V] [One V] {I : ℕ → ℕ → ℕ → V}

/-- the chunks of window `w` of image `q`; the last one has the number `next` if it is begun behind the row -/
def rowChunks (p : ImagePlan) (I : ℕ → ℕ → ℕ → V) (q w next : ℕ) : List (ImageChunk V) :=
  (ImageToChunks.window p.blockY p.kernelSize p.stride p.pad (q * p.windows) (p.image I q) w).finish
    p.blockY next (q * p.windows) 1

theorem getProjection_eq (q : ℕ) :
    ImageToChunks.getProjection p.blockY p.kernelSize p.stride p.pad (p.image I q) =
      (List.range p.windows).flatMap fun w => p.rowChunks I q w (min (w + 1) (p.windows - 1)) := by
  have hrun : ∀ m, (List.range (m + 1)).foldl
      (ImageToChunks.step p.blockY p.kernelSize p.stride p.pad (q * p.windows) (p.image I q)) ([], none) =
      ((List.range m).flatMap fun w => p.rowChunks I q w (w + 1),
        some (ImageToChunks.window p.blockY p.kernelSize p.stride p.pad (q * p.windows) (p.image I q) m)) := by
    intro m
    induction m with
    | zero => rfl
    | succ m ih =>
      rw [List.range_succ, List.foldl_append, ih, List.range_succ, List.flatMap_append,
        List.flatMap_singleton]
      rfl
  obtain ⟨m, hm⟩ : ∃ m, p.windows = m + 1 := ⟨p.windows - 1, by have := windows_pos (p := p); omega⟩
  have hrun := hrun m
  rw [← hm] at hrun
  show ((List.range p.windows).foldl (ImageToChunks.step _ _ _ _ (q * p.windows) _) _).1 ++ _ = _
  show _ ++ (((List.range p.windows).foldl (ImageToChunks.step _ _ _ _ (q * p.windows) _) _).2.elim []
    fun row => row.finish p.blockY (p.windows - 1) (q * p.windows) 1) = _
  rw [hrun, hm, List.range_succ, List.flatMap_append, List.flatMap_singleton, Nat.add_sub_cancel,
    Nat.min_eq_right (Nat.le_succ m)]
  refine congrArg₂ (· ++ ·) (List.flatMap_congr fun w hw => ?_) ?_
  · rw [Nat.min_eq_left (List.mem_range.mp hw)]
  · rw [rowChunks, hm]
    rfl

theorem mem_chunks {c : ImageChunk V} :
    c ∈ p.chunks I ↔ ∃ q < p.n, ∃ w < p.windows, c ∈ p.rowChunks I q w (min (w + 1) (p.windows - 1)) := by
  rw [chunks, List.mem_flatMap]
  refine exists_congr fun q => ?_
  rw [List.mem_range, getProjection_eq, List.mem_flatMap]
  refine and_congr_right fun _ => exists_congr fun w => ?_
  rw [List.mem_range]

/-- the values of a window, in the order of the loops -/
def values (p : ImagePlan) (I : ℕ → ℕ → ℕ → V) (r : ℕ) : List V := (List.range p.size).map (p.im2col I r)

theorem length_values (r : ℕ) : (p.values I r).length = p.size := by
  rw [values, List.length_map, List.length_range]

theorem row_eq {q w : ℕ} (hw : w < p.windows) :
    (q * p.windows + w) / p.windows = q ∧ (q * p.windows + w) % p.windows = w := by
  rw [Nat.mul_comm q, Nat.mul_add_div windows_pos, Nat.mul_add_mod, Nat.div_eq_of_lt hw,
    Nat.mod_eq_of_lt hw]
  exact ⟨rfl, rfl⟩

/-- the matrix, by channel and offset in the window -/
theorem im2col_entry {q w c i j : ℕ} (hw : w < p.windows) (hc : c < p.z) (hi : i < p.kernelSize)
    (hj : j < p.kernelSize) :
    p.im2col I (q * p.windows + w) (c * (p.kernelSize * p.kernelSize) + (i * p.kernelSize + j)) =
      p.entry I q w c i j := by
  have hoffset : i * p.kernelSize + j < p.kernelSize * p.kernelSize := by
    have := Nat.mul_le_mul_right p.kernelSize (Nat.succ_le_of_lt hi)
    rw [Nat.succ_mul] at this
    omega
  have hlt : c * (p.kernelSize * p.kernelSize) + (i * p.kernelSize + j) < p.size := by
    have := Nat.mul_le_mul_right (p.kernelSize * p.kernelSize) (Nat.succ_le_of_lt hc)
    rw [Nat.succ_mul] at this
    show _ < p.z * (p.kernelSize * p.kernelSize)
    omega
  have hk : 0 < p.kernelSize := Nat.zero_lt_of_lt hi
  rw [im2col, if_pos hlt, (row_eq hw).1, (row_eq hw).2, Nat.mul_comm c, Nat.mul_add_div (Nat.mul_pos hk hk),
    Nat.div_eq_of_lt hoffset, Nat.add_zero, Nat.mul_add_mod, Nat.mod_eq_of_lt hoffset, Nat.mul_comm i,
    Nat.mul_add_div hk, Nat.div_eq_of_lt hj, Nat.add_zero, Nat.mul_add_mod, Nat.mod_eq_of_lt hj]

theorem window_eq {q w : ℕ} (hw : w < p.windows) :
    ImageToChunks.window p.blockY p.kernelSize p.stride p.pad (q * p.windows) (p.image I q) w =
      (p.values I (q * p.windows + w)).foldl (RowChunks.push p.blockY w (q * p.windows))
        (RowChunks.start p.blockY w (q * p.windows)) := by
  have hvalues : p.values I (q * p.windows + w) = (nested p.z (p.kernelSize * p.kernelSize)).map fun t =>
      (p.image I q).getWinValue w (t.2 / p.kernelSize) (t.2 % p.kernelSize) p.stride t.1 p.kernelSize
        p.pad := by
    rw [values, nested_eq_map, List.map_map]
    refine List.map_congr_left fun t ht => ?_
    have ht := List.mem_range.mp ht
    have hk : 0 < p.kernelSize * p.kernelSize := Nat.pos_of_mul_pos_left (lt_of_le_of_lt (Nat.zero_le t) ht)
    have hk' : 0 < p.kernelSize := Nat.pos_of_mul_pos_left hk
    have hmod := Nat.mod_lt t hk
    rw [im2col, if_pos ht, (row_eq hw).1, (row_eq hw).2, Function.comp_apply,
      getWinValue_eq hw (Nat.div_lt_of_lt_mul hmod) (Nat.mod_lt _ hk')]
  have hnested : nested p.z (p.kernelSize * p.kernelSize) =
      (List.range p.z).flatMap fun c => (List.range (p.kernelSize * p.kernelSize)).map (Prod.mk c) := rfl
  rw [hvalues, hnested, List.map_flatMap, List.foldl_flatMap, ImageToChunks.window]
  congr 1
  funext s c
  rw [nested_eq_map, List.foldl_map, List.map_map, List.foldl_map]
  rfl

theorem pushed_window {q w : ℕ} (hw : w < p.windows) :
    Pushed p.blockY w (q * p.windows) (p.values I (q * p.windows + w))
      (ImageToChunks.window p.blockY p.kernelSize p.stride p.pad (q * p.windows) (p.image I q) w) := by
  rw [window_eq hw]
  exact pushed_run p.blockY_pos w (q * p.windows) _

/-- all columns of a row -/
theorem values_one (r : ℕ) :
    p.values I r ++ [1] = (List.range (p.size + 1)).map (p.im2col I r) := by
  rw [List.range_succ, List.map_append, List.map_singleton, im2col, if_neg (Nat.lt_irrefl _)]
  rfl

/-! ## Where it works -/

theorem rowChunks_of_fits (hsize : 0 < p.size) (h : ¬ p.blockY ∣ p.size ∨ p.windows = 1) {q w : ℕ}
    (hw : w < p.windows) :
    p.rowChunks I q w (min (w + 1) (p.windows - 1)) = (List.range (p.size / p.blockY + 1)).map
      (piece p.blockY w (q * p.windows)
        ((List.range (p.size + 1)).map (p.im2col I (q * p.windows + w)))) := by
  have hpushed := pushed_window (I := I) (q := q) hw
  have hlen := length_values (I := I) (p := p) (q * p.windows + w)
  rw [rowChunks, ← values_one]
  by_cases hdvd : p.blockY ∣ p.size
  · have hone := h.resolve_left (not_not_intro hdvd)
    have hlast : min (w + 1) (p.windows - 1) = w := by omega
    rw [hlast, hpushed.finish_full p.blockY_pos (by rw [hlen]; exact hsize)
      (by rw [hlen]; exact Nat.mod_eq_zero_of_dvd hdvd), hlen, List.range_succ, List.map_append,
      List.map_singleton]
    congr 2
    rw [piece, window, Nat.div_mul_cancel hdvd, ← hlen, List.drop_left, List.take_of_length_le]
    exact p.blockY_pos
  · rw [hpushed.finish_fits p.blockY_pos (by rw [hlen]; exact fun h0 => hdvd (Nat.dvd_of_mod_eq_zero h0)),
      hlen]

theorem cuts (hsize : 0 < p.size) (h : ¬ p.blockY ∣ p.size ∨ p.windows = 1) (I : ℕ → ℕ → ℕ → V) :
    Cuts p.blockY (p.n * p.windows) (p.size + 1) (p.im2col I) (p.chunks I) := by
  have hcol : ∀ j, j < p.size / p.blockY + 1 ↔ j * p.blockY < p.size + 1 := fun j => by
    rw [Nat.lt_succ_iff, Nat.lt_succ_iff, Nat.le_div_iff_mul_le p.blockY_pos]
  have hmem : ∀ c, c ∈ p.chunks I ↔ ∃ q < p.n, ∃ w < p.windows, ∃ j < p.size / p.blockY + 1,
      c = piece p.blockY w (q * p.windows)
        ((List.range (p.size + 1)).map (p.im2col I (q * p.windows + w))) j := by
    intro c
    rw [mem_chunks]
    refine exists_congr fun q => and_congr_right fun _ => exists_congr fun w => and_congr_right fun hw => ?_
    rw [rowChunks_of_fits hsize h hw, List.mem_map]
    refine exists_congr fun j => ?_
    rw [List.mem_range]
    exact and_congr_right fun _ => eq_comm
  refine ⟨fun c hc => ?_, fun c hc => ?_, fun r hr j hj => ?_⟩
  · obtain ⟨q, hq, w, hw, j, hj, rfl⟩ := (hmem c).mp hc
    refine ⟨?_, (hcol j).mp hj⟩
    show q * p.windows + w < p.n * p.windows
    have := Nat.mul_le_mul_right p.windows (Nat.succ_le_of_lt hq)
    rw [Nat.succ_mul] at this
    omega
  · obtain ⟨q, hq, w, hw, j, hj, rfl⟩ := (hmem c).mp hc
    exact window_range _ _ _ _
  · have hdiv := Nat.div_add_mod' r p.windows
    refine ⟨_, (hmem _).mpr ⟨r / p.windows, Nat.div_lt_of_lt_mul (Nat.mul_comm _ _ ▸ hr), r % p.windows,
      Nat.mod_lt r windows_pos, j, (hcol j).mpr hj, rfl⟩, ?_, rfl⟩
    exact hdiv

theorem keysApart (hsize : 0 < p.size) (h : ¬ p.blockY ∣ p.size ∨ p.windows = 1)
    (hkeys : p.size / p.blockY < 10000 ∨ p.n * p.windows ≤ p.blockX) :
    KeysApart p.blockX (p.chunks I) := by
  have hcuts := cuts hsize h I
  intro c hc c' hc' heq
  obtain ⟨hrow, hcol⟩ := hcuts.inside c hc
  obtain ⟨hrow', hcol'⟩ := hcuts.inside c' hc'
  rw [Nat.lt_succ_iff, ← Nat.le_div_iff_mul_le p.blockY_pos] at hcol hcol'
  change c.getChunkActualRowIndex / p.blockX * 10000 + c.yIndex =
    c'.getChunkActualRowIndex / p.blockX * 10000 + c'.yIndex at heq
  rcases hkeys with hkeys | hkeys
  · omega
  · rw [Nat.div_eq_of_lt (by omega), Nat.div_eq_of_lt (by omega)] at heq ⊢
    omega

theorem flattens_of_fits (h : p.Fits) : p.Flattens V := by
  intro I blocks ha
  rcases h with hnone | ⟨hsize, hrow, hkeys⟩
  · have hchunks : p.chunks I = [] := by
      rw [chunks, hnone]
      rfl
    rw [hchunks] at ha ⊢
    rw [Aggregation.Aggregates.eq_nil ha, hnone, Nat.zero_mul]
    exact ⟨fun c hc => (nomatch hc), [], rfl, represents_nil _ _ _ _ _⟩
  · have hapart := keysApart (I := I) hsize hrow hkeys
    exact ⟨hapart, (cuts hsize hrow I).represents p.blockX_pos hapart ha p.padding⟩

/-! ## Where it does not -/

/-- a row without values has a second column -/
theorem not_flattens_empty (h : p.size = 0) (hn : 0 < p.n) : ¬ p.Flattens V := by
  intro hflat
  obtain ⟨blocks, ha⟩ := Aggregation.exists_aggregates
    (ImageChunksToBlock.getKeyProjection p.blockX) (ImageBlock.ofChunk p.blockX) ImageBlock.plus
    (p.chunks fun _ _ _ => (0 : V))
  obtain ⟨-, out, hout, hrep⟩ := hflat _ blocks ha
  have hrows : ∀ q w next, w < p.windows → p.rowChunks (fun _ _ _ => (0 : V)) q w next =
      [RowChunks.make p.blockY w (q * p.windows) 0 [],
        RowChunks.make p.blockY next (q * p.windows) 1 [1]] := by
    intro q w next hw
    rw [rowChunks, window_eq hw, List.length_eq_zero_iff.mp ((length_values _).trans h)]
    exact finish_empty _ _ _ _ _
  obtain ⟨b, hb⟩ := ha.exists_output (a := RowChunks.make p.blockY (min 1 (p.windows - 1))
    (0 * p.windows) 1 [1]) (mem_chunks.mpr ⟨0, hn, 0, windows_pos, by
      rw [hrows _ _ _ windows_pos]
      exact List.mem_cons_of_mem _ (List.mem_singleton_self _)⟩)
  obtain ⟨c, hc, -, hJ, -⟩ := (gathers_of_merged (ha.merged _ hb)).first
  obtain ⟨hin, hkey⟩ := List.mem_filter.mp hc
  have hkey := of_decide_eq_true hkey
  change c.getChunkActualRowIndex / p.blockX * 10000 + c.yIndex = _ * 10000 + 1 at hkey
  obtain ⟨m, hm, hproj⟩ := Grid.mapM_mem hout hb
  obtain ⟨hindex, -⟩ := ImageBlockToMatrix.getProjection_cases hproj
  have hcol := (hrep.inside hm).2
  rw [(Prod.mk.inj hindex).2, hJ, h] at hcol
  obtain ⟨q, -, w, hw, hmem⟩ := mem_chunks.mp hin
  rw [hrows _ _ _ hw, List.mem_cons, List.mem_singleton] at hmem
  have hy := p.blockY_pos
  rcases hmem with rfl | rfl
  · change _ * 10000 + 0 = _ at hkey
    omega
  · change 1 * p.blockY < 0 + 1 at hcol
    omega

/-- the one of the first row comes to the second row -/
theorem not_flattens_full (hsize : 0 < p.size) (hdvd : p.blockY ∣ p.size) (hw : 2 ≤ p.windows)
    (hn : 0 < p.n) : ¬ p.Flattens V := by
  intro hflat
  obtain ⟨blocks, ha⟩ := Aggregation.exists_aggregates
    (ImageChunksToBlock.getKeyProjection p.blockX) (ImageBlock.ofChunk p.blockX) ImageBlock.plus
    (p.chunks fun _ _ _ => (0 : V))
  obtain ⟨-, out, hout, hrep⟩ := hflat _ blocks ha
  have hy := p.blockY_pos
  have hx := p.blockX_pos
  -- what is in the column of ones, and in the first row
  have hmem : ∀ c ∈ p.chunks fun _ _ _ => (0 : V), c.yIndex < p.size / p.blockY ∨
      c.yIndex = p.size / p.blockY ∧ c.chunk = [1] ∧ 0 < c.getChunkActualRowIndex := by
    intro c hc
    obtain ⟨q, -, w, hw', hc⟩ := mem_chunks.mp hc
    have hlen := length_values (I := fun _ _ _ => (0 : V)) (p := p) (q * p.windows + w)
    rw [rowChunks, (pushed_window hw').finish_full hy (by rw [hlen]; exact hsize)
      (by rw [hlen]; exact Nat.mod_eq_zero_of_dvd hdvd), hlen, List.mem_append, List.mem_map,
      List.mem_singleton] at hc
    rcases hc with ⟨j, hj, rfl⟩ | rfl
    · exact .inl (List.mem_range.mp hj)
    · refine .inr ⟨rfl, rfl, ?_⟩
      show 0 < q * p.windows + min (w + 1) (p.windows - 1)
      omega
  have hrows : 0 < p.n * p.windows := Nat.mul_pos hn windows_pos
  obtain ⟨m, hm, hi, hj⟩ := hrep.exists_block (i := 0) (j := p.size / p.blockY) (by omega)
    (by rw [Nat.div_mul_cancel hdvd]; exact Nat.lt_succ_self _)
  have hnums := hrep.rowNums m hm
  have hcols := hrep.colNums m hm
  rw [hi, Nat.zero_mul, Nat.sub_zero] at hnums
  rw [hj, Nat.div_mul_cancel hdvd, Nat.add_sub_cancel_left] at hcols
  obtain ⟨e, he, hproj⟩ := Grid.mem_mapM hout hm
  obtain ⟨hindex, -, -, -, -, hdata⟩ := ImageBlockToMatrix.getProjection_cases hproj
  have hI : e.2.blockXIndex = 0 := (Prod.mk.inj hindex).1.symm.trans hi
  have hJ : e.2.blockYIndex = p.size / p.blockY := (Prod.mk.inj hindex).2.symm.trans hj
  obtain ⟨v, -, hv⟩ := hdata 0 (by rw [hnums]; split <;> omega) 0 (by rw [hcols]; split <;> omega)
  have hg := gathers_of_merged (ha.merged e he)
  obtain ⟨c, hc, hcI, hcJ, hW⟩ := hg.first
  obtain ⟨hin, hkey⟩ := List.mem_filter.mp hc
  have hkey := of_decide_eq_true hkey
  change c.getChunkActualRowIndex / p.blockX * 10000 + c.yIndex = e.1 at hkey
  rw [← hcI, ← hcJ, hI, hJ] at hkey
  have hcount : e.2.featureCount = 1 := by
    rw [hW]
    rcases hmem c hin with hlt | ⟨-, hone, -⟩
    · omega
    · rw [hone]
      rfl
  have hblock : 0 < e.2.getActualBlockSize := by
    rw [ImageBlock.getActualBlockSize, ← List.length_map Prod.fst]
    exact List.length_pos_of_mem (hg.rows c hc)
  have hnone : e.2.chunks.lookup (e.2.blockXIndex * e.2.blockXSize + 0) = none := by
    rw [Table.lookup_eq_none]
    intro entry hentry heq
    obtain ⟨c', hc', rfl⟩ := hg.entries entry hentry
    obtain ⟨hin', hkey'⟩ := List.mem_filter.mp hc'
    have hkey' := of_decide_eq_true hkey'
    change c'.getChunkActualRowIndex / p.blockX * 10000 + c'.yIndex = e.1 at hkey'
    rw [hI, Nat.zero_mul] at heq
    have heq : c'.getChunkActualRowIndex = 0 := heq
    rw [heq, Nat.zero_div] at hkey'
    rcases hmem c' hin' with hlt | ⟨-, -, hrow⟩ <;> omega
  rw [ImageBlockToMatrix.data, if_neg (by omega), hnone] at hv
  cases hv

/-- the first block of the second row has the key of block 10000 of the first row -/
theorem not_keysApart (hsize : 0 < p.size) (h : ¬ p.blockY ∣ p.size ∨ p.windows = 1)
    (hcol : 10000 ≤ p.size / p.blockY) (hrow : p.blockX < p.n * p.windows) :
    ¬ KeysApart p.blockX (p.chunks I) := by
  intro hkeys
  have hcuts := cuts hsize h I
  have hx := p.blockX_pos
  obtain ⟨c, hc, hr, hj⟩ := hcuts.all p.blockX hrow 0 (by omega)
  obtain ⟨c', hc', hr', hj'⟩ := hcuts.all 0 (by omega) 10000
    (Nat.lt_succ_of_le ((Nat.le_div_iff_mul_le p.blockY_pos).mp hcol))
  have heq : ImageChunksToBlock.getKeyProjection p.blockX c =
      ImageChunksToBlock.getKeyProjection p.blockX c' := by
    rw [ImageChunksToBlock.getKeyProjection, ImageChunksToBlock.getKeyProjection, hr, hr', hj, hj',
      Nat.div_self hx, Nat.zero_div]
  have hy := (hkeys c hc c' hc' heq).2
  omega

theorem fits_of_flattens (h : p.Flattens V) : p.Fits := by
  by_cases hn : p.n = 0
  · exact .inl hn
  have hn : 0 < p.n := Nat.pos_of_ne_zero hn
  have hsize : 0 < p.size := Nat.pos_of_ne_zero fun h0 => not_flattens_empty h0 hn h
  have hrow : ¬ p.blockY ∣ p.size ∨ p.windows = 1 := by
    by_contra hnot
    rw [not_or, not_not] at hnot
    have hw := windows_pos (p := p)
    exact not_flattens_full hsize hnot.1 (by omega) hn h
  refine .inr ⟨hsize, hrow, ?_⟩
  by_contra hnot
  rw [not_or, not_lt, not_le] at hnot
  obtain ⟨blocks, ha⟩ := Aggregation.exists_aggregates
    (ImageChunksToBlock.getKeyProjection p.blockX) (ImageBlock.ofChunk p.blockX) ImageBlock.plus
    (p.chunks fun _ _ _ => (0 : V))
  exact not_keysApart hsize hrow hnot.1 hnot.2 (h _ blocks ha).1

/-- **The images come out as the matrix of their windows just where the column of ones does not begin a
block, or there is one window, and where there are at most 10000 columns of blocks or one row of
blocks.** -/
theorem flattens_iff : p.Flattens V ↔ p.Fits := ⟨fits_of_flattens, flattens_of_fits⟩

end

/-- one image with two windows, and columns of one element -/
def twoWindows : ImagePlan :=
  { n := 1, x := 1, y := 2, z := 1, kernelSize := 1, stride := 1, pad := 0, blockX := 2, blockY := 1
    padding := false, stride_pos := Nat.one_pos, blockX_pos := Nat.two_pos, blockY_pos := Nat.one_pos
    kernel_x := by decide, kernel_y := by decide }

theorem flattens_not_always : ¬ ∀ p : ImagePlan, p.Flattens ℤ := fun h =>
  absurd (fits_of_flattens (h twoWindows)) (by decide)

end ImagePlan
end Netsdb.Conv2d
