import Netsdb.Conv2d.ConvResultToChunks
import Netsdb.Conv2d.ImageToChunks

/-!
# The images of a convolution (`ConvChunksToImage.h`, `Image.h`)

* `ConvChunksToImage.getValueProjection`, `Image.plus`   as in the source;
* `ResultPlan.Reassembles`   the result of a convolution comes out as its images, for every order of
                             merging;
* `reassembles_iff`          it does where there is one image, and nothing is lost at the edge of the blocks.
-/

set_option linter.unusedSectionVars false

namespace Netsdb.Conv2d
open Aggregation
variable {V : Type}

/-! ## Images -/

/-- an image whose channels may be null -/
abbrev ConvImage (V : Type) := Image (List (Option (List V)))

/-- `operator+`: a channel that is there stays -/
def Image.plus (this addMeIn : ConvImage V) : ConvImage V :=
  { this with matrices := List.zipWith Option.or this.matrices addMeIn.matrices }

namespace ConvChunksToImage

/-- `data[i + j] = in[j]` -/
def copyAt : List V → ℕ → List V → List V
  | data, _, [] => data
  | data, i, v :: l => copyAt (data.set i v) (i + 1) l

/-- `none`: an assertion fails, or a value is written behind the channel -/
def walk (size : ℕ) (chunks : List (ℕ × List V)) : ℕ → ℕ → List V → Option (List V)
  | 0, i, data => if i < size then none else some data
  | fuel + 1, i, data =>
    if i < size then
      (chunks.lookup i).bind fun l =>
        if i + l.length ≤ size then walk size chunks fuel (i + l.length) (copyAt data i l) else none
    else some data

/-- the images are aggregated by `block_x_index`, which is their index -/
def getValueProjection [Zero V] (x y z : ℕ) (aggMe : ImageBlock V) : Option (ConvImage V) :=
  (walk (x * y) aggMe.chunks (x * y) 0 (List.replicate (x * y) 0)).map fun channel =>
    { index := aggMe.blockXIndex, x, y, z
      matrices := (List.range z).map fun c => if c = aggMe.blockYIndex then some channel else none }

end ConvChunksToImage

/-! ## The whole way -/

/-- the images, and the blocks of the result -/
structure ResultPlan where
  n : ℕ
  x : ℕ
  y : ℕ
  z : ℕ
  blockX : ℕ
  blockY : ℕ
  padding : Bool
  blockX_pos : 0 < blockX
  blockY_pos : 0 < blockY

namespace ResultPlan
variable (p : ResultPlan)

/-- the windows of an image -/
def size : ℕ := p.x * p.y

/-- the images of the result `R` -/
structure Right (R : ℕ → ℕ → V) (images : List (ConvImage V)) : Prop where
  indices : (images.map Image.index).Perm (List.range p.n)
  channels : ∀ img ∈ images, img.matrices = (List.range p.z).map fun f =>
    some ((List.range p.size).map fun q => R (img.index * p.size + q) f)

/-- the result comes out as its images -/
def Reassembles (V : Type) [Zero V] : Prop :=
  ∀ (R : ℕ → ℕ → V) blocks, Represents p.blockX p.blockY p.padding (p.n * p.size) p.z R blocks →
    ∃ chunks, blocks.mapM (ConvResultToChunks.getProjection p.n) = some chunks ∧
      ∀ imageBlocks, ImageChunksToBlock.Aggregates p.size chunks.flatten imageBlocks →
        ∃ values, (imageBlocks.mapM fun e => ConvChunksToImage.getValueProjection p.x p.y p.z e.2) =
            some values ∧
          ∀ images, Aggregates Image.index id Image.plus values images →
            p.Right R (images.map Prod.snd)

/-- there is no image, or one and nothing is lost at the edge -/
def Fits : Prop :=
  p.n = 0 ∨ p.n = 1 ∧ 0 < p.size ∧ 0 < p.z ∧ Whole p.padding p.blockX p.size ∧
    Whole p.padding p.blockY p.z

end ResultPlan

/-! ## One channel -/

section
open ConvChunksToImage
variable {data l : List V} {chunks : List (ℕ × List V)} {size i t : ℕ}

theorem length_copyAt (l : List V) : ∀ data i, (copyAt data i l).length = data.length := by
  induction l with
  | nil => exact fun _ _ => rfl
  | cons v l ih => exact fun data i => (ih _ _).trans (List.length_set ..)

theorem getElem?_copyAt (l : List V) : ∀ data i, i + l.length ≤ data.length →
    (copyAt data i l)[t]? = if i ≤ t ∧ t < i + l.length then l[t - i]? else data[t]? := by
  induction l with
  | nil =>
    intro data i _
    rw [if_neg (by rw [List.length_nil]; omega)]
    rfl
  | cons v l ih =>
    intro data i hle
    rw [List.length_cons] at hle
    rw [copyAt, ih _ _ (by rw [List.length_set]; omega), List.getElem?_set, List.length_cons]
    rcases Nat.lt_trichotomy t i with hlt | rfl | hgt
    · rw [if_neg (by omega), if_neg (by omega), if_neg (by omega)]
    · rw [if_neg (by omega), if_pos rfl, if_pos (by omega), if_pos (by omega), Nat.sub_self]
      rfl
    · by_cases hin : t < i + 1 + l.length
      · obtain ⟨d, hd⟩ : ∃ d, t - i = d + 1 := ⟨t - i - 1, by omega⟩
        rw [if_pos (by omega), if_pos (by omega), hd, show t - (i + 1) = d by omega]
        rfl
      · rw [if_neg (by omega), if_neg (by omega), if_neg (by omega)]

/-- what is in a channel has been in a row -/
theorem walk_mem {fuel : ℕ} : ∀ {i : ℕ} {data r : List V}, walk size chunks fuel i data = some r →
    data.length = size →
    (∀ t < i, ∀ v, data[t]? = some v → ∃ e ∈ chunks, e.1 ≤ t ∧ e.2[t - e.1]? = some v) →
    ∀ t < size, ∀ v, r[t]? = some v → ∃ e ∈ chunks, e.1 ≤ t ∧ e.2[t - e.1]? = some v := by
  induction fuel with
  | zero =>
    intro i data r h _ hdata t ht
    rw [walk] at h
    split at h
    · cases h
    · cases h
      exact hdata t (by omega)
  | succ fuel ih =>
    intro i data r h hlen hdata t ht
    rw [walk] at h
    split at h
    · next hi =>
      obtain ⟨l, hl, h⟩ := Option.bind_eq_some_iff.mp h
      split at h
      · next hle =>
        refine ih h ((length_copyAt l data i).trans hlen) (fun t ht v hv => ?_) t ht
        rw [getElem?_copyAt l data i (by omega)] at hv
        split at hv
        · next hin => exact ⟨(i, l), Table.mem_of_lookup hl, hin.1, hv⟩
        · next hout => exact hdata t (by omega) v hv
      · cases h
    · cases h
      exact hdata t (by omega)

/-- the rows follow one another -/
theorem walk_spec {P : ℕ → Prop} {g : ℕ → V} (hstep : ∀ i < size, P i → ∃ l, chunks.lookup i = some l ∧
      0 < l.length ∧ i + l.length ≤ size ∧ (i + l.length < size → P (i + l.length)) ∧
      ∀ j v, l[j]? = some v → v = g (i + j)) (fuel : ℕ) :
    ∀ {i : ℕ} {data : List V}, size - i ≤ fuel → i ≤ size → (i < size → P i) → data.length = size →
      (∀ t < i, data[t]? = some (g t)) →
      walk size chunks fuel i data = some ((List.range size).map g) := by
  have hdone : ∀ {i : ℕ} {data : List V}, i ≤ size → ¬ i < size → data.length = size →
      (∀ t < i, data[t]? = some (g t)) → some data = some ((List.range size).map g) := by
    intro i data hle hend hlen hdata
    refine congrArg some (List.ext_getElem? fun t => ?_)
    rw [List.getElem?_map]
    by_cases ht : t < size
    · rw [hdata t (by omega), List.getElem?_range ht]
      rfl
    · rw [List.getElem?_eq_none (by omega), List.getElem?_eq_none (by rw [List.length_range]; omega)]
      rfl
  induction fuel with
  | zero =>
    intro i data hfuel hle _ hlen hdata
    have hend : ¬ i < size := by omega
    rw [walk, if_neg hend]
    exact hdone hle hend hlen hdata
  | succ fuel ih =>
    intro i data hfuel hle hP hlen hdata
    rw [walk]
    split
    · next hi =>
      obtain ⟨l, hl, hpos, hin, hnext, hval⟩ := hstep i hi (hP hi)
      rw [hl, Option.bind_some, if_pos hin]
      refine ih (by omega) hin hnext ((length_copyAt l data i).trans hlen) fun t ht => ?_
      rw [getElem?_copyAt l data i (by omega)]
      split
      · next hrow =>
        have hlt : t - i < l.length := by omega
        rw [List.getElem?_eq_getElem hlt, hval (t - i) _ (List.getElem?_eq_getElem hlt),
          Nat.add_sub_cancel' hrow.1]
      · next hrow => exact hdata t (by omega)
    · next hend => exact hdone hle hend hlen hdata

end

/-! ## Merged images -/

/-- the channels of these images -/
structure Collects (z : ℕ) (l : List (ConvImage V)) (img : ConvImage V) : Prop where
  index : ∃ a ∈ l, img.index = a.index
  length : img.matrices.length = z
  source : ∀ (f : ℕ) (ch : List V), img.matrices[f]? = some (some ch) →
    ∃ a ∈ l, a.matrices[f]? = some (some ch)
  target : ∀ a ∈ l, ∀ (f : ℕ) (ch : List V), a.matrices[f]? = some (some ch) →
    ∃ ch', img.matrices[f]? = some (some ch')

theorem Collects.channel {z f : ℕ} {l : List (ConvImage V)} {img : ConvImage V} (h : Collects z l img)
    (hf : f < z) : ∃ o, img.matrices[f]? = some o :=
  ⟨_, List.getElem?_eq_getElem (h.length.symm ▸ hf)⟩

theorem collects_of_merged {z : ℕ} {l : List (ConvImage V)} {img : ConvImage V}
    (h : Merged id Image.plus l img) : (∀ a ∈ l, a.matrices.length = z) → Collects z l img := by
  induction h with
  | one a =>
    intro hl
    have ha := List.mem_singleton_self a
    refine ⟨⟨a, ha, rfl⟩, hl a ha, fun f ch hf => ⟨a, ha, hf⟩, fun b hb f ch hf => ?_⟩
    rw [List.mem_singleton.mp hb] at hf
    exact ⟨ch, hf⟩
  | @add l l' b b' _ _ ih ih' =>
    intro hl
    have h := ih fun a ha => hl a (List.mem_append_left _ ha)
    have h' := ih' fun a ha => hl a (List.mem_append_right _ ha)
    have hget : ∀ (f : ℕ) (ch : List V), (b.plus b').matrices[f]? = some (some ch) ↔ b.matrices[f]? = some (some ch) ∨
        b.matrices[f]? = some none ∧ b'.matrices[f]? = some (some ch) := by
      intro f ch
      show (List.zipWith Option.or b.matrices b'.matrices)[f]? = _ ↔ _
      rw [List.getElem?_zipWith]
      rcases Nat.lt_or_ge f z with hlt | hge
      · obtain ⟨o, ho⟩ := h.channel hlt
        obtain ⟨o', ho'⟩ := h'.channel hlt
        rw [ho, ho']
        cases o <;> simp
      · rw [List.getElem?_eq_none (h.length.trans_le hge)]
        simp
    refine ⟨?_, ?_, fun f ch hf => ?_, fun a ha f ch hf => ?_⟩
    · obtain ⟨a, ha, heq⟩ := h.index
      exact ⟨a, List.mem_append_left _ ha, heq⟩
    · show (List.zipWith Option.or b.matrices b'.matrices).length = z
      rw [List.length_zipWith, h.length, h'.length, Nat.min_self]
    · rcases (hget f ch).mp hf with hf | ⟨-, hf⟩
      · obtain ⟨a, ha, hf⟩ := h.source f ch hf
        exact ⟨a, List.mem_append_left _ ha, hf⟩
      · obtain ⟨a, ha, hf⟩ := h'.source f ch hf
        exact ⟨a, List.mem_append_right _ ha, hf⟩
    · -- a channel of the first image stays
      have hz : f < z := by
        rw [← hl a ha]
        exact (List.getElem?_eq_some_iff.mp hf).1
      obtain ⟨o, ho⟩ := h.channel hz
      cases o with
      | none =>
        rcases List.mem_append.mp ha with ha | ha
        · obtain ⟨ch', hch⟩ := h.target a ha f ch hf
          exact ⟨ch', (hget f ch').mpr (.inl hch)⟩
        · obtain ⟨ch', hch⟩ := h'.target a ha f ch hf
          exact ⟨ch', (hget f ch').mpr (.inr ⟨ho, hch⟩)⟩
      | some ch' => exact ⟨ch', (hget f ch').mpr (.inl ho)⟩
  | @perm l l' b _ hp ih =>
    intro hl
    have h := ih fun a ha => hl a (hp.mem_iff.mp ha)
    refine ⟨?_, h.length, fun f ch hf => ?_, fun a ha => h.target a (hp.mem_iff.mpr ha)⟩
    · obtain ⟨a, ha, heq⟩ := h.index
      exact ⟨a, hp.mem_iff.mp ha, heq⟩
    · obtain ⟨a, ha, hf⟩ := h.source f ch hf
      exact ⟨a, hp.mem_iff.mp ha, hf⟩

namespace ResultPlan
open ConvResultToChunks ConvChunksToImage
variable {p : ResultPlan} [Zero V] {R : ℕ → ℕ → V} {blocks : List (FFMatrixBlock V)}
  {m : FFMatrixBlock V}

/-! ## The chunks -/

/-- what the blocks are -/
abbrev Blocked (p : ResultPlan) (R : ℕ → ℕ → V) (blocks : List (FFMatrixBlock V)) : Prop :=
  Represents p.blockX p.blockY p.padding (p.n * p.size) p.z R blocks

theorem Blocked.shape (hr : p.Blocked R blocks) (hm : m ∈ blocks) :
    m.rowNums = blockNums p.padding p.blockX (p.n * p.size) m.blockRowIndex ∧
      m.colNums = blockNums p.padding p.blockY p.z m.blockColIndex ∧
      realX m = realNums (p.n * p.size) m.rowNums m.blockRowIndex ∧
      realY m = realNums p.z m.colNums m.blockColIndex ∧
      realX m ≤ m.rowNums ∧ realY m ≤ m.colNums := by
  obtain ⟨hrow, hcol⟩ := hr.inside hm
  obtain ⟨htr, htc⟩ := hr.totals m hm
  have hrows : m.rowNums = blockNums p.padding p.blockX (p.n * p.size) m.blockRowIndex := hr.rowNums m hm
  have hcols : m.colNums = blockNums p.padding p.blockY p.z m.blockColIndex := hr.colNums m hm
  have hrpos : 0 < m.rowNums := hrows ▸ blockNums_pos p.blockX_pos hrow
  have hcpos : 0 < m.colNums := hcols ▸ blockNums_pos p.blockY_pos hcol
  exact ⟨hrows, hcols, htr ▸ realX_eq m, htc ▸ realY_eq m, realX_eq m ▸ realNums_le hrpos,
    realY_eq m ▸ realNums_le hcpos⟩

/-- the chunks of the blocks -/
theorem Blocked.chunks (hr : p.Blocked R blocks) (hn : 0 < p.n) (hs : 0 < p.size) :
    ∃ chunks, blocks.mapM (getProjection p.n) = some chunks ∧
      (∀ c ∈ chunks.flatten, ∃ m ∈ blocks, ∃ i j, ConvChunk p.size m i j c) ∧
      ∀ m ∈ blocks, 0 < realX m → ∀ j < realY m, ∃ c ∈ chunks.flatten, ConvChunk p.size m 0 j c := by
  obtain ⟨chunks, hchunks, hall⟩ := Grid.mapM_spec (l := blocks) fun m hm => by
    obtain ⟨-, -, -, -, hX, hY⟩ := hr.shape hm
    refine getProjection_spec hn hs (hr.totals m hm).1 fun x hx y hy => ?_
    obtain ⟨v, hv, -⟩ := (hr.values m hm).getAt (lt_of_lt_of_le hx hX) (lt_of_lt_of_le hy hY)
    exact ⟨v, hv⟩
  refine ⟨chunks, hchunks, fun c hc => ?_, fun m hm hpos j hj => ?_⟩
  · obtain ⟨cs, hcs, hc⟩ := List.mem_flatten.mp hc
    obtain ⟨m, hm, hspec, -⟩ := Grid.forall₂_right hall cs hcs
    exact ⟨m, hm, hspec c hc⟩
  · obtain ⟨cs, hcs, -, hfirst⟩ := Grid.forall₂_left hall m hm
    obtain ⟨c, hc, hspec⟩ := hfirst hpos j hj
    exact ⟨c, List.mem_flatten.mpr ⟨cs, hcs, hc⟩, hspec⟩

/-! ## What has to be so -/

theorem length_matrices {x y z : ℕ} {b : ImageBlock V} {a : ConvImage V}
    (h : getValueProjection x y z b = some a) : ∃ channel,
      walk (x * y) b.chunks (x * y) 0 (List.replicate (x * y) 0) = some channel ∧
      a.index = b.blockXIndex ∧
      a.matrices = (List.range z).map fun c => if c = b.blockYIndex then some channel else none := by
  obtain ⟨channel, hwalk, rfl⟩ := Option.map_eq_some_iff.mp h
  exact ⟨channel, hwalk, rfl, rfl⟩

/-- each value of the result is read, and its place told right -/
theorem reads_of_reassembles [Nontrivial V] (h : p.Reassembles V) {k t f : ℕ} (hk : k < p.n)
    (ht : t < p.size) (hf : f < p.z) : k = 0 ∧
      (t % p.blockX < realNums (p.n * p.size)
          (blockNums p.padding p.blockX (p.n * p.size) (t / p.blockX)) (t / p.blockX) ∧
        t / p.blockX * blockNums p.padding p.blockX (p.n * p.size) (t / p.blockX) =
          t / p.blockX * p.blockX) ∧
      (f % p.blockY < realNums p.z (blockNums p.padding p.blockY p.z (f / p.blockY)) (f / p.blockY) ∧
        f / p.blockY * blockNums p.padding p.blockY p.z (f / p.blockY) = f / p.blockY * p.blockY) := by
  obtain ⟨v, hv⟩ := exists_ne (0 : V)
  -- a result with one value
  have hr := represents_cut p.blockX_pos p.blockY_pos p.padding (p.n * p.size) p.z
    fun a b => if a = k * p.size + t ∧ b = f then v else 0
  generalize cut p.blockX p.blockY p.padding (p.n * p.size) p.z
    (fun a b => if a = k * p.size + t ∧ b = f then v else 0) = blocks at hr
  obtain ⟨chunks, hchunks, hspec, -⟩ := Blocked.chunks hr (Nat.zero_lt_of_lt hk) (Nat.zero_lt_of_lt ht)
  obtain ⟨chunks', hchunks', hrest⟩ := h _ blocks hr
  cases hchunks.symm.trans hchunks'
  obtain ⟨imageBlocks, hib⟩ := exists_aggregates (ImageChunksToBlock.getKeyProjection p.size)
    (ImageBlock.ofChunk p.size) ImageBlock.plus chunks.flatten
  obtain ⟨values, hvalues, hrest⟩ := hrest imageBlocks hib
  obtain ⟨images, himages⟩ := exists_aggregates (Image.index (M := List (Option (List V)))) id Image.plus
    values
  obtain ⟨hindices, hchannels⟩ := hrest images himages
  -- image `k`, and its channel `f`
  obtain ⟨img, himg, hindex⟩ := List.mem_map.mp (hindices.mem_iff.mpr (List.mem_range.mpr hk))
  obtain ⟨e, he, rfl⟩ := List.mem_map.mp himg
  have hmatrices := hchannels e.2 himg
  have hlength : ∀ a ∈ values.filter fun a => a.index = e.1, a.matrices.length = p.z := by
    intro a ha
    obtain ⟨b, -, hb⟩ := Grid.mem_mapM hvalues (List.mem_filter.mp ha).1
    obtain ⟨channel, -, -, hm⟩ := length_matrices hb
    rw [hm, List.length_map, List.length_range]
  have hcollects := collects_of_merged (himages.merged e he) hlength
  obtain ⟨a, ha, hmat⟩ := hcollects.source f
    ((List.range p.size).map fun q => if e.2.index * p.size + q = k * p.size + t ∧ f = f then v else 0)
    (by rw [hmatrices, List.getElem?_map, List.getElem?_range hf]; rfl)
  obtain ⟨haval, hakey⟩ := List.mem_filter.mp ha
  have hakey := of_decide_eq_true hakey
  obtain ⟨a', ha', hindex'⟩ := hcollects.index
  have hak : a.index = k := by
    rw [hakey, ← of_decide_eq_true (List.mem_filter.mp ha').2, ← hindex', hindex]
  -- where it comes from
  obtain ⟨eb, heb, hproj⟩ := Grid.mem_mapM hvalues haval
  obtain ⟨channel, hwalk, hI, hM⟩ := length_matrices hproj
  rw [hM, List.getElem?_map, List.getElem?_range hf, Option.map_some] at hmat
  have hJ : f = eb.2.blockYIndex := by
    by_contra hne
    rw [if_neg hne] at hmat
    cases hmat
  rw [if_pos hJ, Option.some.injEq, Option.some.injEq] at hmat
  have hget : channel[t]? = some v := by
    rw [hmat, List.getElem?_map, List.getElem?_range ht, Option.map_some, hindex, if_pos ⟨rfl, rfl⟩]
  obtain ⟨row, hrow, hle, hget⟩ := walk_mem hwalk (List.length_replicate ..)
    (fun t ht => absurd ht (Nat.not_lt_zero t)) t ht v hget
  have hg := gathers_of_merged (hib.merged eb heb)
  obtain ⟨c, hc, rfl⟩ := hg.entries row hrow
  obtain ⟨hcin, hckey⟩ := List.mem_filter.mp hc
  obtain ⟨c₀, hc₀, hI₀, hJ₀, -⟩ := hg.first
  have hkey : c.getChunkActualRowIndex / p.size * 10000 + c.yIndex = k * 10000 + f := by
    have h₀ := of_decide_eq_true (List.mem_filter.mp hc₀).2
    change c₀.getChunkActualRowIndex / p.size * 10000 + c₀.yIndex = eb.1 at h₀
    rw [← hI₀, ← hJ₀, ← hI, ← hJ, hak] at h₀
    exact (of_decide_eq_true hckey).trans h₀.symm
  dsimp only at hle hget
  rw [Nat.div_eq_of_lt (lt_of_le_of_lt hle ht), Nat.zero_mul, Nat.zero_add] at hkey
  -- the chunk is a part of the block with the value
  obtain ⟨m, hm, i, j, hchunk⟩ := hspec c hcin
  obtain ⟨hrows, hcols, hX, hY, -, -⟩ := Blocked.shape hr hm
  have hval := (hr.values m hm).entry _ _ _ (hchunk.values _ _ hget)
  have hx : i + (t - c.getChunkActualRowIndex) < realX m := by
    have hpos := (List.getElem?_eq_some_iff.mp hget).1
    have hlen := hchunk.length
    omega
  have hcell : m.blockRowIndex * p.blockX + (i + (t - c.getChunkActualRowIndex)) = k * p.size + t ∧
      m.blockColIndex * p.blockY + j = f := by
    by_contra hnot
    rw [if_neg hnot, ite_self] at hval
    exact hv hval
  have hcolle : m.blockColIndex * m.colNums ≤ m.blockColIndex * p.blockY :=
    Nat.mul_le_mul_left _ (hcols ▸ blockNums_le _ _ _ _)
  have hrowle : m.blockRowIndex * m.rowNums ≤ m.blockRowIndex * p.blockX :=
    Nat.mul_le_mul_left _ (hrows ▸ blockNums_le _ _ _ _)
  have hyIndex := hchunk.yIndex
  have hk0 : k = 0 := by omega
  subst hk0
  rw [Nat.zero_mul, Nat.zero_add] at hcell
  have hplace := hchunk.place
  have hstart : c.blockRowStart = 0 := by
    by_contra hne
    have := Nat.mul_le_mul_right p.size (Nat.one_le_iff_ne_zero.mpr hne)
    omega
  have hrowIndex : c.getChunkActualRowIndex = m.blockRowIndex * m.rowNums + i := by
    rw [← hplace, hstart, Nat.zero_mul, ImageChunk.getChunkActualRowIndex, hstart]
  have hj : j < realY m := hchunk.col
  have hrowlt : i + (t - c.getChunkActualRowIndex) < p.blockX := by
    have := blockNums_le p.padding p.blockX (p.n * p.size) m.blockRowIndex
    have := (Blocked.shape hr hm).2.2.2.2.1
    omega
  have hcollt : j < p.blockY := by
    have := blockNums_le p.padding p.blockY p.z m.blockColIndex
    have := (Blocked.shape hr hm).2.2.2.2.2
    omega
  have htdiv : t / p.blockX = m.blockRowIndex ∧ t % p.blockX = i + (t - c.getChunkActualRowIndex) :=
    (Nat.div_mod_unique p.blockX_pos).mpr ⟨by rw [Nat.mul_comm]; omega, hrowlt⟩
  have hfdiv : f / p.blockY = m.blockColIndex ∧ f % p.blockY = j :=
    (Nat.div_mod_unique p.blockY_pos).mpr ⟨by rw [Nat.mul_comm]; omega, hcollt⟩
  rw [htdiv.1, htdiv.2, hfdiv.1, hfdiv.2, ← hrows, ← hcols, ← hX, ← hY]
  exact ⟨rfl, ⟨hx, by omega⟩, hj, by omega⟩

/-- without values there is no block -/
theorem Blocked.eq_nil (hr : p.Blocked R blocks) (hnone : p.n * p.size = 0 ∨ p.z = 0) : blocks = [] := by
  refine List.eq_nil_iff_forall_not_mem.mpr fun m hm => ?_
  obtain ⟨hrow, hcol⟩ := hr.inside hm
  rcases hnone with h | h
  · rw [h] at hrow
    exact Nat.not_lt_zero _ hrow
  · rw [h] at hcol
    exact Nat.not_lt_zero _ hcol

theorem fits_of_reassembles [Nontrivial V] (h : p.Reassembles V) : p.Fits := by
  by_cases hn : p.n = 0
  · exact .inl hn
  have hsome : ¬ (p.n * p.size = 0 ∨ p.z = 0) := by
    intro hnone
    have hr := represents_cut p.blockX_pos p.blockY_pos p.padding (p.n * p.size) p.z fun _ _ => (0 : V)
    obtain ⟨chunks, hchunks, hrest⟩ := h _ [] (Blocked.eq_nil hr hnone ▸ hr)
    cases hchunks
    obtain ⟨imageBlocks, hib⟩ := exists_aggregates (ImageChunksToBlock.getKeyProjection p.size)
      (ImageBlock.ofChunk p.size) ImageBlock.plus ([] : List (ImageChunk V))
    obtain ⟨values, hvalues, hrest⟩ := hrest imageBlocks hib
    cases Aggregates.eq_nil hib
    cases hvalues
    have hlen := (hrest [] ⟨List.nodup_nil, fun k => iff_of_false List.not_mem_nil fun ⟨a, ha, _⟩ =>
      (nomatch ha), fun e he => nomatch he⟩).indices.length_eq
    rw [List.length_range] at hlen
    exact hn hlen.symm
  rw [not_or] at hsome
  have hsize : 0 < p.size := Nat.pos_of_ne_zero fun h0 => hsome.1 (by rw [h0, Nat.mul_zero])
  have hz : 0 < p.z := Nat.pos_of_ne_zero hsome.2
  have hone : p.n = 1 := by
    by_contra hmore
    exact absurd (reads_of_reassembles h (k := 1) (by omega) hsize hz).1 Nat.one_ne_zero
  refine .inr ⟨hone, hsize, hz, ?_, ?_⟩
  · refine whole_of_reads p.blockX_pos hsize fun t ht => ?_
    have hread := (reads_of_reassembles h (Nat.pos_of_ne_zero hn) ht hz).2.1
    rw [hone, Nat.one_mul] at hread
    exact hread
  · exact whole_of_reads p.blockY_pos hz fun f hf =>
      (reads_of_reassembles h (Nat.pos_of_ne_zero hn) hsize hf).2.2

/-! ## One image -/

/-- the rows of the chunks: where the block is, or behind the image -/
theorem row_cases {i j : ℕ} {c : ImageChunk V} (hone : p.n = 1) (hX : Whole p.padding p.blockX p.size)
    (hr : p.Blocked R blocks) (hm : m ∈ blocks) (hc : ConvChunk p.size m i j c) :
    i = 0 ∧ c.blockRow = m.blockRowIndex * p.blockX ∧
        c.getChunkActualRowIndex = m.blockRowIndex * p.blockX ∨
      0 < i ∧ c.getChunkActualRowIndex = 1 ∧ 1 < p.blockX ∧ p.blockX < p.size := by
  obtain ⟨hrows, -, hXeq, -, hXle, -⟩ := Blocked.shape hr hm
  have hin := (hr.inside hm).1
  rw [hone, Nat.one_mul] at hrows hXeq hin
  have hnums := hX.nums hin
  rw [hrows, hnums] at hXeq hXle
  have hplace := hc.place
  rw [hrows, hnums] at hplace
  have hinside := hc.inside
  have hrow := hc.row
  rcases Nat.eq_zero_or_pos i with rfl | hi
  · have hzero : c.blockRowStart = 0 := by
      by_contra hne
      have := Nat.mul_le_mul_right p.size (Nat.one_le_iff_ne_zero.mpr hne)
      omega
    rw [hzero, Nat.zero_mul] at hplace
    refine .inl ⟨rfl, by omega, ?_⟩
    rw [ImageChunk.getChunkActualRowIndex, hzero]
    omega
  · -- the block is longer than the image
    have hstart := hc.start.resolve_left hi.ne'
    rw [hstart, Nat.add_zero] at hplace
    have hpos : c.blockRowStart ≠ 0 := fun h0 => by
      rw [h0, Nat.zero_mul] at hplace
      omega
    have hle := Nat.mul_le_mul_right p.size (Nat.one_le_iff_ne_zero.mpr hpos)
    have hsmall := hX.over (i := m.blockRowIndex) hin (by omega)
    have htwo : c.blockRowStart < 2 := by
      by_contra hmore
      have := Nat.mul_le_mul_right p.size (Nat.not_lt.mp hmore)
      omega
    refine .inr ⟨hi, ?_, by omega, hsmall⟩
    rw [ImageChunk.getChunkActualRowIndex, hstart]
    omega

/-- channel `f` of the image; there is nothing behind the last one -/
def channel (p : ResultPlan) (R : ℕ → ℕ → V) (f q : ℕ) : V := if f < p.z then R q f else 0

/-- the values of a row that is read -/
theorem row_values {i j : ℕ} {c : ImageChunk V} (hone : p.n = 1) (hX : Whole p.padding p.blockX p.size)
    (hY : Whole p.padding p.blockY p.z) (hr : p.Blocked R blocks) (hm : m ∈ blocks)
    (hc : ConvChunk p.size m i j c) {q : ℕ} (hq : c.getChunkActualRowIndex = q * p.blockX)
    (hlt : q * p.blockX < p.size) :
    0 < c.chunk.length ∧ q * p.blockX + c.chunk.length ≤ p.size ∧
      (q * p.blockX + c.chunk.length < p.size → c.chunk.length = p.blockX) ∧
      ∀ pos v, c.chunk[pos]? = some v → v = p.channel R c.yIndex (q * p.blockX + pos) := by
  rcases row_cases hone hX hr hm hc with ⟨rfl, hblock, hrow⟩ | ⟨-, hrow, htwo, -⟩
  · have hqI : q = m.blockRowIndex := Nat.eq_of_mul_eq_mul_right p.blockX_pos (hq.symm.trans hrow)
    subst hqI
    obtain ⟨hrows, hcols, hXeq, -, hXle, -⟩ := Blocked.shape hr hm
    have hcol := (hr.inside hm).2
    rw [hone, Nat.one_mul, hX.nums hlt] at hrows
    rw [hone, Nat.one_mul, hrows] at hXeq
    rw [hY.nums hcol] at hcols
    have hreal := hX.real p.blockX_pos hlt
    rw [← hXeq] at hreal
    have hlen := hc.length
    rw [hblock, Nat.sub_zero] at hlen
    have hx := p.blockX_pos
    refine ⟨by omega, by omega, fun h => by omega, fun pos v hv => ?_⟩
    have hpos := (List.getElem?_eq_some_iff.mp hv).1
    have hval := (hr.values m hm).entry _ _ v (hc.values pos v hv)
    rw [hone, Nat.one_mul, Nat.zero_add] at hval
    rw [hval, channel, hc.yIndex, hcols]
    by_cases hin : m.blockColIndex * p.blockY + j < p.z
    · rw [if_pos ⟨by omega, hin⟩, if_pos hin]
    · rw [if_neg (fun h => hin h.2), if_neg hin]
  · -- a number above 1 does not divide 1
    rcases q with - | q
    · omega
    · rw [hrow, Nat.succ_mul] at hq
      omega

section
variable {chunks : List (List (ImageChunk V))} {imageBlocks : List (ℕ × ImageBlock V)}
  (hone : p.n = 1) (hX : Whole p.padding p.blockX p.size) (hY : Whole p.padding p.blockY p.z)
  (hr : p.Blocked R blocks)
  (hspec : ∀ c ∈ chunks.flatten, ∃ m ∈ blocks, ∃ i j, ConvChunk p.size m i j c)
  (hfirst : ∀ m ∈ blocks, 0 < realX m → ∀ j < realY m,
    ∃ c ∈ chunks.flatten, ConvChunk p.size m 0 j c)
include hone hX hr

/-- all chunks are of the first image -/
theorem row_lt (hspec : ∀ c ∈ chunks.flatten, ∃ m ∈ blocks, ∃ i j, ConvChunk p.size m i j c)
    {c : ImageChunk V} (hc : c ∈ chunks.flatten) : c.getChunkActualRowIndex < p.size ∧
      ImageChunksToBlock.getKeyProjection p.size c = c.yIndex := by
  have hlt : c.getChunkActualRowIndex < p.size := by
    obtain ⟨m, hm, i, j, hchunk⟩ := hspec c hc
    have hin := (hr.inside hm).1
    rw [hone, Nat.one_mul] at hin
    rcases row_cases hone hX hr hm hchunk with ⟨-, -, hrow⟩ | ⟨-, hrow, htwo, hlt⟩ <;> omega
  refine ⟨hlt, ?_⟩
  rw [ImageChunksToBlock.getKeyProjection, Nat.div_eq_of_lt hlt, Nat.zero_mul, Nat.zero_add]

/-- the first chunk of a row of blocks -/
theorem exists_chunk (hfirst : ∀ m ∈ blocks, 0 < realX m → ∀ j < realY m,
      ∃ c ∈ chunks.flatten, ConvChunk p.size m 0 j c)
    {q J j : ℕ} (hq : q * p.blockX < p.size) (hJ : J * p.blockY < p.z)
    (hj : j < realNums p.z (blockNums p.padding p.blockY p.z J) J) :
    ∃ c ∈ chunks.flatten, c.getChunkActualRowIndex = q * p.blockX ∧
      c.yIndex = J * blockNums p.padding p.blockY p.z J + j := by
  obtain ⟨m, hm, hi, hJ'⟩ := hr.exists_block (i := q) (by rw [hone, Nat.one_mul]; exact hq) hJ
  obtain ⟨hrows, hcols, hXeq, hYeq, -, -⟩ := Blocked.shape hr hm
  rw [hone, Nat.one_mul, hi, hX.nums hq] at hrows
  rw [hone, Nat.one_mul, hi, hrows] at hXeq
  rw [hJ'] at hcols hYeq
  have hreal := hX.real p.blockX_pos hq
  have hx := p.blockX_pos
  obtain ⟨c, hc, hchunk⟩ := hfirst m hm (by omega) j (by rw [hYeq, hcols]; exact hj)
  refine ⟨c, hc, ?_, by rw [hchunk.yIndex, hJ', hcols]⟩
  rcases row_cases hone hX hr hm hchunk with ⟨-, -, hrow⟩ | ⟨h0, -⟩
  · rw [hrow, hi]
  · exact absurd h0 (Nat.lt_irrefl 0)

include hY hspec hfirst

/-- the image of a block of chunks -/
theorem exists_value (hib : ImageChunksToBlock.Aggregates p.size chunks.flatten imageBlocks)
    {e : ℕ × ImageBlock V} (he : e ∈ imageBlocks) :
    ∃ a, getValueProjection p.x p.y p.z e.2 = some a ∧ a.index = 0 ∧
      a.matrices = (List.range p.z).map fun c =>
        if c = e.1 then some ((List.range p.size).map (p.channel R e.1)) else none := by
  have hg := gathers_of_merged (hib.merged e he)
  obtain ⟨c₀, hc₀, hI, hJ, -⟩ := hg.first
  obtain ⟨hin, hkey⟩ := List.mem_filter.mp hc₀
  have hkey := of_decide_eq_true hkey
  obtain ⟨hlt, hcode⟩ := row_lt hone hX hr hspec hin
  rw [hcode] at hkey
  have hwalk : walk p.size e.2.chunks p.size 0 (List.replicate p.size 0) =
      some ((List.range p.size).map (p.channel R e.1)) := by
    refine walk_spec (P := fun i => ∃ q, i = q * p.blockX) (fun i hi hq => ?_) _ (Nat.sub_le _ _)
      (Nat.zero_le _) (fun _ => ⟨0, (Nat.zero_mul _).symm⟩) (List.length_replicate ..)
      fun t ht => absurd ht (Nat.not_lt_zero t)
    obtain ⟨q, rfl⟩ := hq
    -- the row is there
    obtain ⟨m, hm, i, j, hchunk⟩ := hspec c₀ hin
    obtain ⟨-, hcols, -, hYeq, -, -⟩ := Blocked.shape hr hm
    obtain ⟨c, hc, hrow, hcol⟩ := exists_chunk hone hX hr hfirst hi (hr.inside hm).2
      (j := j) (by rw [← hcols, ← hYeq]; exact hchunk.col)
    have hgroup : ImageChunksToBlock.getKeyProjection p.size c = e.1 := by
      rw [(row_lt hone hX hr hspec hc).2, hcol, ← hcols, ← hchunk.yIndex, hkey]
    obtain ⟨entry, hentry, hval⟩ := List.mem_map.mp
      (hg.rows c (List.mem_filter.mpr ⟨hc, decide_eq_true hgroup⟩))
    -- whatever row was merged first, it has these values
    obtain ⟨c', hc', rfl⟩ := hg.entries entry hentry
    obtain ⟨hin', hkey'⟩ := List.mem_filter.mp hc'
    have hkey' := of_decide_eq_true hkey'
    rw [(row_lt hone hX hr hspec hin').2] at hkey'
    obtain ⟨m', hm', i', j', hchunk'⟩ := hspec c' hin'
    have hrow' : c'.getChunkActualRowIndex = q * p.blockX := hval.trans hrow
    obtain ⟨hpos, hle, hnext, hvals⟩ := row_values hone hX hY hr hm' hchunk' hrow' hi
    refine ⟨c'.chunk, ?_, hpos, hle, fun h => ⟨q + 1, by rw [hnext h, Nat.succ_mul]⟩, ?_⟩
    · rw [← hrow', hg.keyed.lookup_iff]
      exact hentry
    · rw [← hkey']
      exact hvals
  refine ⟨_, congrArg (Option.map _) hwalk, ?_, ?_⟩
  · show e.2.blockXIndex = 0
    rw [hI, Nat.div_eq_of_lt hlt]
  · show (List.range p.z).map _ = _
    rw [hJ, hkey]

/-- the one image -/
theorem right_of_fits (hsize : 0 < p.size) (hz : 0 < p.z)
    (hib : ImageChunksToBlock.Aggregates p.size chunks.flatten imageBlocks) :
    ∃ values, (imageBlocks.mapM fun e => getValueProjection p.x p.y p.z e.2) = some values ∧
      ∀ images, Aggregates Image.index id Image.plus values images → p.Right R (images.map Prod.snd) := by
  obtain ⟨values, hvalues, hall⟩ := Grid.mapM_spec fun e he =>
    exists_value hone hX hY hr hspec hfirst hib (e := e) he
  refine ⟨values, hvalues, fun images himages => ?_⟩
  have hto := Grid.forall₂_right hall
  -- a value for each channel
  have hvalue : ∀ f < p.z, ∃ a ∈ values,
      a.matrices[f]? = some (some ((List.range p.size).map (p.channel R f))) := by
    intro f hf
    have hin : f / p.blockY * p.blockY < p.z := lt_of_le_of_lt (Nat.div_mul_le_self _ _) hf
    have hreal := hY.real p.blockY_pos hin
    have hmod := Nat.mod_lt f p.blockY_pos
    have hdiv := Nat.div_add_mod' f p.blockY
    obtain ⟨c, hc, -, hcol⟩ := exists_chunk hone hX hr hfirst (q := 0) (by omega) hin
      (j := f % p.blockY) (by rw [hY.nums hin]; omega)
    rw [hY.nums hin, hdiv] at hcol
    obtain ⟨b, hb⟩ := hib.exists_output hc
    rw [(row_lt hone hX hr hspec hc).2, hcol] at hb
    obtain ⟨a, ha, -, hmat⟩ := Grid.forall₂_left hall _ hb
    refine ⟨a, ha, ?_⟩
    rw [hmat, List.getElem?_map, List.getElem?_range hf, Option.map_some, if_pos rfl]
  have hindex : ∀ a ∈ values, a.index = 0 := fun a ha => by
    obtain ⟨e, -, h0, -⟩ := hto a ha
    exact h0
  have hzero : ∀ e ∈ images, e.1 = 0 := by
    intro e he
    obtain ⟨a, ha, hkey⟩ := (himages.keys e.1).mp (List.mem_map.mpr ⟨e, he, rfl⟩)
    exact hkey.symm.trans (hindex a ha)
  obtain ⟨a₀, ha₀, -⟩ := hvalue 0 hz
  obtain ⟨img, himg⟩ := himages.exists_output ha₀
  rw [hindex a₀ ha₀] at himg
  have hsingle : images = [(0, img)] :=
    eq_singleton_of_nodup_map himages.keyed himg hzero
  have hfilter : (values.filter fun a => a.index = 0) = values :=
    List.filter_eq_self.mpr fun a ha => decide_eq_true (hindex a ha)
  have hmerged := himages.merged _ himg
  rw [hfilter] at hmerged
  have hcollects := collects_of_merged (z := p.z) hmerged fun a ha => by
    obtain ⟨e, -, -, hmat⟩ := hto a ha
    rw [hmat, List.length_map, List.length_range]
  have himg0 : img.index = 0 := by
    obtain ⟨a, ha, heq⟩ := hcollects.index
    exact heq.trans (hindex a ha)
  rw [hsingle]
  constructor
  · show [img.index].Perm (List.range p.n)
    rw [himg0, hone]
    exact List.Perm.refl _
  · intro img' hmem
    rw [List.mem_singleton.mp hmem, himg0]
    refine List.ext_getElem? fun f => ?_
    rw [List.getElem?_map]
    by_cases hf : f < p.z
    · obtain ⟨a, ha, hmat⟩ := hvalue f hf
      obtain ⟨ch, hch⟩ := hcollects.target a ha f _ hmat
      obtain ⟨a', ha', hmat'⟩ := hcollects.source f ch hch
      obtain ⟨e, -, -, heq⟩ := hto a' ha'
      rw [heq, List.getElem?_map, List.getElem?_range hf, Option.map_some] at hmat'
      have hfe : f = e.1 := by
        by_contra hne
        rw [if_neg hne] at hmat'
        cases hmat'
      rw [if_pos hfe, Option.some.injEq, Option.some.injEq] at hmat'
      rw [List.getElem?_range hf, Option.map_some, hch, ← hmat', ← hfe]
      refine congrArg (fun l => some (some l)) (List.map_congr_left fun q _ => ?_)
      rw [channel, if_pos hf, Nat.zero_mul, Nat.zero_add]
    · rw [List.getElem?_eq_none (by rw [hcollects.length]; omega),
        List.getElem?_eq_none (by rw [List.length_range]; omega)]
      rfl

end

theorem reassembles_of_fits (h : p.Fits) : p.Reassembles V := by
  intro R blocks hr
  rcases h with hnone | ⟨hone, hsize, hz, hX, hY⟩
  · have hrows : p.n * p.size = 0 := by rw [hnone, Nat.zero_mul]
    rw [Blocked.eq_nil hr (.inl hrows)]
    refine ⟨[], rfl, fun imageBlocks hib => ?_⟩
    rw [Aggregates.eq_nil hib]
    refine ⟨[], rfl, fun images himages => ?_⟩
    rw [Aggregates.eq_nil himages]
    refine ⟨?_, fun img himg => nomatch himg⟩
    rw [hnone]
    exact List.Perm.refl _
  · obtain ⟨chunks, hchunks, hspec, hfirst⟩ := Blocked.chunks hr (hone ▸ Nat.one_pos) hsize
    exact ⟨chunks, hchunks, fun imageBlocks hib =>
      right_of_fits hone hX hY hr hspec hfirst hsize hz hib⟩

/-- **The result of a convolution comes out as its images just where there is one image, the blocks have
the same size, and the last one is not full.** -/
theorem reassembles_iff [Nontrivial V] : p.Reassembles V ↔ p.Fits :=
  ⟨fits_of_reassembles, reassembles_of_fits⟩

/-- two images with one value each -/
def twoImages : ResultPlan :=
  { n := 2, x := 1, y := 1, z := 1, blockX := 3, blockY := 2, padding := true
    blockX_pos := by decide, blockY_pos := Nat.two_pos }

theorem reassembles_iff_twoImages : twoImages.Reassembles ℤ ↔ twoImages.Fits := reassembles_iff

theorem reassembles_not_always : ¬ ∀ p : ResultPlan, p.Reassembles ℤ := fun h => by
  rcases fits_of_reassembles (h twoImages) with h | ⟨h, -⟩
  · exact absurd h (by decide)
  · exact absurd h (by decide)

end ResultPlan
end Netsdb.Conv2d
