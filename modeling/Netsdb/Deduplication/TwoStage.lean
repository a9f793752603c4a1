import Netsdb.Deduplication.BinPackGreedy
import Netsdb.Deduplication.EquivalenceClasses

/-!
# Packing in two stages (`PagePacking.py`, `text_classification_twostage`, `w2v_twostage`)

The full pages of each class are packed first; the blocks that are left over get new numbers, and
`bin_pack_greedy` packs these.

* `classBlock`, `fullClass`   one class in the first stage of each function;
* `stageTwo`                  the scheme of the second stage is what comes back;
* `stageTwo_spec`             it has the new numbers and nothing else;
* `twostage_iff`              so it packs the tensors if and only if no full page was counted, and
  their blocks are among the new numbers.
-/

set_option linter.unusedSectionVars false

namespace Netsdb

/-- the sets that come after the first `k` of a run -/
def SetOrder.after {α : Type} (order : SetOrder α) (k : ℕ) : SetOrder α where
  list n := order.list (n + k)
  nodup n := order.nodup (n + k)
  mem_iff n := order.mem_iff (n + k)

section
variable {α : Type} [DecidableEq α]

/-! ## The first stage -/

/-- the variables of `text_classification_twostage` -/
structure StageOne (α : Type) where
  p_i_j : BinPackingScheme α
  numBins : ℕ
  newTensorList : List (List ℕ)
  blockId : ℕ

/-- the tensors that share each class -/
def textMembers : List (List ℕ) :=
  [[0, 1, 2, 3, 4], [0, 1, 2, 3], [0, 1, 2, 4], [0, 1, 3, 4], [0, 2, 3, 4], [1, 2, 3, 4], [0, 1, 2],
    [0, 1, 3], [0, 1, 4], [0, 2, 3], [0, 2, 4], [0, 3, 4], [1, 2, 3], [1, 2, 4], [1, 3, 4], [2, 3, 4],
    [0, 1], [0, 2], [0, 3], [0, 4], [1, 2], [1, 3], [1, 4], [2, 3], [2, 4], [3, 4], [0], [1], [2], [3],
    [4]]

/-- the full pages of each class; for `l24` the number is that of `l01` -/
def textNewBins (l : ℕ) (sizes : List ℕ) : List ℕ :=
  let newBins := sizes.map (· / l)
  newBins.set 24 (newBins.getD 16 0)

def classBlock (I : List α) (l : ℕ) (members : List ℕ) (newBins : ℕ) (thisTen : List α)
    (st : StageOne α) : Option (StageOne α) := do
  let numBins := st.numBins + newBins
  let p_i_j ← BinPackingScheme.packClass I l numBins thisTen st.p_i_j
  let thisRemain := thisTen.length - l * (thisTen.length / l)
  some { p_i_j := { p_i_j with numBins := numBins }
         numBins := numBins
         newTensorList := st.newTensorList.mapIdx fun k t =>
           if k ∈ members then t ++ List.range' st.blockId thisRemain else t
         blockId := st.blockId + thisRemain }

def classBlocks (I : List α) (l : ℕ) :
    List (List ℕ × ℕ × List α) → StageOne α → Option (StageOne α)
  | [], st => some st
  | (members, newBins, thisTen) :: rest, st => do
    let st' ← classBlock I l members newBins thisTen st
    classBlocks I l rest st'

/-- a class in `w2v_twostage`; only the blocks of its full pages are marked -/
def fullClass (I : List α) (l : ℕ) (thisTen : List α) (st : BinPackingScheme α × ℕ) :
    Option (BinPackingScheme α × ℕ) := do
  let newBins := thisTen.length / l
  let numBins := st.2 + newBins
  let p_i_j ← BinPackingScheme.packClass I l numBins (thisTen.take (l * newBins)) st.1
  some ({ p_i_j with numBins := numBins }, numBins)

def fullClasses (I : List α) (l : ℕ) :
    List (List α) → BinPackingScheme α × ℕ → Option (BinPackingScheme α × ℕ)
  | [], st => some st
  | thisTen :: rest, st => do
    let st' ← fullClass I l thisTen st
    fullClasses I l rest st'

/-- the tensors of new numbers in `w2v_twostage`, for `n` common blocks and `n0` others in the first
tensor -/
def w2vNewTensors (l n n0 : ℕ) : List (List ℕ) :=
  let blockId := n - l * (n / l)
  let blockIncrease := n0 - l * (n0 / l)
  (List.range 6).map fun k =>
    List.range blockId ++ List.range' (blockId + k * blockIncrease) blockIncrease

/-! ## The second stage -/

/-- `ids` are the integers among the blocks; `P.union(set([p_i_j]))` is a new set that is dropped -/
def stageTwo (order : SetOrder α) (ids : ℕ ↪ α) (l numBins : ℕ) (newTensorList : List (List ℕ)) :
    Option (BinPackingScheme α) := do
  let (s, _) ← binPackGreedy order
    (newTensorList.map fun t => ⟨true, t.map ids, fun h => Bool.noConfusion h⟩) l
  some { s with numBins := numBins + s.numBins }

def textClassificationTwostage (order : SetOrder α) (ids : ℕ ↪ α) (tensorList : List (Finset α))
    (blocksInPage : ℕ) : Option (BinPackingScheme α) :=
  match tensorList with
  | t0 :: t1 :: t2 :: t3 :: t4 :: _ => do
    let I := order.list 0 (tensorList.foldl (· ∪ ·) ∅)
    let classes := classLists order (textClasses t0 t1 t2 t3 t4)
    let newBins := textNewBins blocksInPage (classes.map List.length)
    let st ← classBlocks I blocksInPage (textMembers.zip (newBins.zip classes))
      ⟨BinPackingScheme.new I blocksInPage, 0, [[], [], [], [], []], 0⟩
    stageTwo (order.after 32) ids blocksInPage st.numBins st.newTensorList
  | _ => none

def w2vTwostage (order : SetOrder α) (ids : ℕ ↪ α) (tensorList : List (Finset α))
    (blocksInPage : ℕ) : Option (BinPackingScheme α) :=
  match tensorList with
  | t0 :: t1 :: t2 :: t3 :: t4 :: t5 :: _ => do
    let I := order.list 0 (tensorList.foldl (· ∪ ·) ∅)
    let l := t0 ⊓ t1 ⊓ t2 ⊓ t3 ⊓ t4 ⊓ t5
    let classes := classLists order (w2vClasses t0 t1 t2 t3 t4 t5)
    let (_, numBins) ← fullClasses I blocksInPage classes (BinPackingScheme.new I blocksInPage, 0)
    stageTwo (order.after 8) ids blocksInPage numBins
      (w2vNewTensors blocksInPage l.card (minus t0 [l]).card)
  | _ => none

/-! ## What they are for -/

/-- every block is on a page, no page has more than `l` blocks, and as many pages as are counted have
blocks -/
structure PacksAll (tensors : List (Finset α)) (l : ℕ) (s : BinPackingScheme α) : Prop where
  covers : ∀ t ∈ tensors, ∀ b ∈ t, ∃ p, b ∈ s.page p
  within : Pages.Within l s.page
  filled : Pages.Fills s.page s.numBins

/-! ## The first stage ends -/

variable {order : SetOrder α} {ids : ℕ ↪ α} {l w n : ℕ} {I : List α}

/-- the scheme can still be marked -/
structure Markable (I : List α) (p : BinPackingScheme α) : Prop where
  itemIds : p.itemIds = I
  grid : ∃ w, p.Grid w ∧ (I ≠ [] → 0 < w)

theorem Markable.counted {p : BinPackingScheme α} (h : Markable I p) (n : ℕ) :
    Markable I { p with numBins := n } := by
  obtain ⟨hids, w, hgrid, hw⟩ := h
  exact ⟨hids, w, ⟨hgrid.rows, hgrid.columns⟩, hw⟩

theorem new_markable (hl : 0 < l) (I : List α) : Markable I (BinPackingScheme.new I l) := by
  refine ⟨rfl, _, BinPackingScheme.new_grid I l, fun hI => ?_⟩
  by_contra hnot
  have hle : I.length ≤ l * 0 := (ceilDiv_le_iff_le_mul hl).mp (Nat.le_of_not_lt hnot)
  rw [Nat.mul_zero] at hle
  exact hI (List.length_eq_zero_iff.mp (Nat.le_zero.mp hle))

theorem Markable.packClass {p : BinPackingScheme α} (hl : 0 < l) (h : Markable I p) (base : ℕ)
    (g : List α) (hg : ∀ b ∈ g, b ∈ I) :
    ∃ p', BinPackingScheme.packClass I l base g p = some p' ∧ Markable I p' := by
  obtain ⟨rfl, w, hgrid, hw⟩ := h
  cases g with
  | nil => exact ⟨p, rfl, rfl, w, hgrid, hw⟩
  | cons a rest =>
    have hpos := hw (List.ne_nil_of_mem (hg a List.mem_cons_self))
    obtain ⟨p', w', hrun, hgrid', hw', hadds⟩ :=
      BinPackingScheme.packClass_spec hl hgrid a rest hg hpos rfl
    exact ⟨p', hrun, hadds.itemIds, w', hgrid', fun _ => hw'⟩

/-- **A class**: its full pages are counted, and what is left over gets the next numbers. -/
theorem classBlock_spec (hl : 0 < l) {st : StageOne α} (h : Markable I st.p_i_j) (members : List ℕ)
    (newBins : ℕ) (g : List α) (hg : ∀ b ∈ g, b ∈ I) :
    ∃ p', classBlock I l members newBins g st = some ⟨p', st.numBins + newBins,
        st.newTensorList.mapIdx fun k t =>
          if k ∈ members then t ++ List.range' st.blockId (g.length % l) else t,
        st.blockId + g.length % l⟩ ∧ Markable I p' := by
  obtain ⟨p', hrun, hp'⟩ := h.packClass hl (st.numBins + newBins) g hg
  refine ⟨_, ?_, hp'.counted (st.numBins + newBins)⟩
  rw [classBlock]
  dsimp only
  rw [hrun, ← Nat.mod_eq_sub]
  rfl

/-- the numbers that are given out are those below `blockId` -/
def GivenOut (st : StageOne α) : Prop :=
  ∀ n, (∃ t ∈ st.newTensorList, n ∈ t) ↔ n < st.blockId

theorem mem_mapIdx_ite {L : List (List ℕ)} {members rest : List ℕ} (hm : ∃ k ∈ members, k < L.length) :
    (∃ t ∈ L.mapIdx fun k t => if k ∈ members then t ++ rest else t, n ∈ t) ↔
      (∃ t ∈ L, n ∈ t) ∨ n ∈ rest := by
  constructor
  · rintro ⟨t, ht, hn⟩
    obtain ⟨k, hk, rfl⟩ := List.mem_mapIdx.mp ht
    split at hn
    · rcases List.mem_append.mp hn with hn | hn
      · exact .inl ⟨L[k], List.getElem_mem hk, hn⟩
      · exact .inr hn
    · exact .inl ⟨L[k], List.getElem_mem hk, hn⟩
  · rintro (⟨t, ht, hn⟩ | hn)
    · obtain ⟨k, hk, rfl⟩ := List.mem_iff_getElem.mp ht
      refine ⟨_, List.mem_mapIdx.mpr ⟨k, hk, rfl⟩, ?_⟩
      split
      · exact List.mem_append_left _ hn
      · exact hn
    · obtain ⟨k, hmem, hk⟩ := hm
      refine ⟨_, List.mem_mapIdx.mpr ⟨k, hk, rfl⟩, ?_⟩
      rw [if_pos hmem]
      exact List.mem_append_right _ hn

/-- **All classes** -/
theorem classBlocks_spec (hl : 0 < l) (blocks : List (List ℕ × ℕ × List α)) : ∀ {st : StageOne α},
    Markable I st.p_i_j → GivenOut st → (∀ e ∈ blocks, ∀ b ∈ e.2.2, b ∈ I) →
    (∀ e ∈ blocks, ∃ k ∈ e.1, k < st.newTensorList.length) →
    ∃ st', classBlocks I l blocks st = some st' ∧ GivenOut st' ∧
      st'.newTensorList.length = st.newTensorList.length ∧
      st'.numBins = st.numBins + (blocks.map fun e => e.2.1).sum ∧
      st'.blockId = st.blockId + (blocks.map fun e => e.2.2.length % l).sum := by
  induction blocks with
  | nil => exact fun {st} _ hgiven _ _ => ⟨st, rfl, hgiven, rfl, rfl, rfl⟩
  | cons e blocks ih =>
    intro st h hgiven hmem hk
    obtain ⟨members, newBins, g⟩ := e
    obtain ⟨p', hrun, hp'⟩ := classBlock_spec hl h members newBins g (hmem _ List.mem_cons_self)
    have hlen : (st.newTensorList.mapIdx fun k t =>
        if k ∈ members then t ++ List.range' st.blockId (g.length % l) else t).length =
        st.newTensorList.length := List.length_mapIdx
    have hgiven' : GivenOut (⟨p', st.numBins + newBins, st.newTensorList.mapIdx fun k t =>
        if k ∈ members then t ++ List.range' st.blockId (g.length % l) else t,
        st.blockId + g.length % l⟩ : StageOne α) := by
      intro n
      have hiff := hgiven n
      show (∃ t ∈ st.newTensorList.mapIdx _, n ∈ t) ↔ n < st.blockId + g.length % l
      rw [mem_mapIdx_ite (hk _ List.mem_cons_self), hiff, List.mem_range'_1]
      omega
    obtain ⟨st', hrest, hgiven'', hlen', hbins, hids⟩ := ih hp' hgiven'
      (fun e he => hmem e (List.mem_cons_of_mem _ he)) fun e he => by
        rw [hlen]
        exact hk e (List.mem_cons_of_mem _ he)
    refine ⟨st', ?_, hgiven'', hlen'.trans hlen, ?_, ?_⟩
    · rw [classBlocks, hrun]
      exact hrest
    · rw [hbins, List.map_cons, List.sum_cons, ← Nat.add_assoc]
    · rw [hids, List.map_cons, List.sum_cons, ← Nat.add_assoc]

theorem fullClasses_spec (hl : 0 < l) (classes : List (List α)) :
    ∀ {st : BinPackingScheme α × ℕ}, Markable I st.1 → (∀ g ∈ classes, ∀ b ∈ g, b ∈ I) →
    ∃ st', fullClasses I l classes st = some st' ∧
      st'.2 = st.2 + (classes.map fun g => g.length / l).sum := by
  induction classes with
  | nil => exact fun {st} _ _ => ⟨st, rfl, rfl⟩
  | cons g classes ih =>
    intro st h hmem
    obtain ⟨p', hrun, hp'⟩ := h.packClass hl (st.2 + g.length / l) (g.take (l * (g.length / l)))
      fun b hb => hmem g List.mem_cons_self b (List.mem_of_mem_take hb)
    have hst' : Markable I (({ p' with numBins := st.2 + g.length / l }, st.2 + g.length / l) :
        BinPackingScheme α × ℕ).1 := hp'.counted _
    obtain ⟨st', hrest, hbins⟩ := ih hst' fun g hg => hmem g (List.mem_cons_of_mem _ hg)
    refine ⟨st', ?_, ?_⟩
    · rw [fullClasses, fullClass, hrun]
      exact hrest
    · rw [hbins, List.map_cons, List.sum_cons, ← Nat.add_assoc]

theorem mem_w2vNewTensors (l n n0 m : ℕ) :
    (∃ t ∈ w2vNewTensors l n n0, m ∈ t) ↔ m < n % l + 6 * (n0 % l) := by
  rw [w2vNewTensors, ← Nat.mod_eq_sub, ← Nat.mod_eq_sub]
  generalize n % l = c, n0 % l = d
  constructor
  · rintro ⟨t, ht, hm⟩
    obtain ⟨k, hk, rfl⟩ := List.mem_map.mp ht
    have hk := List.mem_range.mp hk
    have hle : k * d ≤ 5 * d := Nat.mul_le_mul_right d (Nat.le_of_lt_succ hk)
    rcases List.mem_append.mp hm with hm | hm
    · exact Nat.lt_add_right _ (List.mem_range.mp hm)
    · have hlt := (List.mem_range'_1.mp hm).2
      omega
  · intro hm
    by_cases hc : m < c
    · exact ⟨_, List.mem_map_of_mem (List.mem_range.mpr (Nat.succ_pos 5)),
        List.mem_append_left _ (List.mem_range.mpr hc)⟩
    · have hd : 0 < d := by omega
      have hk : (m - c) / d < 6 := (Nat.div_lt_iff_lt_mul hd).mpr (by omega)
      refine ⟨_, List.mem_map_of_mem (List.mem_range.mpr hk), List.mem_append_right _ ?_⟩
      have hdiv := Nat.div_add_mod' (m - c) d
      have hmod := Nat.mod_lt (m - c) hd
      exact List.mem_range'_1.mpr ⟨by omega, by omega⟩

/-! ## The second stage -/

theorem fills_iff {P : Pages.Packing α} {m : ℕ} (hP : ∀ p, P p ≠ ∅ ↔ p < m) :
    Pages.Fills P n ↔ n = m := by
  have hmem : ∀ p, p ∈ Finset.range m ↔ P p ≠ ∅ := fun p => Finset.mem_range.trans (hP p).symm
  constructor
  · rintro ⟨F, hF, rfl⟩
    have hF' : F = Finset.range m := by
      ext p
      rw [hF, hmem]
    rw [hF', Finset.card_range]
  · rintro rfl
    exact ⟨Finset.range n, hmem, Finset.card_range n⟩

/-- **The second stage** packs the new numbers, and counts the pages of the first stage too. -/
theorem stageTwo_spec (order : SetOrder α) (ids : ℕ ↪ α) (hl : 0 < l) (numBins : ℕ)
    {newTensorList : List (List ℕ)} (hne : newTensorList ≠ [])
    (hn : ∀ m, (∃ t ∈ newTensorList, m ∈ t) ↔ m < n) :
    ∃ s, stageTwo order ids l numBins newTensorList = some s ∧ Pages.Within l s.page ∧
      (∀ b, (∃ p, b ∈ s.page p) ↔ ∃ m < n, ids m = b) ∧
      (Pages.Fills s.page s.numBins ↔ numBins = 0) := by
  obtain ⟨T, hT⟩ : ∃ T : List (Tensor α), newTensorList.map (fun t =>
      (⟨true, t.map ids, fun h => Bool.noConfusion h⟩ : Tensor α)) = T := ⟨_, rfl⟩
  have hne' : T ≠ [] := by
    rw [← hT]
    exact fun hnil => hne (List.map_eq_nil_iff.mp hnil)
  have hmem : ∀ b, (∃ t ∈ T, b ∈ t.set) ↔ ∃ m < n, ids m = b := by
    intro b
    rw [← hT]
    constructor
    · rintro ⟨t, ht, hb⟩
      obtain ⟨t', ht', rfl⟩ := List.mem_map.mp ht
      obtain ⟨m, hm, hmb⟩ := List.mem_map.mp (List.mem_toFinset.mp hb)
      exact ⟨m, (hn m).mp ⟨t', ht', hm⟩, hmb⟩
    · rintro ⟨m, hm, rfl⟩
      obtain ⟨t, ht, hmt⟩ := (hn m).mpr hm
      exact ⟨_, List.mem_map_of_mem ht, List.mem_toFinset.mpr (List.mem_map_of_mem hmt)⟩
  obtain ⟨r, hrun, hpacked, hids, hfilled, hstored⟩ := binPackGreedy_stored order hl hne'
  refine ⟨{ r.1 with numBins := numBins + r.1.numBins }, ?_, hpacked.within, fun b => ?_, ?_⟩
  · rw [stageTwo, hT, hrun]
    rfl
  · rw [← hmem]
    constructor
    · rintro ⟨p, hb⟩
      have hin := BinPackingScheme.page_subset (s := r.1) b hb
      rw [hids] at hin
      exact mem_allBlocks.mp hin
    · rintro ⟨t, ht, hb⟩
      obtain ⟨p, -, hbp⟩ := hstored t ht b hb
      exact ⟨p, hbp⟩
  · have hpages : ∀ p, r.1.page p ≠ ∅ ↔ p < r.1.numBins := fun p =>
      ⟨fun hp => Nat.lt_of_not_le fun hle => hp (hpacked.rest p hle), hfilled p⟩
    have hiff : Pages.Fills r.1.page (numBins + r.1.numBins) ↔ numBins + r.1.numBins = r.1.numBins :=
      fills_iff hpages
    exact hiff.trans (by omega)

/-! ## Both functions -/

variable {t0 t1 t2 t3 t4 t5 : Finset α}

theorem mem_textClasses {b : α} (h : ∃ g ∈ textClasses t0 t1 t2 t3 t4, b ∈ g) :
    ∃ t ∈ [t0, t1, t2, t3, t4], b ∈ t := by
  rw [exists_mem_tensors, signature, mem_signatures]
  intro hnone
  obtain ⟨g, hg, hb⟩ := h
  simp only [Prod.mk.injEq] at hnone
  obtain ⟨h0, h1, h2, h3, h4⟩ := hnone
  have hmap := decide_mem_classes t0 t1 t2 t3 t4 b
  rw [h0, h1, h2, h3, h4] at hmap
  have hin := List.mem_map_of_mem (f := fun g => decide (b ∈ g)) hg
  rw [hmap, decide_eq_true hb] at hin
  exact absurd hin (by decide)

theorem classLists_known (order : SetOrder α) {tensors classes : List (Finset α)}
    (h : ∀ b, (∃ g ∈ classes, b ∈ g) → ∃ t ∈ tensors, b ∈ t) :
    ∀ g ∈ classLists order classes, ∀ b ∈ g, b ∈ order.list 0 (tensors.foldl (· ∪ ·) ∅) := by
  intro g hg b hb
  have hin : ∃ g ∈ classLists order classes, b ∈ g := ⟨g, hg, hb⟩
  rw [order.mem_iff, mem_union]
  exact .inr (h b (mem_classLists.mp hin))

/-- what the second stage makes of the tensors -/
theorem packsAll_iff {tensors : List (Finset α)} {s : BinPackingScheme α} {bins : ℕ}
    (hwithin : Pages.Within l s.page) (hmem : ∀ b, (∃ p, b ∈ s.page p) ↔ ∃ m < n, ids m = b)
    (hfills : Pages.Fills s.page s.numBins ↔ bins = 0) :
    PacksAll tensors l s ↔ bins = 0 ∧ ∀ t ∈ tensors, ∀ b ∈ t, ∃ m < n, ids m = b := by
  constructor
  · intro h
    exact ⟨hfills.mp h.filled, fun t ht b hb => (hmem b).mp (h.covers t ht b hb)⟩
  · rintro ⟨hbins, hall⟩
    exact ⟨fun t ht b hb => (hmem b).mpr (hall t ht b hb), hwithin, hfills.mpr hbins⟩

theorem textTwostage_spec (order : SetOrder α) (ids : ℕ ↪ α) (hl : 0 < l) (t0 t1 t2 t3 t4 : Finset α) :
    ∃ s, textClassificationTwostage order ids [t0, t1, t2, t3, t4] l = some s ∧
      (PacksAll [t0, t1, t2, t3, t4] l s ↔
        (textNewBins l ((textClasses t0 t1 t2 t3 t4).map Finset.card)).sum = 0 ∧
        ∀ t ∈ [t0, t1, t2, t3, t4], ∀ b ∈ t,
          ∃ m < ((textClasses t0 t1 t2 t3 t4).map fun g => g.card % l).sum, ids m = b) := by
  obtain ⟨I, hI⟩ : ∃ I, order.list 0 ([t0, t1, t2, t3, t4].foldl (· ∪ ·) ∅) = I := ⟨_, rfl⟩
  obtain ⟨classes, hclasses⟩ : ∃ c, classLists order (textClasses t0 t1 t2 t3 t4) = c := ⟨_, rfl⟩
  have hsizes : classes.map List.length = (textClasses t0 t1 t2 t3 t4).map Finset.card := by
    rw [← hclasses, map_length_classLists]
  have hlen : classes.length = 31 := by
    rw [← hclasses, classLists, List.length_map, List.length_zipIdx]
    rfl
  obtain ⟨newBins, hnew⟩ : ∃ newBins, textNewBins l (classes.map List.length) = newBins := ⟨_, rfl⟩
  have hlen' : newBins.length = 31 := by
    rw [← hnew, textNewBins, List.length_set, List.length_map, List.length_map, hlen]
  have hknown : ∀ g ∈ classes, ∀ b ∈ g, b ∈ I := by
    rw [← hI, ← hclasses]
    exact classLists_known order fun b => mem_textClasses
  obtain ⟨blocks, hblocks⟩ : ∃ blocks, textMembers.zip (newBins.zip classes) = blocks := ⟨_, rfl⟩
  have hpairs : blocks.map Prod.snd = newBins.zip classes := by
    rw [← hblocks]
    refine List.map_snd_zip ?_
    rw [List.length_zip, hlen, hlen']
    exact Nat.le_refl 31
  have hbins : blocks.map (fun e => e.2.1) = newBins := by
    have hcomp : blocks.map (fun e => e.2.1) = (blocks.map Prod.snd).map Prod.fst := by
      rw [List.map_map]
      rfl
    rw [hcomp, hpairs, List.map_fst_zip (by rw [hlen, hlen'])]
  have hthird : blocks.map (fun e => e.2.2) = classes := by
    have hcomp : blocks.map (fun e => e.2.2) = (blocks.map Prod.snd).map Prod.snd := by
      rw [List.map_map]
      rfl
    rw [hcomp, hpairs, List.map_snd_zip (by rw [hlen, hlen'])]
  have hrest : (blocks.map fun e => e.2.2.length % l).sum =
      ((textClasses t0 t1 t2 t3 t4).map fun g => g.card % l).sum := by
    have hleft : blocks.map (fun e => e.2.2.length % l) = (classes.map List.length).map (· % l) := by
      rw [← hthird, List.map_map, List.map_map]
      rfl
    rw [hleft, hsizes, List.map_map]
    rfl
  have hmembers : ∀ members ∈ textMembers, ∃ k ∈ members, k < 5 := by decide
  have hgiven₀ : GivenOut (⟨BinPackingScheme.new I l, 0, [[], [], [], [], []], 0⟩ : StageOne α) :=
    fun n => by simp
  obtain ⟨st, hrun, hgiven, hlen5, hnum, hid⟩ := classBlocks_spec hl blocks (new_markable hl I) hgiven₀
    (fun e he b hb => hknown e.2.2 (hthird ▸ List.mem_map_of_mem he) b hb)
    (fun e he => hmembers e.1 (by
      rw [← hblocks] at he
      exact (List.of_mem_zip he).1))
  rw [hbins, Nat.zero_add, ← hnew, hsizes] at hnum
  rw [hrest, Nat.zero_add] at hid
  have hne : st.newTensorList ≠ [] := by
    intro hnil
    rw [hnil] at hlen5
    cases hlen5
  obtain ⟨s, hs, hwithin, hmem, hfills⟩ := stageTwo_spec (order.after 32) ids hl st.numBins hne hgiven
  refine ⟨s, ?_, ?_⟩
  · rw [textClassificationTwostage, hI, hclasses, hnew, hblocks, hrun]
    exact hs
  · rw [packsAll_iff hwithin hmem hfills, hnum, hid]

theorem w2vTwostage_spec (order : SetOrder α) (ids : ℕ ↪ α) (hl : 0 < l)
    (t0 t1 t2 t3 t4 t5 : Finset α) :
    ∃ s, w2vTwostage order ids [t0, t1, t2, t3, t4, t5] l = some s ∧
      (PacksAll [t0, t1, t2, t3, t4, t5] l s ↔
        ((w2vClasses t0 t1 t2 t3 t4 t5).map fun g => g.card / l).sum = 0 ∧
        ∀ t ∈ [t0, t1, t2, t3, t4, t5], ∀ b ∈ t,
          ∃ m < (t0 ∩ t1 ∩ t2 ∩ t3 ∩ t4 ∩ t5).card % l +
            6 * ((t0 \ (t0 ∩ t1 ∩ t2 ∩ t3 ∩ t4 ∩ t5)).card % l), ids m = b) := by
  obtain ⟨I, hI⟩ : ∃ I, order.list 0 ([t0, t1, t2, t3, t4, t5].foldl (· ∪ ·) ∅) = I := ⟨_, rfl⟩
  obtain ⟨classes, hclasses⟩ : ∃ c, classLists order (w2vClasses t0 t1 t2 t3 t4 t5) = c := ⟨_, rfl⟩
  have hknown : ∀ g ∈ classes, ∀ b ∈ g, b ∈ I := by
    rw [← hI, ← hclasses]
    exact classLists_known order fun b => mem_w2vClasses.mpr
  have hsum : (classes.map fun g => g.length / l).sum =
      ((w2vClasses t0 t1 t2 t3 t4 t5).map fun g => g.card / l).sum := by
    have hleft : classes.map (fun g => g.length / l) = (classes.map List.length).map (· / l) := by
      rw [List.map_map]
      rfl
    rw [hleft, ← hclasses, map_length_classLists, List.map_map]
    rfl
  have hmark : Markable I ((BinPackingScheme.new I l, 0) : BinPackingScheme α × ℕ).1 :=
    new_markable hl I
  obtain ⟨st, hrun, hnum⟩ := fullClasses_spec hl classes hmark hknown
  rw [hsum, Nat.zero_add] at hnum
  obtain ⟨s, hs, hwithin, hmem, hfills⟩ := stageTwo_spec (order.after 8) ids hl st.2
    (List.cons_ne_nil _ _) (mem_w2vNewTensors l (t0 ∩ t1 ∩ t2 ∩ t3 ∩ t4 ∩ t5).card
      (t0 \ (t0 ∩ t1 ∩ t2 ∩ t3 ∩ t4 ∩ t5)).card)
  refine ⟨s, ?_, ?_⟩
  · rw [w2vTwostage, hI, hclasses, hrun]
    exact hs
  · rw [packsAll_iff hwithin hmem hfills, hnum]

/-- **Both functions** return a scheme; it packs the tensors if and only if the first stage counts no
full page and every block is one of the numbers of the blocks that are left over. -/
theorem twostage_iff (order : SetOrder α) (ids : ℕ ↪ α) (hl : 0 < l) :
    (∀ t0 t1 t2 t3 t4 : Finset α,
      (∃ s, textClassificationTwostage order ids [t0, t1, t2, t3, t4] l = some s ∧
        PacksAll [t0, t1, t2, t3, t4] l s) ↔
      (textNewBins l ((textClasses t0 t1 t2 t3 t4).map Finset.card)).sum = 0 ∧
        ∀ t ∈ [t0, t1, t2, t3, t4], ∀ b ∈ t,
          ∃ m < ((textClasses t0 t1 t2 t3 t4).map fun g => g.card % l).sum, ids m = b) ∧
    ∀ t0 t1 t2 t3 t4 t5 : Finset α,
      (∃ s, w2vTwostage order ids [t0, t1, t2, t3, t4, t5] l = some s ∧
        PacksAll [t0, t1, t2, t3, t4, t5] l s) ↔
      ((w2vClasses t0 t1 t2 t3 t4 t5).map fun g => g.card / l).sum = 0 ∧
        ∀ t ∈ [t0, t1, t2, t3, t4, t5], ∀ b ∈ t,
          ∃ m < (t0 ∩ t1 ∩ t2 ∩ t3 ∩ t4 ∩ t5).card % l +
            6 * ((t0 \ (t0 ∩ t1 ∩ t2 ∩ t3 ∩ t4 ∩ t5)).card % l), ids m = b := by
  constructor
  · intro t0 t1 t2 t3 t4
    obtain ⟨s, hs, hiff⟩ := textTwostage_spec order ids hl t0 t1 t2 t3 t4
    rw [← hiff, hs]
    exact ⟨fun ⟨s', hs', h⟩ => Option.some.inj hs' ▸ h, fun h => ⟨s, rfl, h⟩⟩
  · intro t0 t1 t2 t3 t4 t5
    obtain ⟨s, hs, hiff⟩ := w2vTwostage_spec order ids hl t0 t1 t2 t3 t4 t5
    rw [← hiff, hs]
    exact ⟨fun ⟨s', hs', h⟩ => Option.some.inj hs' ▸ h, fun h => ⟨s, rfl, h⟩⟩

end

/-- two tensors whose blocks are `0` and `1`, three to a page -/
theorem twostage_iff_small : ∃ s,
    textClassificationTwostage .ascending (.refl ℕ) [{0}, {0, 1}, ∅, ∅, ∅] 3 = some s ∧
      PacksAll [{0}, {0, 1}, ∅, ∅, ∅] 3 s :=
  ((twostage_iff .ascending (.refl ℕ) (l := 3) (by decide)).1 {0} {0, 1} ∅ ∅ ∅).mpr
    ⟨by decide +kernel, by decide +kernel⟩

/-- **Three blocks of one tensor**, two to a page: the full page is counted, but the scheme that comes
back has the number of the third block only -/
theorem twostage_not_always : ¬ ∀ (t0 t1 t2 t3 t4 : Finset ℕ) (l : ℕ), 0 < l →
    ∃ s, textClassificationTwostage .ascending (.refl ℕ) [t0, t1, t2, t3, t4] l = some s ∧
      PacksAll [t0, t1, t2, t3, t4] l s := by
  intro hall
  obtain ⟨s, hs, hpacks⟩ := hall {0, 1, 2} ∅ ∅ ∅ ∅ 2 (by decide)
  have hrun : (textClassificationTwostage .ascending (.refl ℕ) [{0, 1, 2}, ∅, ∅, ∅, ∅] 2).map
      (fun s => (s.itemIds, s.numBins)) = some ([0], 2) := by decide +kernel
  rw [hs] at hrun
  have hitems : s.itemIds = [0] := congrArg Prod.fst (Option.some.inj hrun)
  obtain ⟨p, hp⟩ := hpacks.covers {0, 1, 2} List.mem_cons_self 1 (by decide)
  have hin := BinPackingScheme.page_subset 1 hp
  rw [hitems] at hin
  exact absurd hin (by decide)

end Netsdb
