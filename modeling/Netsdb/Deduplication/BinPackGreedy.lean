import Mathlib.Algebra.Order.BigOperators.Group.Finset
import Netsdb.Deduplication.BinPackingScheme

/-!
# Greedy packing of tensors (`PagePacking.py`, `bin_pack_greedy`)

The largest tensor is packed first.  Of each other tensor, what full pages have already is left
where it is, and the rest comes on new pages.

* `findMinBinsMaxCover`, `orderTensorBlocksByFreq`, `binPackGreedy`   as in the source;
* `findMinBinsMaxCover_spec`     the pages that it finds are those of `Pages.takeFull`;
* `Packed`                       what each round keeps;
* `binPackGreedy_complete_iff`   every tensor has its pages if and only if none is covered before
  its round.
-/

set_option linter.unusedSectionVars false

namespace Netsdb

/-- a tensor: a list of block ids, or a set in the order in which it is iterated -/
structure Tensor (α : Type) where
  isList : Bool
  blocks : List α
  set_nodup : isList = false → blocks.Nodup
deriving DecidableEq

namespace Tensor
variable {α : Type} [DecidableEq α]

def set (t : Tensor α) : Finset α := t.blocks.toFinset

/-- `t_k == t_i` where `t_i` is a set -/
def sameSet (t_k t_i : Tensor α) : Bool := !t_k.isList && decide (t_k.set = t_i.set)

end Tensor

namespace BinPackingScheme
variable {α : Type} [DecidableEq α]

/-! ## Pages that cover a tensor -/

/-- one step of the loop over the bins; the state is `cover` and the bin with its number -/
def tryBin (s : BinPackingScheme α) (T : Finset α) (usedBins : Finset ℕ)
    (st : ℕ × Option (Finset α × ℕ)) (j : ℕ) : Option (ℕ × Option (Finset α × ℕ)) :=
  if j ∈ usedBins then some st
  else do
    let items ← s.blocksInBinId j
    let newCover := (T ∩ items.toFinset).card
    some (if newCover = st.1 then (newCover, some (items.toFinset, j)) else st)

/-- the loop `while T`; each turn but the last uses a bin, so `numBins + 1` turns are enough -/
def coverLoop (s : BinPackingScheme α) (l : ℕ) :
    ℕ → Finset α → Finset α → Finset ℕ → Option (Finset α × Finset ℕ)
  | 0, _, _, _ => none
  | fuel + 1, T, binSet, usedBins =>
    if T = ∅ then some (binSet, usedBins)
    else do
      let (_, found) ← (List.range s.numBins).foldlM (s.tryBin T usedBins) (l, none)
      match found with
      | none => some (binSet, usedBins)
      | some (bin, binId) =>
        if bin = ∅ then some (binSet, usedBins)
        else
          let usedBins := insert binId usedBins
          let binSet := binSet ∪ (T ∩ bin)
          let T := T \ bin
          if usedBins.card = s.numBins then some (binSet, usedBins)
          else coverLoop s l fuel T binSet usedBins

def findMinBinsMaxCover (s : BinPackingScheme α) (t : Tensor α) (l : ℕ) :
    Option (Finset α × Finset ℕ) :=
  coverLoop s l (s.numBins + 1) t.set ∅ ∅

variable {s s' : BinPackingScheme α} {w l n : ℕ} {T : Finset α} {used : Finset ℕ}

theorem tryBins_spec (h : s.Grid w) (hn : n ≤ w) :
    (List.range n).foldlM (s.tryBin T used) (l, none) =
      some (l, (Pages.lastFull l s.page used T n).map fun j => (s.page j, j)) := by
  induction n with
  | zero => rfl
  | succ n ih =>
    obtain ⟨bs, hbs, -, hpage⟩ := h.blocksInBinId (Nat.lt_of_succ_le hn)
    rw [List.range_succ, List.foldlM_append, ih (Nat.le_of_succ_le hn), Pages.lastFull]
    show s.tryBin T used _ n >>= pure = _
    rw [bind_pure, tryBin]
    by_cases hused : n ∈ used
    · rw [if_pos hused, if_neg fun hf => hf.1 hused]
    · rw [if_neg hused, hbs]
      show some _ = some _
      rw [hpage]
      by_cases hfull : (T ∩ s.page n).card = l
      · rw [if_pos hfull, if_pos ⟨hused, hfull⟩, hfull]
        rfl
      · rw [if_neg hfull, if_neg fun hf => hfull hf.2]

/-- the loop from the pages below `n` on, where nothing more is full of items of the set -/
theorem coverLoop_spec (h : s.Grid w) (hw : s.numBins ≤ w) (hl : 0 < l)
    (hwithin : Pages.Within l s.page) (n : ℕ) : ∀ {fuel : ℕ} {T binSet : Finset α} {used : Finset ℕ},
    n < fuel → n ≤ s.numBins → (∀ j, n ≤ j → j < s.numBins → (T ∩ s.page j).card ≠ l) →
    (∀ j ∈ used, n ≤ j ∧ j < s.numBins) →
    coverLoop s l fuel T binSet used =
      some (binSet ∪ (T \ (Pages.takeFull l s.page n T).1),
        used ∪ (Pages.takeFull l s.page n T).2) := by
  induction n with
  | zero =>
    intro fuel T binSet used hfuel hn hskip hused
    obtain ⟨fuel, rfl⟩ := Nat.exists_eq_succ_of_ne_zero (Nat.ne_of_gt hfuel)
    have hlast := Pages.lastFull_skip used (Nat.zero_le s.numBins) hskip
    rw [coverLoop, tryBins_spec h hw, hlast, Pages.takeFull, Finset.sdiff_self, Finset.union_empty,
      Finset.union_empty]
    split
    · rfl
    · rfl
  | succ n ih =>
    intro fuel T binSet used hfuel hn hskip hused
    by_cases hfull : (T ∩ s.page n).card = l
    · obtain ⟨fuel, rfl⟩ := Nat.exists_eq_succ_of_ne_zero (Nat.ne_of_gt (Nat.zero_lt_of_lt hfuel))
      have hcard : 0 < (T ∩ s.page n).card := by
        rw [hfull]
        exact hl
      obtain ⟨a, ha⟩ := Finset.card_pos.mp hcard
      have hT : T ≠ ∅ := Finset.ne_empty_of_mem (Finset.mem_inter.mp ha).1
      have hpage : s.page n ≠ ∅ := Finset.ne_empty_of_mem (Finset.mem_inter.mp ha).2
      have hnew : n ∉ used := fun hmem => Nat.not_succ_le_self n (hused n hmem).1
      have hlast : Pages.lastFull l s.page used T s.numBins = some n := by
        rw [Pages.lastFull_skip used hn hskip, Pages.lastFull, if_pos ⟨hnew, hfull⟩]
      have hused' : ∀ j ∈ insert n used, n ≤ j ∧ j < s.numBins := by
        intro j hj
        rcases Finset.mem_insert.mp hj with rfl | hj
        · exact ⟨Nat.le_refl _, hn⟩
        · exact ⟨Nat.le_of_succ_le (hused j hj).1, (hused j hj).2⟩
      have hsplit : binSet ∪ (T ∩ s.page n) ∪
          ((T \ s.page n) \ (Pages.takeFull l s.page n (T \ s.page n)).1) =
          binSet ∪ (T \ (Pages.takeFull l s.page n (T \ s.page n)).1) := by
        ext b
        have hsub := @Pages.takeFull_rest_subset _ _ s.page l n (T \ s.page n) b
        simp only [Finset.mem_union, Finset.mem_inter, Finset.mem_sdiff] at hsub ⊢
        tauto
      have hinsert : insert n used ∪ (Pages.takeFull l s.page n (T \ s.page n)).2 =
          used ∪ insert n (Pages.takeFull l s.page n (T \ s.page n)).2 := by
        rw [Finset.insert_union, Finset.union_insert]
      rw [coverLoop, if_neg hT, tryBins_spec h hw, hlast, Pages.takeFull, if_pos hfull, ← hsplit,
        ← hinsert]
      show (if s.page n = ∅ then _ else if (insert n used).card = s.numBins then _ else _) = _
      rw [if_neg hpage]
      split
      case isTrue hall =>
        -- all bins are used, so there is none below
        have hle : (insert n used).card ≤ s.numBins - n := by
          rw [← Nat.card_Ico]
          exact Finset.card_le_card fun j hj => Finset.mem_Ico.mpr (hused' j hj)
        obtain rfl : n = 0 := by omega
        rw [Pages.takeFull, Finset.sdiff_self, Finset.union_empty, Finset.union_empty]
      case isFalse =>
        refine ih (Nat.lt_of_succ_lt_succ hfuel) (Nat.le_of_succ_le hn) (fun j hj hjn => ?_) hused'
        rcases Nat.eq_or_lt_of_le hj with rfl | hj
        · rw [Finset.sdiff_inter_self, Finset.card_empty]
          exact hl.ne
        · exact Pages.card_inter_ne (hwithin j) Finset.sdiff_subset (hskip j hj hjn)
    · rw [Pages.takeFull, if_neg hfull]
      refine ih (Nat.lt_of_succ_lt hfuel) (Nat.le_of_succ_le hn) (fun j hj hjn => ?_) fun j hj =>
        ⟨Nat.le_of_succ_le (hused j hj).1, (hused j hj).2⟩
      rcases Nat.eq_or_lt_of_le hj with rfl | hj
      · exact hfull
      · exact hskip j hj hjn

/-- **The pages that cover a tensor** are the full ones, from the last page to the first. -/
theorem findMinBinsMaxCover_spec (h : s.Grid w) (hw : s.numBins ≤ w) (hl : 0 < l)
    (hwithin : Pages.Within l s.page) (t : Tensor α) :
    s.findMinBinsMaxCover t l = some (t.set \ (Pages.takeFull l s.page s.numBins t.set).1,
      (Pages.takeFull l s.page s.numBins t.set).2) := by
  rw [findMinBinsMaxCover, coverLoop_spec h hw hl hwithin s.numBins (Nat.lt_succ_self _) (Nat.le_refl _)
    (fun j hj hjn => absurd hjn (Nat.not_lt_of_le hj)) fun j hj => absurd hj (Finset.notMem_empty j),
    Finset.empty_union, Finset.empty_union]

end BinPackingScheme

/-! ## Orders of tensors and of blocks -/

section
variable {α : Type} [DecidableEq α]

def orderTensorsBySize (T : List (Tensor α)) : List (Tensor α) :=
  T.insertionSort fun t t' => t'.blocks.length ≤ t.blocks.length

/-- `freq_map[block] += 1` if the block is there -/
def increment (freq : List (α × ℕ)) (block : α) : List (α × ℕ) :=
  freq.map fun e => if e.1 = block then (e.1, e.2 + 1) else e

def countBlock (freq : List (α × ℕ)) (block : α) : List (α × ℕ) :=
  if block ∈ freq.map Prod.fst then increment freq block else freq ++ [(block, 1)]

def freqMap (T : List (Tensor α)) (t_i : Tensor α) : List (α × ℕ) :=
  T.foldl (fun freq t_k =>
      if !t_i.isList && t_k.sameSet t_i then freq else t_k.blocks.foldl increment freq)
    (t_i.blocks.foldl countBlock [])

def orderTensorBlocksByFreq (T : List (Tensor α)) (t_i : Tensor α) : List α :=
  ((freqMap T t_i).insertionSort fun x y => y.2 ≤ x.2).map Prod.fst

theorem keys_increment (freq : List (α × ℕ)) (block : α) :
    (increment freq block).map Prod.fst = freq.map Prod.fst := by
  rw [increment, List.map_map]
  refine List.map_congr_left fun e _ => ?_
  rw [Function.comp_apply]
  split
  · rfl
  · rfl

theorem keys_increments (blocks : List α) (freq : List (α × ℕ)) :
    (blocks.foldl increment freq).map Prod.fst = freq.map Prod.fst := by
  induction blocks generalizing freq with
  | nil => rfl
  | cons block blocks ih => rw [List.foldl_cons, ih, keys_increment]

theorem mem_keys_countBlock {freq : List (α × ℕ)} {a block : α} :
    a ∈ (countBlock freq block).map Prod.fst ↔ a ∈ freq.map Prod.fst ∨ a = block := by
  rw [countBlock]
  split
  case isTrue h =>
    rw [keys_increment]
    exact ⟨.inl, fun ha => ha.elim id fun heq => heq ▸ h⟩
  case isFalse h =>
    rw [List.map_append, List.mem_append, List.map_singleton, List.mem_singleton]

theorem mem_keys_countBlocks {a : α} (blocks : List α) (freq : List (α × ℕ)) :
    a ∈ (blocks.foldl countBlock freq).map Prod.fst ↔ a ∈ freq.map Prod.fst ∨ a ∈ blocks := by
  induction blocks generalizing freq with
  | nil => exact (or_iff_left List.not_mem_nil).symm
  | cons block blocks ih => rw [List.foldl_cons, ih, mem_keys_countBlock, List.mem_cons, or_assoc]

theorem keys_freqMap (t_i : Tensor α) (T : List (Tensor α)) (freq : List (α × ℕ)) :
    (T.foldl (fun freq t_k =>
        if !t_i.isList && t_k.sameSet t_i then freq else t_k.blocks.foldl increment freq)
      freq).map Prod.fst = freq.map Prod.fst := by
  induction T generalizing freq with
  | nil => rfl
  | cons t_k T ih =>
    rw [List.foldl_cons, ih]
    split
    · rfl
    · rw [keys_increments]

/-- the blocks of the tensor, in another order -/
theorem mem_orderTensorBlocksByFreq {T : List (Tensor α)} {t_i : Tensor α} {a : α} :
    a ∈ orderTensorBlocksByFreq T t_i ↔ a ∈ t_i.blocks := by
  rw [orderTensorBlocksByFreq, ((List.perm_insertionSort _ _).map Prod.fst).mem_iff, freqMap,
    keys_freqMap, mem_keys_countBlocks, List.map_nil]
  exact or_iff_right List.not_mem_nil

end

/-! ## What is packed -/

namespace BinPackingScheme
variable {α : Type} [DecidableEq α] {s s' : BinPackingScheme α} {w l : ℕ}

/-- what is on the first `base` pages is packed, and the other pages are empty -/
structure Packed (l base : ℕ) (s : BinPackingScheme α) : Prop where
  grid : s.Grid (max (s.itemIds.length ⌈/⌉ l) base)
  within : Pages.Within l s.page
  rest : ∀ p, base ≤ p → s.page p = ∅

theorem new_packed (I : List α) (l : ℕ) : (new I l).Packed l 0 where
  grid := by
    rw [Nat.max_zero]
    exact new_grid I l
  within p := by
    rw [new_page]
    exact Nat.zero_le _
  rest p _ := new_page I l p

theorem Packed.counted {base : ℕ} (h : s.Packed l base) :
    ({ s with numBins := base } : BinPackingScheme α).Packed l base :=
  ⟨⟨h.grid.rows, h.grid.columns⟩, h.within, h.rest⟩

theorem Packed.place {base : ℕ} (hl : 0 < l) (h : s.Packed l base) (items : List α)
    (hitems : ∀ a ∈ items, a ∈ s.itemIds) (pages : Finset ℕ) :
    ∃ s', place s.itemIds l base 1 items s pages =
        some (s', pages ∪ ((Pages.fill l base items).map Prod.snd).toFinset) ∧
      s'.Packed l (base + items.length ⌈/⌉ l) ∧ s'.itemIds = s.itemIds ∧
      s'.page = Pages.put s.page (Pages.fill l base items) := by
  obtain ⟨s', hrun, hgrid, hadds⟩ := place_spec base hl items 0 pages h.grid
    (by
      rw [zero_ceilDiv]
      exact le_max_right _ _) hitems
  have hpage : s'.page = Pages.put s.page (Pages.fill l base items) := hadds.page
  refine ⟨s', hrun, ⟨?_, ?_, ?_⟩, hadds.itemIds, hpage⟩
  · rw [hadds.itemIds]
    have hmax : max (max (s.itemIds.length ⌈/⌉ l) base) (base + (0 + items.length) ⌈/⌉ l) =
        max (s.itemIds.length ⌈/⌉ l) (base + items.length ⌈/⌉ l) := by
      rw [Nat.zero_add]
      omega
    rw [← hmax]
    exact hgrid
  · rw [hpage]
    exact h.within.put_fill hl h.rest items
  · intro p hp
    refine Finset.eq_empty_of_forall_notMem fun a ha => ?_
    rw [hpage, Pages.mem_put, h.rest p ((Nat.le_add_right _ _).trans hp)] at ha
    rcases ha with ha | ha
    · exact Finset.notMem_empty a ha
    · exact Nat.not_lt_of_le hp (Pages.fill_range hl ha).2

end BinPackingScheme

/-! ## The rounds -/

section
variable {α : Type} [DecidableEq α]

/-- a scheme, and `tensor_page_mapping` -/
abbrev Packing (α : Type) := BinPackingScheme α × (ℕ → Option (Finset ℕ))

/-- the round of the tensor with the index `i` -/
def packTensor (order : SetOrder α) (T : List (Tensor α)) (l : ℕ) (I : List α) (i : ℕ)
    (t : Tensor α) (r : Packing α) : Option (Packing α) := do
  let (binSet, usedBins) ← r.1.findMinBinsMaxCover t l
  let delta := order.list i (t.set \ binSet)
  if delta = [] then some r
  else do
    let remainingItems := orderTensorBlocksByFreq T ⟨true, delta, fun h => Bool.noConfusion h⟩
    let (s, tensorPageSet) ← BinPackingScheme.place I l r.1.numBins 1 remainingItems r.1 usedBins
    some ({ s with numBins := r.1.numBins + remainingItems.length ⌈/⌉ l },
      Function.update r.2 i (some tensorPageSet))

def packTensors (order : SetOrder α) (T : List (Tensor α)) (l : ℕ) (I : List α) :
    ℕ → List (Tensor α) → Packing α → Option (Packing α)
  | _, [], r => some r
  | i, t :: rest, r => do
    let r' ← packTensor order T l I i t r
    packTensors order T l I (i + 1) rest r'

/-- the first tensor -/
def packFirst (T : List (Tensor α)) (l : ℕ) (I : List α) (t : Tensor α) : Option (Packing α) := do
  let items := orderTensorBlocksByFreq T t
  let (s, tensorPageSet) ← BinPackingScheme.place I l 0 1 items (BinPackingScheme.new I l) ∅
  some ({ s with numBins := items.length ⌈/⌉ l },
    Function.update (fun _ => none) 0 (some tensorPageSet))

/-- `I` of the source -/
def allBlocks (order : SetOrder α) (T : List (Tensor α)) : List α :=
  order.list 0 (T.foldl (fun I t => I ∪ t.set) ∅)

/-- `tensors[0]` of no tensors is an `IndexError` -/
def binPackGreedy (order : SetOrder α) (T : List (Tensor α)) (l : ℕ) : Option (Packing α) :=
  match orderTensorsBySize T with
  | [] => none
  | t :: rest => do
    let r ← packFirst T l (allBlocks order T) t
    packTensors order T l (allBlocks order T) 1 rest r

/-! ## What the packing is for -/

/-- at most `l` blocks on every page, and for every tensor, in the order of the sizes, pages that have
all of its blocks -/
structure Complete (tensors : List (Tensor α)) (l : ℕ) (r : Packing α) : Prop where
  columns : r.1.Grid r.1.numBins
  within : ∀ p < r.1.numBins, ∃ bs, r.1.blocksInBinId p = some bs ∧ bs.length ≤ l
  entries : ∀ i t, tensors[i]? = some t → ∃ pages, r.2 i = some pages ∧
    ∀ b ∈ t.blocks, ∃ p ∈ pages, ∃ bs, r.1.blocksInBinId p = some bs ∧ b ∈ bs

/-- some block of the tensor is not on the full pages that are taken for it -/
def Fresh (l : ℕ) (s : BinPackingScheme α) (t : Tensor α) : Prop :=
  (Pages.takeFull l s.page s.numBins t.set).1 ≠ ∅

/-- the tensors are fresh when their round comes -/
def FreshFrom (order : SetOrder α) (T : List (Tensor α)) (l : ℕ) (I : List α) :
    ℕ → List (Tensor α) → Packing α → Prop
  | _, [], _ => True
  | i, t :: rest, r => Fresh l r.1 t ∧
    ∀ r', packTensor order T l I i t r = some r' → FreshFrom order T l I (i + 1) rest r'

/-- there is a tensor, and each but the first is fresh when its round comes -/
def AllFresh (order : SetOrder α) (T : List (Tensor α)) (l : ℕ) : Prop :=
  match orderTensorsBySize T with
  | [] => False
  | t :: rest => ∀ r, packFirst T l (allBlocks order T) t = some r →
    FreshFrom order T l (allBlocks order T) 1 rest r

/-- the tensor has an entry, with pages that have all of its blocks -/
def Serves (r : Packing α) (i : ℕ) (t : Tensor α) : Prop :=
  ∃ pages, r.2 i = some pages ∧ (∀ p ∈ pages, p < r.1.numBins) ∧
    ∀ b ∈ t.set, ∃ p ∈ pages, b ∈ r.1.page p

/-- what there is on pages and in entries stays -/
structure Extends (I : List α) (l : ℕ) (r r' : Packing α) : Prop where
  packed : r'.1.Packed l r'.1.numBins
  itemIds : r'.1.itemIds = I
  page : ∀ p, r.1.page p ⊆ r'.1.page p
  numBins : r.1.numBins ≤ r'.1.numBins

variable {order : SetOrder α} {T : List (Tensor α)} {l i : ℕ} {I : List α} {t : Tensor α}
  {r r' r'' : Packing α}

theorem Extends.trans (h : Extends I l r r') (h' : Extends I l r' r'') : Extends I l r r'' :=
  ⟨h'.packed, h'.itemIds, fun p => (h.page p).trans (h'.page p), h.numBins.trans h'.numBins⟩

theorem Serves.mono (h : Serves r i t) (hr : Extends I l r r') (hi : r'.2 i = r.2 i) :
    Serves r' i t := by
  obtain ⟨pages, hpages, hlt, hall⟩ := h
  refine ⟨pages, hi.trans hpages, fun p hp => Nat.lt_of_lt_of_le (hlt p hp) hr.numBins, fun b hb => ?_⟩
  obtain ⟨p, hp, hbp⟩ := hall b hb
  exact ⟨p, hp, hr.page p hbp⟩

/-- all blocks are on pages -/
def Stored (r : Packing α) (t : Tensor α) : Prop := ∀ b ∈ t.set, ∃ p < r.1.numBins, b ∈ r.1.page p

theorem Stored.mono (h : Stored r t) (hr : Extends I l r r') : Stored r' t := by
  intro b hb
  obtain ⟨p, hp, hbp⟩ := h b hb
  exact ⟨p, Nat.lt_of_lt_of_le hp hr.numBins, hr.page p hbp⟩

theorem Serves.stored (h : Serves r i t) : Stored r t := by
  obtain ⟨pages, -, hlt, hall⟩ := h
  intro b hb
  obtain ⟨p, hp, hbp⟩ := hall b hb
  exact ⟨p, hlt p hp, hbp⟩

/-- a round leaves everything as it is, or puts what is not on full pages on new ones -/
theorem packTensor_cases (order : SetOrder α) (T : List (Tensor α)) (i : ℕ) (hl : 0 < l)
    (hr : Extends I l r r) (ht : ∀ b ∈ t.set, b ∈ I) :
    (¬ Fresh l r.1 t ∧ packTensor order T l I i t r = some r) ∨
      ∃ (items : List α) (s' : BinPackingScheme α), Fresh l r.1 t ∧
        (∀ a, a ∈ items ↔ a ∈ (Pages.takeFull l r.1.page r.1.numBins t.set).1) ∧
        s'.Packed l (r.1.numBins + items.length ⌈/⌉ l) ∧ s'.itemIds = r.1.itemIds ∧
        s'.page = Pages.put r.1.page (Pages.fill l r.1.numBins items) ∧
        packTensor order T l I i t r = some ({ s' with numBins := r.1.numBins + items.length ⌈/⌉ l },
          Function.update r.2 i (some ((Pages.takeFull l r.1.page r.1.numBins t.set).2 ∪
            ((Pages.fill l r.1.numBins items).map Prod.snd).toFinset))) := by
  have hfind := BinPackingScheme.findMinBinsMaxCover_spec hr.packed.grid (le_max_right _ _) hl
    hr.packed.within t
  have hsub := Pages.takeFull_rest_subset (P := r.1.page) (l := l) r.1.numBins t.set
  rw [packTensor, hfind, Fresh]
  generalize Pages.takeFull l r.1.page r.1.numBins t.set = taken at hsub
  obtain ⟨rest, used⟩ := taken
  have hdelta : t.set \ (t.set \ rest) = rest := Finset.sdiff_sdiff_eq_self hsub
  by_cases hempty : rest = ∅
  · have hnil : order.list i (t.set \ (t.set \ rest)) = [] := by
      rw [hdelta, hempty]
      exact List.eq_nil_iff_forall_not_mem.mpr fun a ha =>
        Finset.notMem_empty a ((order.mem_iff i ∅ a).mp ha)
    exact .inl ⟨fun hf => hf hempty, if_pos hnil⟩
  · have hcons : order.list i (t.set \ (t.set \ rest)) ≠ [] := by
      intro hnil
      rw [hdelta] at hnil
      refine hempty (Finset.eq_empty_of_forall_notMem fun a ha => ?_)
      have hmem := (order.mem_iff i rest a).mpr ha
      rw [hnil] at hmem
      exact List.not_mem_nil hmem
    obtain ⟨items, hitems⟩ : ∃ items, orderTensorBlocksByFreq T
        ⟨true, order.list i (t.set \ (t.set \ rest)), fun h => Bool.noConfusion h⟩ = items := ⟨_, rfl⟩
    have hmem : ∀ a, a ∈ items ↔ a ∈ rest := by
      intro a
      rw [← hitems, mem_orderTensorBlocksByFreq, order.mem_iff, hdelta]
    have hknown : ∀ a ∈ items, a ∈ r.1.itemIds := by
      intro a ha
      rw [hr.itemIds]
      exact ht a (hsub ((hmem a).mp ha))
    obtain ⟨s', hrun, hpacked, hids, hpage⟩ := hr.packed.place hl items hknown used
    refine .inr ⟨items, s', hempty, hmem, hpacked, hids, hpage, ?_⟩
    show (if order.list i (t.set \ (t.set \ rest)) = [] then some r else _) = _
    rw [if_neg hcons, hitems]
    rw [hr.itemIds] at hrun
    dsimp only [Option.bind_eq_bind, Option.bind_some]
    rw [hrun]
    rfl

/-- **One round**: the tensor gets an entry if it is fresh. -/
theorem packTensor_spec (order : SetOrder α) (T : List (Tensor α)) (i : ℕ) (hl : 0 < l)
    (hr : Extends I l r r) (ht : ∀ b ∈ t.set, b ∈ I) :
    ∃ r', packTensor order T l I i t r = some r' ∧ Extends I l r r' ∧
      (∀ k, k ≠ i → r'.2 k = r.2 k) ∧ Stored r' t ∧
      (Fresh l r.1 t → Serves r' i t) ∧ (¬ Fresh l r.1 t → r'.2 i = r.2 i) := by
  have hcovers := Pages.takeFull_covers (P := r.1.page) (l := l) r.1.numBins t.set
  have hused := Pages.takeFull_used_lt (P := r.1.page) (l := l) r.1.numBins t.set
  rcases packTensor_cases order T i hl hr ht with
    ⟨hnot, hrun⟩ | ⟨items, s', hfresh, hmem, hpacked, hids, hpage, hrun⟩
  · have hempty : (Pages.takeFull l r.1.page r.1.numBins t.set).1 = ∅ := not_not.mp hnot
    refine ⟨r, hrun, hr, fun _ _ => rfl, fun b hb => ?_, fun hf => absurd hf hnot, fun _ => rfl⟩
    rw [hempty] at hcovers
    obtain ⟨p, hp, hbp⟩ := hcovers b hb (Finset.notMem_empty b)
    exact ⟨p, hused p hp, hbp⟩
  · have hserves : Serves ({ s' with numBins := r.1.numBins + items.length ⌈/⌉ l },
        Function.update r.2 i (some ((Pages.takeFull l r.1.page r.1.numBins t.set).2 ∪
          ((Pages.fill l r.1.numBins items).map Prod.snd).toFinset))) i t := by
      refine ⟨_, Function.update_self _ _ _, fun p hp => ?_, fun b hb => ?_⟩
      · rcases Finset.mem_union.mp hp with hp | hp
        · exact (hused p hp).trans_le (Nat.le_add_right _ _)
        · obtain ⟨e, he, rfl⟩ := List.mem_map.mp (List.mem_toFinset.mp hp)
          exact (Pages.fill_range hl he).2
      · show ∃ p ∈ _, b ∈ s'.page p
        rw [hpage]
        by_cases hb' : b ∈ (Pages.takeFull l r.1.page r.1.numBins t.set).1
        · obtain ⟨p, hp⟩ := Pages.exists_fill l r.1.numBins ((hmem b).mpr hb')
          exact ⟨p, Finset.mem_union_right _ (List.mem_toFinset.mpr (List.mem_map_of_mem hp)),
            Pages.mem_put.mpr (.inr hp)⟩
        · obtain ⟨p, hp, hbp⟩ := hcovers b hb hb'
          exact ⟨p, Finset.mem_union_left _ hp, Pages.mem_put.mpr (.inl hbp)⟩
    refine ⟨_, hrun, ⟨hpacked.counted, hids.trans hr.itemIds, fun p a ha => ?_, Nat.le_add_right _ _⟩,
      fun k hk => Function.update_of_ne hk _ _, hserves.stored, fun _ => hserves,
      fun hf => absurd hfresh hf⟩
    show a ∈ s'.page p
    rw [hpage]
    exact Pages.mem_put.mpr (.inl ha)

/-- **The rounds**: all tensors get entries if they are fresh, and only then. -/
theorem packTensors_spec (order : SetOrder α) (T : List (Tensor α)) (hl : 0 < l)
    (rest : List (Tensor α)) : ∀ (i : ℕ) {r : Packing α}, Extends I l r r → (∀ t ∈ rest, ∀ b ∈ t.set, b ∈ I) → (∀ k, i ≤ k → r.2 k = none) →
    ∃ r', packTensors order T l I i rest r = some r' ∧ Extends I l r r' ∧
      (∀ k < i, r'.2 k = r.2 k) ∧ (∀ t ∈ rest, Stored r' t) ∧
      (FreshFrom order T l I i rest r → ∀ j t, rest[j]? = some t → Serves r' (i + j) t) ∧
      ((∀ j < rest.length, r'.2 (i + j) ≠ none) → FreshFrom order T l I i rest r) := by
  induction rest with
  | nil =>
    intro i r hr _ _
    exact ⟨r, rfl, hr, fun _ _ => rfl, fun _ ht => absurd ht List.not_mem_nil,
      fun _ j t ht => absurd ht (by simp), fun _ => trivial⟩
  | cons t rest ih =>
    intro i r hr hknown hnone
    obtain ⟨r₁, hround, hext₁, hother, hstored, hserves, hkept⟩ :=
      packTensor_spec order T i hl hr (hknown t List.mem_cons_self)
    obtain ⟨r₂, hrun, hext₂, hbefore, hstored₂, hserves₂, hfresh₂⟩ :=
      ih (i + 1) ⟨hext₁.packed, hext₁.itemIds, fun p => Finset.Subset.refl _, Nat.le_refl _⟩
        (fun t ht => hknown t (List.mem_cons_of_mem _ ht)) fun k hk => by
          rw [hother k (by omega)]
          exact hnone k (by omega)
    have hi : r₂.2 i = r₁.2 i := hbefore i (Nat.lt_succ_self i)
    refine ⟨r₂, ?_, hext₁.trans hext₂, fun k hk => ?_, fun t' ht' => ?_, fun hfresh j t' ht' => ?_,
      fun hall => ?_⟩
    · rw [packTensors, hround]
      exact hrun
    · rw [hbefore k (by omega), hother k (Nat.ne_of_lt hk)]
    · rcases List.mem_cons.mp ht' with rfl | ht'
      · exact hstored.mono hext₂
      · exact hstored₂ t' ht'
    · obtain ⟨hft, hfrest⟩ := hfresh
      cases j with
      | zero =>
        obtain rfl : t = t' := Option.some.inj ht'
        exact (hserves hft).mono hext₂ hi
      | succ j =>
        have hrest := hserves₂ (hfrest r₁ hround) j t' ht'
        rw [Nat.add_right_comm] at hrest
        exact hrest
    · refine ⟨?_, fun r' hr' => ?_⟩
      · by_contra hnot
        refine hall 0 (Nat.succ_pos _) ?_
        rw [Nat.add_zero, hi, hkept hnot]
        exact hnone i (Nat.le_refl i)
      · obtain rfl := Option.some.inj (hround.symm.trans hr')
        refine hfresh₂ fun j hj => ?_
        have h := hall (j + 1) (Nat.succ_lt_succ hj)
        rw [Nat.add_right_comm]
        exact h

theorem mem_union_sets {a : α} (T : List (Tensor α)) (I : Finset α) :
    a ∈ T.foldl (fun I t => I ∪ t.set) I ↔ a ∈ I ∨ ∃ t ∈ T, a ∈ t.set := by
  induction T generalizing I with
  | nil => simp
  | cons t T ih => rw [List.foldl_cons, ih, Finset.mem_union, List.exists_mem_cons_iff, or_assoc]

theorem mem_allBlocks {a : α} : a ∈ allBlocks order T ↔ ∃ t ∈ T, a ∈ t.set := by
  rw [allBlocks, order.mem_iff, mem_union_sets]
  exact or_iff_right (Finset.notMem_empty a)

/-- **The first tensor** -/
theorem packFirst_spec (T : List (Tensor α)) (hl : 0 < l) (ht : ∀ b ∈ t.set, b ∈ I) :
    ∃ (items : List α) (r : Packing α), packFirst T l I t = some r ∧ Extends I l r r ∧ Serves r 0 t ∧
      (∀ k, 1 ≤ k → r.2 k = none) ∧ r.1.numBins = items.length ⌈/⌉ l ∧
      r.1.page = Pages.put (BinPackingScheme.new I l).page (Pages.fill l 0 items) := by
  obtain ⟨items, hitems⟩ : ∃ items, orderTensorBlocksByFreq T t = items := ⟨_, rfl⟩
  have hmem : ∀ a, a ∈ items ↔ a ∈ t.set := by
    intro a
    rw [← hitems, mem_orderTensorBlocksByFreq, Tensor.set, List.mem_toFinset]
  obtain ⟨s, hplace, hpacked, hids, hpage⟩ :=
    (BinPackingScheme.new_packed I l).place hl items (fun a ha => ht a ((hmem a).mp ha)) ∅
  rw [Nat.zero_add] at hpacked
  rw [Finset.empty_union] at hplace
  have hplace' : BinPackingScheme.place I l 0 1 items (BinPackingScheme.new I l) ∅ =
      some (s, ((Pages.fill l 0 items).map Prod.snd).toFinset) := hplace
  refine ⟨items, ({ s with numBins := items.length ⌈/⌉ l }, Function.update (fun _ => none) 0
    (some ((Pages.fill l 0 items).map Prod.snd).toFinset)), ?_, ?_, ?_, fun k hk => ?_, rfl, hpage⟩
  · rw [packFirst, hitems, hplace']
    rfl
  · exact ⟨hpacked.counted, hids, fun p => Finset.Subset.refl _, Nat.le_refl _⟩
  · have hentry : Function.update (fun _ => none) 0
        (some ((Pages.fill l 0 items).map Prod.snd).toFinset) 0 =
        some ((Pages.fill l 0 items).map Prod.snd).toFinset := Function.update_self _ _ _
    refine ⟨_, hentry, fun p hp => ?_, fun b hb => ?_⟩
    · obtain ⟨e, he, rfl⟩ := List.mem_map.mp (List.mem_toFinset.mp hp)
      have hlt := (Pages.fill_range hl he).2
      rw [Nat.zero_add] at hlt
      exact hlt
    · obtain ⟨p, hp⟩ := Pages.exists_fill l 0 ((hmem b).mpr hb)
      refine ⟨p, List.mem_toFinset.mpr (List.mem_map_of_mem hp), ?_⟩
      show b ∈ s.page p
      rw [hpage]
      exact Pages.mem_put.mpr (.inr hp)
  · show Function.update (fun _ => none) 0 (some _) k = none
    exact Function.update_of_ne (Nat.ne_of_gt hk) _ _

/-! ### Every page that is counted has a block -/

def Filled (r : Packing α) : Prop := ∀ p < r.1.numBins, r.1.page p ≠ ∅

theorem packTensor_filled (order : SetOrder α) (T : List (Tensor α)) (i : ℕ) (hl : 0 < l)
    (hr : Extends I l r r) (ht : ∀ b ∈ t.set, b ∈ I) (hfilled : Filled r)
    (h : packTensor order T l I i t r = some r') : Filled r' := by
  rcases packTensor_cases order T i hl hr ht with
    ⟨-, hrun⟩ | ⟨items, s', -, -, -, -, hpage, hrun⟩
  · obtain rfl := Option.some.inj (hrun.symm.trans h)
    exact hfilled
  · obtain rfl := Option.some.inj (hrun.symm.trans h)
    intro p hp
    show s'.page p ≠ ∅
    rw [hpage]
    exact Pages.put_fill_ne hl hfilled items p hp

theorem packTensors_filled (order : SetOrder α) (T : List (Tensor α)) (hl : 0 < l)
    (rest : List (Tensor α)) : ∀ (i : ℕ) {r : Packing α}, Extends I l r r →
    (∀ t ∈ rest, ∀ b ∈ t.set, b ∈ I) → Filled r → packTensors order T l I i rest r = some r' →
    Filled r' := by
  induction rest with
  | nil =>
    intro i r _ _ hfilled h
    obtain rfl := Option.some.inj h
    exact hfilled
  | cons t rest ih =>
    intro i r hr hknown hfilled h
    obtain ⟨r₁, hround, hext₁, -⟩ := packTensor_spec order T i hl hr (hknown t List.mem_cons_self)
    rw [packTensors, hround] at h
    exact ih (i + 1) ⟨hext₁.packed, hext₁.itemIds, fun p => Finset.Subset.refl _, Nat.le_refl _⟩
      (fun t ht => hknown t (List.mem_cons_of_mem _ ht))
      (packTensor_filled order T i hl hr (hknown t List.mem_cons_self) hfilled hround) h

/-- **All blocks are packed**, on the pages that are counted -/
theorem binPackGreedy_stored (order : SetOrder α) (hl : 0 < l) (hT : T ≠ []) :
    ∃ r, binPackGreedy order T l = some r ∧ r.1.Packed l r.1.numBins ∧
      r.1.itemIds = allBlocks order T ∧ Filled r ∧ ∀ t ∈ T, Stored r t := by
  have hperm : (orderTensorsBySize T).Perm T := List.perm_insertionSort _ T
  rw [binPackGreedy]
  cases htensors : orderTensorsBySize T with
  | nil =>
    rw [htensors] at hperm
    exact absurd (List.nil_perm.mp hperm) hT
  | cons t rest =>
    rw [htensors] at hperm
    have hknown : ∀ t' ∈ t :: rest, ∀ b ∈ t'.set, b ∈ allBlocks order T := fun t' ht' b hb =>
      mem_allBlocks.mpr ⟨t', hperm.mem_iff.mp ht', hb⟩
    have hrest : ∀ t' ∈ rest, ∀ b ∈ t'.set, b ∈ allBlocks order T := fun t' ht' =>
      hknown t' (List.mem_cons_of_mem _ ht')
    obtain ⟨items, r₀, hfirst, hext, hserves, hnone, hbins, hpage⟩ :=
      packFirst_spec T hl (hknown t List.mem_cons_self)
    obtain ⟨r, hrun, hext', -, hstored, -⟩ := packTensors_spec order T hl rest 1 hext hrest hnone
    have hfilled : Filled r₀ := by
      intro p hp
      rw [hpage]
      refine Pages.put_fill_ne hl (fun p hp => absurd hp (Nat.not_lt_zero p)) items p ?_
      rw [Nat.zero_add, ← hbins]
      exact hp
    refine ⟨r, ?_, hext'.packed, hext'.itemIds,
      packTensors_filled order T hl rest 1 hext hrest hfilled hrun, fun t' ht' => ?_⟩
    · show (packFirst T l (allBlocks order T) t).bind _ = _
      rw [hfirst]
      exact hrun
    · rcases List.mem_cons.mp (hperm.mem_iff.mpr ht') with rfl | ht'
      · exact hserves.stored.mono hext'
      · exact hstored t' ht'

/-- there are as many columns as pages -/
theorem Packed.columns {s : BinPackingScheme α} (hl : 0 < l) (h : s.Packed l s.numBins)
    (hnodup : s.itemIds.Nodup) (hall : ∀ b ∈ s.itemIds, ∃ p < s.numBins, b ∈ s.page p) :
    s.Grid s.numBins := by
  have hsub : s.itemIds.toFinset ⊆ (Finset.range s.numBins).biUnion s.page := by
    intro b hb
    obtain ⟨p, hp, hbp⟩ := hall b (List.mem_toFinset.mp hb)
    exact Finset.mem_biUnion.mpr ⟨p, Finset.mem_range.mpr hp, hbp⟩
  have hcard : s.itemIds.length ≤ l * s.numBins := by
    calc s.itemIds.length = s.itemIds.toFinset.card := (List.toFinset_card_of_nodup hnodup).symm
      _ ≤ ((Finset.range s.numBins).biUnion s.page).card := Finset.card_le_card hsub
      _ ≤ (Finset.range s.numBins).card * l :=
        Finset.card_biUnion_le_card_mul _ _ _ fun p _ => h.within p
      _ = l * s.numBins := by rw [Finset.card_range, Nat.mul_comm]
  have hle : s.itemIds.length ⌈/⌉ l ≤ s.numBins := (ceilDiv_le_iff_le_mul hl).mpr hcard
  have hgrid := h.grid
  rw [Nat.max_eq_right hle] at hgrid
  exact hgrid

/-- **The packing of a family**: the function returns; all blocks are packed, `l` to a page at most. -/
theorem binPackGreedy_spec (order : SetOrder α) (hl : 0 < l) {rest : List (Tensor α)}
    (htensors : orderTensorsBySize T = t :: rest) :
    ∃ r, binPackGreedy order T l = some r ∧ r.1.Grid r.1.numBins ∧ Pages.Within l r.1.page ∧
      r.1.itemIds.Nodup ∧
      (AllFresh order T l → ∀ i t', (t :: rest)[i]? = some t' → Serves r i t') ∧
      ((∀ i < (t :: rest).length, r.2 i ≠ none) → AllFresh order T l) := by
  have hperm : (t :: rest).Perm T := htensors ▸ List.perm_insertionSort _ T
  have hknown : ∀ t' ∈ t :: rest, ∀ b ∈ t'.set, b ∈ allBlocks order T := fun t' ht' b hb =>
    mem_allBlocks.mpr ⟨t', hperm.mem_iff.mp ht', hb⟩
  obtain ⟨-, r₀, hfirst, hext, hserves, hnone, -⟩ :=
    packFirst_spec T hl (hknown t List.mem_cons_self)
  obtain ⟨r, hrun, hext', hbefore, hstored, hfresh, hnotfresh⟩ :=
    packTensors_spec order T hl rest 1 hext
      (fun t' ht' => hknown t' (List.mem_cons_of_mem _ ht')) hnone
  have hzero := hserves.mono hext' (hbefore 0 Nat.one_pos)
  have hnodup : r.1.itemIds.Nodup := by
    rw [hext'.itemIds]
    exact order.nodup 0 _
  refine ⟨r, ?_, ?_, hext'.packed.within, hnodup, fun hall i t' ht' => ?_, fun hall => ?_⟩
  · rw [binPackGreedy, htensors]
    show (packFirst T l (allBlocks order T) t).bind _ = _
    rw [hfirst]
    exact hrun
  · refine Packed.columns hl hext'.packed hnodup fun b hb => ?_
    rw [hext'.itemIds] at hb
    obtain ⟨t', ht', hbt⟩ := mem_allBlocks.mp hb
    rcases List.mem_cons.mp (hperm.mem_iff.mpr ht') with rfl | ht'
    · exact hzero.stored b hbt
    · exact hstored t' ht' b hbt
  · rw [AllFresh, htensors] at hall
    cases i with
    | zero =>
      obtain rfl : t = t' := Option.some.inj ht'
      exact hzero
    | succ i =>
      have h := hfresh (hall r₀ hfirst) i t' ht'
      rw [Nat.add_comm] at h
      exact h
  · rw [AllFresh, htensors]
    intro r₁ hr₁
    obtain rfl := Option.some.inj (hfirst.symm.trans hr₁)
    refine hnotfresh fun j hj => ?_
    rw [Nat.add_comm]
    exact hall (j + 1) (Nat.succ_lt_succ hj)

instance (l : ℕ) (s : BinPackingScheme α) (t : Tensor α) : Decidable (Fresh l s t) :=
  inferInstanceAs (Decidable (_ ≠ _))

instance decidableFreshFrom (order : SetOrder α) (T : List (Tensor α)) (l : ℕ) (I : List α) :
    (i : ℕ) → (rest : List (Tensor α)) → (r : Packing α) →
    Decidable (FreshFrom order T l I i rest r)
  | _, [], _ => .isTrue trivial
  | i, t :: rest, r =>
    have : Decidable (∀ r', packTensor order T l I i t r = some r' →
        FreshFrom order T l I (i + 1) rest r') :=
      match packTensor order T l I i t r with
      | none => .isTrue fun _ h' => nomatch h'
      | some r' =>
        have := decidableFreshFrom order T l I (i + 1) rest r'
        decidable_of_iff (FreshFrom order T l I (i + 1) rest r')
          ⟨fun hf _ h' => Option.some.inj h' ▸ hf, fun hf => hf r' rfl⟩
    inferInstanceAs (Decidable (_ ∧ _))

end

/-- the tensor with these blocks -/
def tensorOf (blocks : List ℕ) : Tensor ℕ := ⟨true, blocks, fun h => Bool.noConfusion h⟩

/-- two tensors with the blocks `1` and `2` in common -/
def sharedPair : List (Tensor ℕ) := [tensorOf [1, 2, 3], tensorOf [1, 2, 4]]

end Netsdb
