import Mathlib.Order.BooleanAlgebra.Set
import Mathlib.Data.Finset.BooleanAlgebra
import Netsdb.Deduplication.BinPackingScheme
import Netsdb.Lib.PageGroups

/-!
# Packing by equivalence classes (`PagePacking.py`, `text_classification_greedy1`, `w2v_greedy1`)

The blocks that the same tensors share are packed together.

* `textClasses`       the chains of intersections and differences, for sets and for one block;
* `textClasses_eq`    on one block they are a table of signatures, but for two slips;
* `packClasses`       the packing loop, which puts the first block of a class one page early;
* `packByClasses_iff` what that means for the pages (`Pages.fillShifted`);
* `wellPacked_iff`    both functions.
-/

set_option linter.unusedSectionVars false

namespace Netsdb

/-! ## The classes -/

section
variable {β γ : Type} [GeneralizedBooleanAlgebra β] [GeneralizedBooleanAlgebra γ]

/-- `s - l₁ - l₂ - …` -/
def minus (s : β) (ls : List β) : β := ls.foldl (· \ ·) s

/-- `l03` and `l13` subtract one set twice, or the wrong one, and keep `l0134` and `l123` -/
def textClasses (t0 t1 t2 t3 t4 : β) : List β :=
  let l01234 := t0 ⊓ t1 ⊓ t2 ⊓ t3 ⊓ t4
  let l0123 := minus (t0 ⊓ t1 ⊓ t2 ⊓ t3) [l01234]
  let l0124 := minus (t0 ⊓ t1 ⊓ t2 ⊓ t4) [l01234]
  let l0134 := minus (t0 ⊓ t1 ⊓ t3 ⊓ t4) [l01234]
  let l0234 := minus (t0 ⊓ t2 ⊓ t3 ⊓ t4) [l01234]
  let l1234 := minus (t1 ⊓ t2 ⊓ t3 ⊓ t4) [l01234]
  let l012 := minus (t0 ⊓ t1 ⊓ t2) [l0123, l0124, l01234]
  let l013 := minus (t0 ⊓ t1 ⊓ t3) [l0123, l0134, l01234]
  let l014 := minus (t0 ⊓ t1 ⊓ t4) [l0124, l0134, l01234]
  let l023 := minus (t0 ⊓ t2 ⊓ t3) [l0123, l0234, l01234]
  let l024 := minus (t0 ⊓ t2 ⊓ t4) [l0124, l0234, l01234]
  let l034 := minus (t0 ⊓ t3 ⊓ t4) [l0134, l0234, l01234]
  let l123 := minus (t1 ⊓ t2 ⊓ t3) [l0123, l1234, l01234]
  let l124 := minus (t1 ⊓ t2 ⊓ t4) [l0124, l1234, l01234]
  let l134 := minus (t1 ⊓ t3 ⊓ t4) [l0134, l1234, l01234]
  let l234 := minus (t2 ⊓ t3 ⊓ t4) [l0234, l1234, l01234]
  let l01 := minus (t0 ⊓ t1) [l012, l013, l014, l0123, l0124, l0134, l01234]
  let l02 := minus (t0 ⊓ t2) [l012, l023, l024, l0123, l0124, l0234, l01234]
  let l03 := minus (t0 ⊓ t3) [l013, l023, l034, l0123, l0234, l0234, l01234]
  let l04 := minus (t0 ⊓ t4) [l014, l024, l034, l0124, l0134, l0234, l01234]
  let l12 := minus (t1 ⊓ t2) [l012, l123, l124, l0123, l0124, l1234, l01234]
  let l13 := minus (t1 ⊓ t3) [l013, l034, l134, l0123, l0134, l1234, l01234]
  let l14 := minus (t1 ⊓ t4) [l014, l124, l134, l0124, l0134, l1234, l01234]
  let l23 := minus (t2 ⊓ t3) [l023, l123, l234, l0123, l0234, l1234, l01234]
  let l24 := minus (t2 ⊓ t4) [l024, l124, l234, l0124, l0234, l1234, l01234]
  let l34 := minus (t3 ⊓ t4) [l034, l134, l234, l0134, l0234, l1234, l01234]
  let l0 := minus t0 [l01, l02, l03, l04, l012, l013, l014, l023, l024, l034, l0123, l0124, l0134,
    l0234, l01234]
  let l1 := minus t1 [l01, l12, l13, l14, l012, l013, l014, l123, l124, l134, l0123, l0124, l0134,
    l1234, l01234]
  let l2 := minus t2 [l02, l12, l23, l24, l012, l023, l024, l123, l124, l234, l0123, l0124, l0234,
    l1234, l01234]
  let l3 := minus t3 [l03, l13, l23, l34, l013, l023, l034, l123, l134, l234, l0123, l0134, l0234,
    l1234, l01234]
  let l4 := minus t4 [l04, l14, l24, l34, l014, l024, l034, l124, l134, l234, l0124, l0134, l0234,
    l1234, l01234]
  [l01234, l0123, l0124, l0134, l0234, l1234, l012, l013, l014, l023, l024, l034, l123, l124, l134,
    l234, l01, l02, l03, l04, l12, l13, l14, l23, l24, l34, l0, l1, l2, l3, l4]

/-- what keeps intersections and differences keeps the classes -/
theorem map_textClasses (f : β → γ) (hinf : ∀ s t, f (s ⊓ t) = f s ⊓ f t)
    (hdiff : ∀ s t, f (s \ t) = f s \ f t) (t0 t1 t2 t3 t4 : β) :
    (textClasses t0 t1 t2 t3 t4).map f = textClasses (f t0) (f t1) (f t2) (f t3) (f t4) := by
  simp only [textClasses, minus, List.map_cons, List.map_nil, List.foldl_cons, List.foldl_nil, hinf, hdiff]

end

/-- the tensors that have a block -/
abbrev Signature := Bool × Bool × Bool × Bool × Bool

/-- the signatures of the classes -/
def signatures : List Signature :=
  let subsets : List (List ℕ) := [[0, 1, 2, 3, 4], [0, 1, 2, 3], [0, 1, 2, 4], [0, 1, 3, 4], [0, 2, 3, 4],
    [1, 2, 3, 4], [0, 1, 2], [0, 1, 3], [0, 1, 4], [0, 2, 3], [0, 2, 4], [0, 3, 4], [1, 2, 3],
    [1, 2, 4], [1, 3, 4], [2, 3, 4], [0, 1], [0, 2], [0, 3], [0, 4], [1, 2], [1, 3], [1, 4], [2, 3],
    [2, 4], [3, 4], [0], [1], [2], [3], [4]]
  subsets.map fun s => (s.elem 0, s.elem 1, s.elem 2, s.elem 3, s.elem 4)

/-- the signatures that come into two classes -/
def Doubled (σ : Signature) : Prop :=
  σ = (true, true, false, true, true) ∨ σ = (false, true, true, true, false)

instance (σ : Signature) : Decidable (Doubled σ) := inferInstanceAs (Decidable (_ ∨ _))

/-- **The chains**, for every signature -/
theorem textClasses_eq : ∀ a0 a1 a2 a3 a4 : Bool, ¬ Doubled (a0, a1, a2, a3, a4) →
    textClasses a0 a1 a2 a3 a4 = signatures.map fun σ => decide (σ = (a0, a1, a2, a3, a4)) := by
  decide +kernel

/-! ## The packing loop -/

namespace BinPackingScheme
variable {α : Type} [DecidableEq α] {s s' : BinPackingScheme α} {w l : ℕ}

/-- the loop over a class; it begins with `i = 0`, that is with the page `numBins` itself -/
def packClass (I : List α) (l numBins : ℕ) (thisTen : List α) (s : BinPackingScheme α) :
    Option (BinPackingScheme α) :=
  (place I l numBins 0 thisTen s ∅).map Prod.fst

def packClasses (I : List α) (l : ℕ) :
    ℕ → List (List α) → BinPackingScheme α → Option (BinPackingScheme α)
  | _, [], s => some s
  | numBins, thisTen :: rest, s => do
    let s' ← packClass I l numBins thisTen s
    let numBins := numBins + thisTen.length ⌈/⌉ l
    packClasses I l numBins rest { s' with numBins := numBins }

theorem Adds.counted {es : List (α × ℕ)} (h : s.Adds s' es) (n : ℕ) :
    ({ s' with numBins := n } : BinPackingScheme α).page = Pages.put s.page es := h.page

/-- **One class**: the first block comes one page early, on page `c`. -/
theorem packClass_spec {base c : ℕ} (hl : 0 < l) (h : s.Grid w) (a : α) (rest : List α)
    (hmem : ∀ b ∈ a :: rest, b ∈ s.itemIds) (hw : 0 < w)
    (hc : c = if base = 0 then w - 1 else base - 1) :
    ∃ s' w', packClass s.itemIds l base (a :: rest) s = some s' ∧ s'.Grid w' ∧ 0 < w' ∧
      s.Adds s' ((a, c) :: Pages.fill l base rest) := by
  obtain ⟨k, hk, hitem⟩ := idxOf?_spec (hmem a List.mem_cons_self)
  have hwide : w + ((base : ℤ) - w).toNat = max w base := by omega
  have hlt : c < max w base := by
    rw [hc]
    split <;> omega
  have hidx : listIndex (max w base) ((base : ℤ) - 1) = some c := by
    by_cases hzero : base = 0
    · rw [if_pos hzero] at hc
      rw [hc, hzero, Nat.max_zero]
      exact listIndex_last hw
    · rw [if_neg hzero] at hc
      have hint : (base : ℤ) - 1 = (c : ℕ) := by omega
      rw [hint]
      exact listIndex_of_lt hlt
  rw [← hwide] at hidx hlt
  obtain ⟨s₁, hmark, hgrid, hadds⟩ := mark_spec h hitem hidx hlt
  rw [hwide] at hgrid
  have hbase : base + 0 ⌈/⌉ l ≤ max w base := by
    rw [zero_ceilDiv]
    exact le_max_right w base
  have hrest : ∀ b ∈ rest, b ∈ s₁.itemIds := by
    intro b hb
    rw [hadds.itemIds]
    exact hmem b (List.mem_cons_of_mem _ hb)
  obtain ⟨s', hrun, hgrid', hadds'⟩ :=
    place_spec base hl rest 0 (insert (base + 0 ⌈/⌉ l - 1) ∅) hgrid hbase hrest
  refine ⟨s', _, ?_, hgrid', by omega, hadds.trans hadds'⟩
  rw [hadds.itemIds] at hrun
  rw [packClass, place, hk]
  show ((s.mark (k + 1 : ℕ) (base + 0 ⌈/⌉ l : ℕ)).bind _).map Prod.fst = _
  have hzero : base + 0 ⌈/⌉ l = base := by rw [zero_ceilDiv, Nat.add_zero]
  rw [hzero] at hrun ⊢
  rw [hmark]
  show (place s.itemIds l base 1 rest s₁ (insert (base - 1) ∅)).map Prod.fst = _
  rw [hrun]
  rfl

/-- **All classes** -/
theorem packClasses_spec (hl : 0 < l) (gs : List (List α)) : ∀ (base c : ℕ) {w : ℕ}
    {s : BinPackingScheme α}, s.Grid w → (∀ g ∈ gs, ∀ b ∈ g, b ∈ s.itemIds) →
    (s.itemIds ≠ [] → 0 < w) → (c = if base = 0 then w - 1 else base - 1) →
    ∃ s', packClasses s.itemIds l base gs s = some s' ∧
      s'.page = Pages.put s.page (Pages.fillShifted l c base gs) ∧
      (gs ≠ [] → s'.numBins = base + Pages.pagesOf l (gs.map List.length)) := by
  induction gs with
  | nil =>
    intro base c w s _ _ _ _
    exact ⟨s, rfl, (Pages.put_nil _).symm, fun hne => absurd rfl hne⟩
  | cons g gs ih =>
    intro base c w s h hmem hw hc
    have hcount : ∀ s' : BinPackingScheme α, s'.numBins = base + g.length ⌈/⌉ l →
        ∀ r : BinPackingScheme α, (gs = [] → r = s') →
        (gs ≠ [] → r.numBins = base + g.length ⌈/⌉ l + Pages.pagesOf l (gs.map List.length)) →
        r.numBins = base + Pages.pagesOf l ((g :: gs).map List.length) := by
      intro s' hs' r hnil hcons
      rw [List.map_cons, Pages.pagesOf_cons, ← Nat.add_assoc]
      by_cases hgs : gs = []
      · rw [hnil hgs, hs', hgs]
        rfl
      · exact hcons hgs
    cases g with
    | nil =>
      have hzero : base + ([] : List α).length ⌈/⌉ l = base := by
        rw [List.length_nil, zero_ceilDiv, Nat.add_zero]
      obtain ⟨r, hrun, hpage, hbins⟩ := ih base c (w := w) (s := { s with numBins := base })
        ⟨h.rows, h.columns⟩ (fun g hg => hmem g (List.mem_cons_of_mem _ hg)) hw hc
      refine ⟨r, ?_, hpage, fun _ => hcount { s with numBins := base } hzero.symm r (fun hgs => ?_) ?_⟩
      · rw [packClasses]
        show packClasses s.itemIds l (base + ([] : List α).length ⌈/⌉ l) gs
          { s with numBins := base + ([] : List α).length ⌈/⌉ l } = _
        rw [hzero]
        exact hrun
      · rw [hgs] at hrun
        exact (Option.some.inj hrun).symm
      · rw [hzero]
        exact hbins
    | cons a rest =>
      have hids : s.itemIds ≠ [] := List.ne_nil_of_mem (hmem _ List.mem_cons_self a List.mem_cons_self)
      obtain ⟨s₁, w₁, hclass, hgrid, hw₁, hadds⟩ :=
        packClass_spec hl h a rest (hmem _ List.mem_cons_self) (hw hids) hc
      have hpos : base + (a :: rest).length ⌈/⌉ l ≠ 0 := by
        rw [List.length_cons, Pages.succ_ceilDiv hl]
        exact Nat.succ_ne_zero _
      obtain ⟨r, hrun, hpage, hbins⟩ := ih (base + (a :: rest).length ⌈/⌉ l)
        (base + (a :: rest).length ⌈/⌉ l - 1) (w := w₁)
        (s := { s₁ with numBins := base + (a :: rest).length ⌈/⌉ l }) ⟨hgrid.rows, hgrid.columns⟩
        (fun g hg b hb => by
          show b ∈ s₁.itemIds
          rw [hadds.itemIds]
          exact hmem g (List.mem_cons_of_mem _ hg) b hb) (fun _ => hw₁) (if_neg hpos).symm
      refine ⟨r, ?_, ?_, fun _ => hcount { s₁ with numBins := base + (a :: rest).length ⌈/⌉ l } rfl r
        (fun hgs => ?_) hbins⟩
      · rw [packClasses, hclass]
        show packClasses s.itemIds l _ gs _ = _
        rw [← hadds.itemIds]
        exact hrun
      · rw [hpage, hadds.counted, Pages.put_put]
        rfl
      · rw [hgs] at hrun
        exact (Option.some.inj hrun).symm

end BinPackingScheme

/-! ## The two functions -/

section
variable {α : Type} [DecidableEq α]

/-- `list(…)` of each class -/
def classLists (order : SetOrder α) (classes : List (Finset α)) : List (List α) :=
  classes.zipIdx.map fun e => order.list (e.2 + 1) e.1

/-- what the functions do once the classes are there -/
def packByClasses (order : SetOrder α) (tensorList classes : List (Finset α)) (l : ℕ) :
    Option (BinPackingScheme α) :=
  let I := order.list 0 (tensorList.foldl (· ∪ ·) ∅)
  BinPackingScheme.packClasses I l 0 (classLists order classes) (BinPackingScheme.new I l)

/-- an index that is not there is an `IndexError` -/
def textClassificationGreedy1 (order : SetOrder α) (tensorList : List (Finset α)) (blocksInPage : ℕ) :
    Option (BinPackingScheme α) :=
  match tensorList with
  | t0 :: t1 :: t2 :: t3 :: t4 :: _ =>
    packByClasses order tensorList (textClasses t0 t1 t2 t3 t4) blocksInPage
  | _ => none

/-- what all tensors share, and the rest of each one -/
def w2vClasses (t0 t1 t2 t3 t4 t5 : Finset α) : List (Finset α) :=
  let l := t0 ⊓ t1 ⊓ t2 ⊓ t3 ⊓ t4 ⊓ t5
  [l, minus t0 [l], minus t1 [l], minus t2 [l], minus t3 [l], minus t4 [l], minus t5 [l]]

def w2vGreedy1 (order : SetOrder α) (tensorList : List (Finset α)) (blocksInPage : ℕ) :
    Option (BinPackingScheme α) :=
  match tensorList with
  | t0 :: t1 :: t2 :: t3 :: t4 :: t5 :: _ =>
    packByClasses order tensorList (w2vClasses t0 t1 t2 t3 t4 t5) blocksInPage
  | _ => none

/-! ## What they are for -/

/-- each class has the blocks that the same tensors share -/
structure IsPartition (tensors classes : List (Finset α)) : Prop where
  covers : ∀ b, (∃ t ∈ tensors, b ∈ t) ↔ ∃ g ∈ classes, b ∈ g
  disjoint : classes.Pairwise Disjoint
  shared : ∀ g ∈ classes, ∀ b ∈ g, ∀ b', b' ∈ g ↔ ∀ t ∈ tensors, b' ∈ t ↔ b ∈ t

/-- every block is on one page, no page has more than `l` blocks, and as many pages as are counted have
blocks -/
structure WellPacked (l : ℕ) (classes : List (Finset α)) (s : BinPackingScheme α) : Prop where
  once : ∀ g ∈ classes, ∀ b ∈ g, ∃! p, b ∈ s.page p
  within : Pages.Within l s.page
  filled : Pages.Fills s.page s.numBins

/-- The sizes of the classes that have blocks; `columns` is the number of columns at the start.  The
first block goes to the last of these columns.  All other blocks are packed as if each class had given
its first block to the class before it; then there is room on that page, and either no page is wasted
at the end or it is that page. -/
def SizesFit (l columns : ℕ) (ns : List ℕ) : Prop :=
  Pages.HasRoom l (Pages.lessOne ns) (columns - 1) ∧
    (Pages.pagesOf l (Pages.lessOne ns) = Pages.pagesOf l ns ∨ columns = Pages.pagesOf l ns)

/-- the same where classes have blocks in common: these must come on one page -/
def LoopFits (l columns : ℕ) (classes : List (List α)) : Prop :=
  Pages.OnePage (Pages.fillShifted l (columns - 1) 0 classes) ∧
    (Pages.HasRoom l (Pages.lessOne (Pages.sizes classes)) (columns - 1) ∨
      ¬ (Pages.arrivals (Pages.fillShifted l (columns - 1) 0 classes) (columns - 1)).Nodup) ∧
    (Pages.pagesOf l (Pages.lessOne (Pages.sizes classes)) = Pages.pagesOf l (Pages.sizes classes) ∨
      columns = Pages.pagesOf l (Pages.sizes classes))

variable {order : SetOrder α} {tensors classes : List (Finset α)} {l : ℕ} {b : α}

theorem mem_union (T : List (Finset α)) (I : Finset α) :
    b ∈ T.foldl (· ∪ ·) I ↔ b ∈ I ∨ ∃ t ∈ T, b ∈ t := by
  induction T generalizing I with
  | nil => simp
  | cons t T ih => rw [List.foldl_cons, ih, Finset.mem_union, List.exists_mem_cons_iff, or_assoc]

theorem mem_classLists : (∃ g ∈ classLists order classes, b ∈ g) ↔ ∃ g ∈ classes, b ∈ g := by
  constructor
  · rintro ⟨g, hg, hb⟩
    obtain ⟨⟨c, k⟩, he, rfl⟩ := List.mem_map.mp hg
    exact ⟨c, (List.mem_zipIdx_iff_getElem?.mp he |> List.mem_of_getElem?), (order.mem_iff _ _ b).mp hb⟩
  · rintro ⟨c, hc, hb⟩
    obtain ⟨k, hk⟩ := List.mem_iff_getElem?.mp hc
    exact ⟨_, List.mem_map.mpr ⟨(c, k), List.mem_zipIdx_iff_getElem?.mpr hk, rfl⟩,
      (order.mem_iff _ _ b).mpr hb⟩

theorem length_list (order : SetOrder α) (n : ℕ) (s : Finset α) : (order.list n s).length = s.card := by
  rw [← List.toFinset_card_of_nodup (order.nodup n s)]
  congr 1
  ext b
  rw [List.mem_toFinset, order.mem_iff]

theorem map_length_classLists : (classLists order classes).map List.length = classes.map Finset.card := by
  rw [classLists, List.map_map]
  conv_rhs => rw [← List.zipIdx_map_fst 0 classes, List.map_map]
  exact List.map_congr_left fun e _ => length_list order _ _

/-- **The packing loop**, for classes that have the blocks of the tensors -/
theorem packByClasses_iff (order : SetOrder α) (hl : 0 < l)
    (hcovers : ∀ b, (∃ t ∈ tensors, b ∈ t) ↔ ∃ g ∈ classes, b ∈ g) (hne : classes ≠ []) :
    ∃ s, packByClasses order tensors classes l = some s ∧ (WellPacked l classes s ↔
      LoopFits l ((tensors.foldl (· ∪ ·) ∅).card ⌈/⌉ l) (classLists order classes)) := by
  obtain ⟨U, hU⟩ : ∃ U, tensors.foldl (· ∪ ·) ∅ = U := ⟨_, rfl⟩
  have hmemU : ∀ b, b ∈ U ↔ ∃ g ∈ classes, b ∈ g := by
    intro b
    rw [← hU, mem_union, ← hcovers]
    exact or_iff_right (Finset.notMem_empty b)
  obtain ⟨lists, hlists⟩ : ∃ lists, classLists order classes = lists := ⟨_, rfl⟩
  have hflat : ∀ b, b ∈ lists.flatten ↔ b ∈ U := by
    intro b
    rw [hmemU, ← @mem_classLists _ _ order classes, hlists, List.mem_flatten]
  have hcols : (order.list 0 U).length ⌈/⌉ l = U.card ⌈/⌉ l := by rw [length_list]
  have hpos : U.Nonempty → 0 < U.card ⌈/⌉ l := by
    intro hn
    by_contra hnot
    have hle : U.card ≤ l * 0 := (ceilDiv_le_iff_le_mul hl).mp (Nat.le_of_not_lt hnot)
    rw [Nat.mul_zero] at hle
    exact absurd (Finset.card_pos.mpr hn) (Nat.not_lt_of_le hle)
  obtain ⟨s, hrun, hpage, hbins⟩ := BinPackingScheme.packClasses_spec hl lists 0 (U.card ⌈/⌉ l - 1)
    (w := U.card ⌈/⌉ l) (s := BinPackingScheme.new (order.list 0 U) l)
    (by
      rw [← hcols]
      exact BinPackingScheme.new_grid _ l)
    (fun g hg b hb => (order.mem_iff 0 U b).mpr ((hflat b).mp (List.mem_flatten.mpr ⟨g, hg, hb⟩)))
    (fun hids => by
      obtain ⟨b, hb⟩ := List.exists_mem_of_ne_nil _ hids
      exact hpos ⟨b, (order.mem_iff 0 U b).mp hb⟩) (if_pos rfl).symm
  have hempty : (BinPackingScheme.new (order.list 0 U) l).page = Pages.empty :=
    funext fun p => BinPackingScheme.new_page _ l p
  rw [hempty] at hpage
  have hlne : lists ≠ [] := by
    rw [← hlists]
    intro hnil
    exact hne (List.zipIdx_eq_nil_iff.mp (List.map_eq_nil_iff.mp hnil))
  have hnum : s.numBins = Pages.pagesOf l (Pages.sizes lists) := by
    rw [hbins hlne, Nat.zero_add, Pages.pagesOf_sizes]
  have hcard : U.card ⌈/⌉ l ≤ Pages.pagesOf l (Pages.sizes lists) := by
    have hle : U.card ≤ lists.flatten.length := by
      refine (Finset.card_le_card fun b hb => ?_).trans (List.toFinset_card_le lists.flatten)
      exact List.mem_toFinset.mpr ((hflat b).mpr hb)
    rw [List.length_flatten] at hle
    rw [Pages.pagesOf_sizes]
    exact ((gc_mul_ceilDiv hl).monotone_l hle).trans (Pages.ceilDiv_sum_le hl _)
  have hitem : Pages.sizes lists ≠ [] → U.Nonempty := by
    intro hsizes
    rw [Pages.sizes] at hsizes
    obtain ⟨g, hg⟩ := List.exists_mem_of_ne_nil _ (fun h => hsizes (List.map_eq_nil_iff.mpr h))
    obtain ⟨hg, hgne⟩ := List.mem_filter.mp hg
    obtain ⟨b, hb⟩ := List.exists_mem_of_ne_nil g (of_decide_eq_true hgne)
    exact ⟨b, (hflat b).mp (List.mem_flatten.mpr ⟨g, hg, hb⟩)⟩
  have hfills := Pages.fills_shifted_iff (c := U.card ⌈/⌉ l - 1) hl lists fun hsizes => by
    have h := hpos (hitem hsizes)
    omega
  have hlast : (Pages.sizes lists = [] ∨ Pages.pagesOf l (Pages.lessOne (Pages.sizes lists)) =
      Pages.pagesOf l (Pages.sizes lists) ∨ U.card ⌈/⌉ l - 1 + 1 = Pages.pagesOf l (Pages.sizes lists)) ↔
      (Pages.pagesOf l (Pages.lessOne (Pages.sizes lists)) = Pages.pagesOf l (Pages.sizes lists) ∨
        U.card ⌈/⌉ l = Pages.pagesOf l (Pages.sizes lists)) := by
    by_cases hsizes : Pages.sizes lists = []
    · rw [hsizes]
      exact iff_of_true (.inl rfl) (.inl rfl)
    · rw [or_iff_right hsizes, Nat.sub_add_cancel (hpos (hitem hsizes))]
  refine ⟨s, ?_, ?_⟩
  · rw [packByClasses, hU, hlists]
    exact hrun
  · rw [hlists, hU, LoopFits, ← Pages.once_iff, ← Pages.within_shifted_iff hl, ← hlast, ← hfills, ← hpage,
      ← hnum]
    have honce : (∀ g ∈ classes, ∀ b ∈ g, ∃! p, b ∈ s.page p) ↔
        ∀ b ∈ (Pages.fillShifted l (U.card ⌈/⌉ l - 1) 0 lists).map Prod.fst, ∃! p, b ∈ s.page p := by
      rw [Pages.map_fst_fillShifted]
      constructor
      · intro h b hb
        obtain ⟨g, hg, hbg⟩ := (hmemU b).mp ((hflat b).mp hb)
        exact h g hg b hbg
      · exact fun h g hg b hb => h b ((hflat b).mpr ((hmemU b).mpr ⟨g, hg, hb⟩))
    rw [← honce]
    exact ⟨fun h => ⟨h.once, h.within, h.filled⟩, fun h => ⟨h.1, h.2.1, h.2.2⟩⟩

/-! ## The classes of five tensors -/

variable {t0 t1 t2 t3 t4 t5 : Finset α}

/-- the tensors that have the block -/
def signature (t0 t1 t2 t3 t4 : Finset α) (b : α) : Signature :=
  (decide (b ∈ t0), decide (b ∈ t1), decide (b ∈ t2), decide (b ∈ t3), decide (b ∈ t4))

theorem signatures_nodup : signatures.Nodup := by decide +kernel

theorem mem_signatures : ∀ a0 a1 a2 a3 a4 : Bool, (a0, a1, a2, a3, a4) ∈ signatures ↔
    (a0, a1, a2, a3, a4) ≠ (false, false, false, false, false) := by
  decide +kernel

theorem doubled_twice : ∀ a0 a1 a2 a3 a4 : Bool, Doubled (a0, a1, a2, a3, a4) →
    ∃ i < 31, ∃ j < 31, i < j ∧ (textClasses a0 a1 a2 a3 a4)[i]? = some true ∧
      (textClasses a0 a1 a2 a3 a4)[j]? = some true := by
  decide +kernel

/-- the classes, for one block -/
theorem decide_mem_classes (t0 t1 t2 t3 t4 : Finset α) (b : α) :
    (textClasses t0 t1 t2 t3 t4).map (fun g => decide (b ∈ g)) =
      textClasses (decide (b ∈ t0)) (decide (b ∈ t1)) (decide (b ∈ t2)) (decide (b ∈ t3))
        (decide (b ∈ t4)) := by
  refine map_textClasses (fun g => decide (b ∈ g)) (fun s t => ?_) (fun s t => ?_) t0 t1 t2 t3 t4
  · show decide (b ∈ s ∩ t) = (decide (b ∈ s) && decide (b ∈ t))
    rw [← Bool.decide_and]
    exact decide_eq_decide.mpr Finset.mem_inter
  · show decide (b ∈ s \ t) = (decide (b ∈ s) && !decide (b ∈ t))
    rw [← decide_not, ← Bool.decide_and]
    exact decide_eq_decide.mpr Finset.mem_sdiff

/-- a block is in the class of its signature, and in no other -/
theorem mem_class_iff (h : ¬ Doubled (signature t0 t1 t2 t3 t4 b)) {k : ℕ} {g : Finset α}
    (hg : (textClasses t0 t1 t2 t3 t4)[k]? = some g) :
    b ∈ g ↔ signatures[k]? = some (signature t0 t1 t2 t3 t4 b) := by
  have hmap := congrArg (fun l => l[k]?) ((decide_mem_classes t0 t1 t2 t3 t4 b).trans
    (textClasses_eq _ _ _ _ _ h))
  rw [List.getElem?_map, List.getElem?_map, hg, Option.map_some] at hmap
  cases hσ : signatures[k]? with
  | none =>
    rw [hσ] at hmap
    cases hmap
  | some σ =>
    rw [hσ, Option.map_some] at hmap
    rw [Option.some_inj]
    exact decide_eq_decide.mp (Option.some.inj hmap)

theorem exists_mem_tensors :
    (∃ t ∈ [t0, t1, t2, t3, t4], b ∈ t) ↔ signature t0 t1 t2 t3 t4 b ∈ signatures := by
  rw [signature, mem_signatures]
  simp only [List.mem_cons, List.not_mem_nil, or_false, exists_eq_or_imp, exists_eq_left, ne_eq,
    Prod.mk.injEq, decide_eq_false_iff_not]
  tauto

theorem same_signature {b' : α} : signature t0 t1 t2 t3 t4 b' = signature t0 t1 t2 t3 t4 b ↔
    ∀ t ∈ [t0, t1, t2, t3, t4], b' ∈ t ↔ b ∈ t := by
  simp only [signature, List.mem_cons, List.not_mem_nil, or_false, forall_eq_or_imp, forall_eq,
    Prod.mk.injEq, decide_eq_decide]

/-- **The classes are a partition** if and only if the two slips do not show. -/
theorem isPartition_iff (t0 t1 t2 t3 t4 : Finset α) :
    IsPartition [t0, t1, t2, t3, t4] (textClasses t0 t1 t2 t3 t4) ↔
      ∀ b, ¬ Doubled (signature t0 t1 t2 t3 t4 b) := by
  constructor
  · intro h b hb
    obtain ⟨i, -, j, -, hij, hi, hj⟩ := doubled_twice _ _ _ _ _ hb
    rw [← decide_mem_classes, List.getElem?_map] at hi hj
    obtain ⟨gi, hgi, hbi⟩ := Option.map_eq_some_iff.mp hi
    obtain ⟨gj, hgj, hbj⟩ := Option.map_eq_some_iff.mp hj
    obtain ⟨hilt, rfl⟩ := List.getElem?_eq_some_iff.mp hgi
    obtain ⟨hjlt, rfl⟩ := List.getElem?_eq_some_iff.mp hgj
    exact Finset.disjoint_left.mp (List.pairwise_iff_getElem.mp h.disjoint i j hilt hjlt hij)
      (of_decide_eq_true hbi) (of_decide_eq_true hbj)
  · intro h
    have hlen : (textClasses t0 t1 t2 t3 t4).length = signatures.length := rfl
    refine ⟨fun b => ?_, ?_, fun g hg b hb b' => ?_⟩
    · rw [exists_mem_tensors]
      constructor
      · intro hmem
        obtain ⟨k, hk⟩ := List.mem_iff_getElem?.mp hmem
        have hlt : k < (textClasses t0 t1 t2 t3 t4).length := by
          rw [hlen]
          exact (List.getElem?_eq_some_iff.mp hk).1
        exact ⟨_, List.getElem_mem hlt, (mem_class_iff (h b) (List.getElem?_eq_getElem hlt)).mpr hk⟩
      · rintro ⟨g, hg, hb⟩
        obtain ⟨k, hk⟩ := List.mem_iff_getElem?.mp hg
        exact List.mem_of_getElem? ((mem_class_iff (h b) hk).mp hb)
    · refine List.pairwise_iff_getElem.mpr fun i j hi hj hij => Finset.disjoint_left.mpr fun b hbi hbj => ?_
      have hσi := (mem_class_iff (h b) (List.getElem?_eq_getElem hi)).mp hbi
      have hσj := (mem_class_iff (h b) (List.getElem?_eq_getElem hj)).mp hbj
      obtain ⟨hlt, hi'⟩ := List.getElem?_eq_some_iff.mp hσi
      obtain ⟨hlt', hj'⟩ := List.getElem?_eq_some_iff.mp hσj
      exact absurd ((signatures_nodup.getElem_inj_iff).mp (hi'.trans hj'.symm)) (Nat.ne_of_lt hij)
    · obtain ⟨k, hk⟩ := List.mem_iff_getElem?.mp hg
      rw [mem_class_iff (h b') hk, (mem_class_iff (h b) hk).mp hb, Option.some_inj, eq_comm,
        same_signature]

/-- in terms of the tensors -/
theorem not_doubled_iff : (∀ b, ¬ Doubled (signature t0 t1 t2 t3 t4 b)) ↔
    t0 ∩ t1 ∩ t3 ∩ t4 ⊆ t2 ∧ t1 ∩ t2 ∩ t3 ⊆ t0 ∪ t4 := by
  simp only [Doubled, signature, Prod.mk.injEq, decide_eq_true_iff, decide_eq_false_iff_not,
    Finset.subset_iff, Finset.mem_inter, Finset.mem_union]
  constructor
  · intro h
    exact ⟨fun b hb => by have := h b; tauto, fun b hb => by have := h b; tauto⟩
  · rintro ⟨h, h'⟩ b
    have h := @h b
    have h' := @h' b
    tauto

/-- without blocks in common only the sizes count -/
theorem loopFits_iff {columns : ℕ} (hdisj : classes.Pairwise Disjoint) :
    LoopFits l columns (classLists order classes) ↔
      SizesFit l columns ((classes.map Finset.card).filter (0 < ·)) := by
  have hnodup : (classLists order classes).flatten.Nodup := by
    refine List.nodup_flatten.mpr ⟨fun g hg => ?_, ?_⟩
    · obtain ⟨e, -, rfl⟩ := List.mem_map.mp hg
      exact order.nodup _ _
    · rw [classLists, List.pairwise_map]
      refine List.pairwise_iff_getElem.mpr fun i j hi hj hij b hbi hbj => ?_
      rw [List.getElem_zipIdx, order.mem_iff] at hbi hbj
      rw [List.length_zipIdx] at hi hj
      exact Finset.disjoint_left.mp (List.pairwise_iff_getElem.mp hdisj i j hi hj hij) hbi hbj
  have hmarks : ((Pages.fillShifted l (columns - 1) 0 (classLists order classes)).map Prod.fst).Nodup := by
    rw [Pages.map_fst_fillShifted]
    exact hnodup
  rw [LoopFits, SizesFit, Pages.sizes_eq, map_length_classLists,
    and_iff_right (Pages.onePage_of_nodup hmarks),
    or_iff_left (not_not.mpr (Pages.arrivals_nodup hmarks (columns - 1)))]

theorem mem_w2vClasses : (∃ t ∈ [t0, t1, t2, t3, t4, t5], b ∈ t) ↔
    ∃ g ∈ w2vClasses t0 t1 t2 t3 t4 t5, b ∈ g := by
  simp only [w2vClasses, minus, List.foldl_cons, List.foldl_nil, Finset.inf_eq_inter, List.mem_cons,
    List.not_mem_nil, or_false, exists_eq_or_imp, exists_eq_left, Finset.mem_inter, Finset.mem_sdiff]
  tauto

/-- **Both functions**: the classes are a partition if and only if the two slips do not show, and they
are then packed well if and only if their sizes fit; the other function packs well if and only if
its classes fit. -/
theorem wellPacked_iff (order : SetOrder α) (hl : 0 < l) :
    (∀ t0 t1 t2 t3 t4 : Finset α,
      (∃ s, textClassificationGreedy1 order [t0, t1, t2, t3, t4] l = some s ∧
        IsPartition [t0, t1, t2, t3, t4] (textClasses t0 t1 t2 t3 t4) ∧
        WellPacked l (textClasses t0 t1 t2 t3 t4) s) ↔
      (t0 ∩ t1 ∩ t3 ∩ t4 ⊆ t2 ∧ t1 ∩ t2 ∩ t3 ⊆ t0 ∪ t4) ∧
        SizesFit l ((t0 ∪ t1 ∪ t2 ∪ t3 ∪ t4).card ⌈/⌉ l)
          (((textClasses t0 t1 t2 t3 t4).map Finset.card).filter (0 < ·))) ∧
    ∀ t0 t1 t2 t3 t4 t5 : Finset α,
      (∃ s, w2vGreedy1 order [t0, t1, t2, t3, t4, t5] l = some s ∧
        WellPacked l (w2vClasses t0 t1 t2 t3 t4 t5) s) ↔
      LoopFits l ((t0 ∪ t1 ∪ t2 ∪ t3 ∪ t4 ∪ t5).card ⌈/⌉ l)
        (classLists order (w2vClasses t0 t1 t2 t3 t4 t5)) := by
  refine ⟨fun t0 t1 t2 t3 t4 => ?_, fun t0 t1 t2 t3 t4 t5 => ?_⟩
  · rw [← not_doubled_iff, ← isPartition_iff]
    have hunion : ([t0, t1, t2, t3, t4] : List (Finset α)).foldl (· ∪ ·) ∅ = t0 ∪ t1 ∪ t2 ∪ t3 ∪ t4 := by
      simp only [List.foldl_cons, List.foldl_nil, Finset.empty_union]
    constructor
    · rintro ⟨s, hs, hpart, hpacked⟩
      obtain ⟨s', hs', hiff⟩ := packByClasses_iff order hl hpart.covers (List.cons_ne_nil _ _)
      obtain rfl := Option.some.inj (hs.symm.trans hs')
      rw [hunion, loopFits_iff hpart.disjoint] at hiff
      exact ⟨hpart, hiff.mp hpacked⟩
    · rintro ⟨hpart, hfit⟩
      obtain ⟨s, hs, hiff⟩ := packByClasses_iff order hl hpart.covers (List.cons_ne_nil _ _)
      rw [hunion, loopFits_iff hpart.disjoint] at hiff
      exact ⟨s, hs, hpart, hiff.mpr hfit⟩
  · have hunion : ([t0, t1, t2, t3, t4, t5] : List (Finset α)).foldl (· ∪ ·) ∅ =
        t0 ∪ t1 ∪ t2 ∪ t3 ∪ t4 ∪ t5 := by
      simp only [List.foldl_cons, List.foldl_nil, Finset.empty_union]
    obtain ⟨s, hs, hiff⟩ := packByClasses_iff order hl (fun b => mem_w2vClasses) (List.cons_ne_nil _ _)
    rw [hunion] at hiff
    constructor
    · rintro ⟨s', hs', hpacked⟩
      obtain rfl := Option.some.inj (hs.symm.trans hs')
      exact hiff.mp hpacked
    · exact fun hfit => ⟨s, hs, hiff.mpr hfit⟩

end

/-! ## Examples -/

instance (l columns : ℕ) (ns : List ℕ) : Decidable (SizesFit l columns ns) :=
  inferInstanceAs (Decidable (_ ∧ _))

/-- two blocks of the first tensor and two that it shares, on two pages -/
theorem wellPacked_iff_two : ∃ s, textClassificationGreedy1 .ascending [{1, 2, 3, 4}, {3, 4}, ∅, ∅, ∅] 2 =
    some s ∧ IsPartition [{1, 2, 3, 4}, {3, 4}, ∅, ∅, ∅] (textClasses {1, 2, 3, 4} {3, 4} ∅ ∅ ∅) ∧
      WellPacked 2 (textClasses {1, 2, 3, 4} {3, 4} ∅ ∅ ∅) s :=
  ((wellPacked_iff .ascending (l := 2) (by decide)).1 {1, 2, 3, 4} {3, 4} ∅ ∅ ∅).mpr
    ⟨⟨by decide, by decide⟩, by decide +kernel⟩

/-- **A block of one tensor, three of another**, two to a page: the first block comes on the second
page, which has two blocks of the other tensor already -/
theorem wellPacked_not_always : ¬ ∀ (t0 t1 t2 t3 t4 : Finset ℕ) (l : ℕ), 0 < l →
    ∃ s, textClassificationGreedy1 .ascending [t0, t1, t2, t3, t4] l = some s ∧
      IsPartition [t0, t1, t2, t3, t4] (textClasses t0 t1 t2 t3 t4) ∧
      WellPacked l (textClasses t0 t1 t2 t3 t4) s := by
  intro hall
  obtain ⟨s, hs, -, hpacked⟩ := hall {1} {2, 3, 4} ∅ ∅ ∅ 2 (by decide)
  have hrun : (textClassificationGreedy1 .ascending [{1}, {2, 3, 4}, ∅, ∅, ∅] 2).map
      (fun s => (s.page 1).card) = some 3 := by decide +kernel
  rw [hs] at hrun
  have hthree : (s.page 1).card = 3 := Option.some.inj hrun
  have hle := hpacked.within 1
  rw [hthree] at hle
  exact absurd hle (by decide)

end Netsdb
