import Mathlib.Data.Finset.Lattice.Fold
import Mathlib.Data.List.Sort
import Mathlib.Order.Lattice.Nat
import Netsdb.Lib.Pages

/-!
# Packing schemes of tensor blocks (`PagePacking.py`, `BinPackingScheme`)

A row for each block, a column for each page; an entry `1` puts the block on the page.

* `new`, `mark`, `blocksInBinId`   as in the source;
* `page`           what a column has; `Grid`: all rows have the same number of columns;
* `mark_spec`      a block comes on a page, and columns are added up to it;
* `place_spec`     blocks are put on new pages, `l` on each.

Python's `math.ceil(i / l)` is exact for the lengths of lists; where an index is not there, or a
value not in the list, the functions give `none`.
-/

set_option linter.unusedSectionVars false

namespace Netsdb

/-- the order in which the `n`-th set of a run comes out as a list; each order is possible -/
structure SetOrder (α : Type) where
  list : ℕ → Finset α → List α
  nodup : ∀ n s, (list n s).Nodup
  mem_iff : ∀ n s a, a ∈ list n s ↔ a ∈ s

def SetOrder.ascending : SetOrder ℕ where
  list _ s := (List.range (s.sup id + 1)).filter (· ∈ s)
  nodup _ _ := List.nodup_range.filter _
  mem_iff _ s a := by
    rw [List.mem_filter, List.mem_range, decide_eq_true_iff]
    exact and_iff_right_of_imp fun h => Nat.lt_succ_of_le (Finset.le_sup (α := ℕ) (f := id) h)

/-- an index into a list of length `n`; a negative one counts from the end -/
def listIndex (n : ℕ) (i : ℤ) : Option ℕ :=
  if 0 ≤ i ∧ i < n then some i.toNat
  else if -n ≤ i ∧ i < 0 then some (n + i).toNat
  else none

structure BinPackingScheme (α : Type) where
  p_i_j : List (List ℕ)
  itemIds : List α
  l : ℕ
  numBins : ℕ
deriving DecidableEq, Repr

namespace BinPackingScheme
variable {α : Type} [DecidableEq α]

def new (itemIds : List α) (l : ℕ) : BinPackingScheme α :=
  ⟨List.replicate itemIds.length (List.replicate (itemIds.length ⌈/⌉ l) 0), itemIds, l,
    itemIds.length ⌈/⌉ l⟩

/-- both indices begin at `1` -/
def mark (s : BinPackingScheme α) (i j : ℤ) : Option (BinPackingScheme α) := do
  let first ← s.p_i_j.head?
  let rows :=
    if j - 1 > first.length - 1 then
      s.p_i_j.map fun row => row ++ List.replicate ((j - 1) - (first.length - 1)).toNat 0
    else s.p_i_j
  let r ← listIndex rows.length (i - 1)
  let row ← rows[r]?
  let c ← listIndex row.length (j - 1)
  some { s with p_i_j := rows.set r (row.set c 1) }

/-- the items whose row has a `1` in the column -/
def marked (binId : ℕ) : List α → List (List ℕ) → Option (List α)
  | [], _ => some []
  | _ :: _, [] => none
  | item :: items, row :: rows => do
    let x ← row[binId]?
    let rest ← marked binId items rows
    some (if x = 1 then item :: rest else rest)

def blocksInBinId (s : BinPackingScheme α) (binId : ℕ) : Option (List α) :=
  marked binId s.itemIds s.p_i_j

/-! ## Rows and columns -/

/-- what a column has -/
def page (s : BinPackingScheme α) : Pages.Packing α := fun p =>
  (((s.itemIds.zip s.p_i_j).filter fun e => e.2[p]? = some 1).map Prod.fst).toFinset

/-- a row for each item, each with `w` columns -/
structure Grid (w : ℕ) (s : BinPackingScheme α) : Prop where
  rows : s.p_i_j.length = s.itemIds.length
  columns : ∀ row ∈ s.p_i_j, row.length = w

variable {s s' : BinPackingScheme α} {w k l p : ℕ} {a b : α}

theorem mem_page_zip : a ∈ s.page p ↔
    ∃ row : List ℕ, (a, row) ∈ s.itemIds.zip s.p_i_j ∧ row[p]? = some 1 := by
  rw [page, List.mem_toFinset, List.mem_map]
  constructor
  · rintro ⟨⟨b, row⟩, he, rfl⟩
    obtain ⟨he, hp⟩ := List.mem_filter.mp he
    exact ⟨row, he, of_decide_eq_true hp⟩
  · rintro ⟨row, he, hp⟩
    exact ⟨(a, row), List.mem_filter.mpr ⟨he, decide_eq_true hp⟩, rfl⟩

theorem mem_page : a ∈ s.page p ↔
    ∃ (k : ℕ) (row : List ℕ), s.itemIds[k]? = some a ∧ s.p_i_j[k]? = some row ∧
      row[p]? = some 1 := by
  rw [mem_page_zip]
  constructor
  · rintro ⟨row, he, hp⟩
    obtain ⟨k, hk⟩ := List.mem_iff_getElem?.mp he
    obtain ⟨ha, hrow⟩ := List.getElem?_zip_eq_some.mp hk
    exact ⟨k, row, ha, hrow, hp⟩
  · rintro ⟨k, row, ha, hrow, hp⟩
    exact ⟨row, List.mem_of_getElem? (List.getElem?_zip_eq_some.mpr ⟨ha, hrow⟩), hp⟩

theorem new_grid (items : List α) (l : ℕ) : (new items l).Grid (items.length ⌈/⌉ l) :=
  ⟨List.length_replicate, fun row hrow => by
    rw [(List.mem_replicate.mp hrow).2, List.length_replicate]⟩

theorem new_page (items : List α) (l p : ℕ) : (new items l).page p = ∅ := by
  refine Finset.eq_empty_of_forall_notMem fun a ha => ?_
  obtain ⟨k, row, -, hrow, hp⟩ := mem_page.mp ha
  have hzero : row = List.replicate (items.length ⌈/⌉ l) 0 :=
    (List.mem_replicate.mp (List.mem_of_getElem? hrow)).2
  rw [hzero] at hp
  exact absurd (List.mem_replicate.mp (List.mem_of_getElem? hp)).2 Nat.one_ne_zero

theorem Grid.page_empty (h : s.Grid w) (hp : w ≤ p) : s.page p = ∅ := by
  refine Finset.eq_empty_of_forall_notMem fun a ha => ?_
  obtain ⟨k, row, -, hrow, hone⟩ := mem_page.mp ha
  have hlt := (List.getElem?_eq_some_iff.mp hone).1
  rw [h.columns row (List.mem_of_getElem? hrow)] at hlt
  exact absurd hlt (Nat.not_lt_of_le hp)

theorem page_subset : ∀ a ∈ s.page p, a ∈ s.itemIds := by
  intro a ha
  obtain ⟨k, -, hk, -⟩ := mem_page.mp ha
  exact List.mem_of_getElem? hk

/-- **A column is read**: no index is out of range -/
theorem marked_spec (binId : ℕ) (items : List α) : ∀ rows : List (List ℕ),
    rows.length = items.length → (∀ row ∈ rows, binId < row.length) →
    ∃ bs, marked binId items rows = some bs ∧ bs.Sublist items ∧
      bs = ((items.zip rows).filter fun e => e.2[binId]? = some 1).map Prod.fst := by
  induction items with
  | nil => exact fun _ _ _ => ⟨[], rfl, List.Sublist.refl _, rfl⟩
  | cons item items ih =>
    intro rows hrows hcols
    cases rows with
    | nil => cases hrows
    | cons row rows =>
      have hlt := hcols row List.mem_cons_self
      obtain ⟨bs, hbs, hsub, heq⟩ := ih rows (Nat.succ.inj hrows) fun row hrow =>
        hcols row (List.mem_cons_of_mem _ hrow)
      rw [marked, List.getElem?_eq_getElem hlt, hbs]
      by_cases hone : row[binId] = 1
      · refine ⟨item :: bs, ?_, hsub.cons_cons item, ?_⟩
        · show some (if row[binId] = 1 then item :: bs else bs) = _
          rw [if_pos hone]
        · have hyes : row[binId]? = some 1 := List.getElem?_eq_some_iff.mpr ⟨hlt, hone⟩
          rw [List.zip_cons_cons, List.filter_cons, if_pos (decide_eq_true hyes), List.map_cons,
            ← heq]
      · refine ⟨bs, ?_, hsub.cons item, ?_⟩
        · show some (if row[binId] = 1 then item :: bs else bs) = _
          rw [if_neg hone]
        · have hno : ¬ row[binId]? = some 1 := fun h =>
            hone (List.getElem?_eq_some_iff.mp h).2
          rw [List.zip_cons_cons, List.filter_cons, if_neg (by simpa using hno), ← heq]

theorem Grid.blocksInBinId (h : s.Grid w) (hp : p < w) :
    ∃ bs, s.blocksInBinId p = some bs ∧ bs.Sublist s.itemIds ∧ bs.toFinset = s.page p := by
  obtain ⟨bs, hbs, hsub, heq⟩ := marked_spec p s.itemIds s.p_i_j h.rows fun row hrow => by
    rw [h.columns row hrow]
    exact hp
  exact ⟨bs, hbs, hsub, congrArg List.toFinset heq⟩

/-! ## A block comes on a page -/

/-- items have come on pages -/
structure Adds (s s' : BinPackingScheme α) (es : List (α × ℕ)) : Prop where
  itemIds : s'.itemIds = s.itemIds
  l : s'.l = s.l
  numBins : s'.numBins = s.numBins
  page : s'.page = Pages.put s.page es

theorem idxOf?_spec {I : List α} {a : α} (h : a ∈ I) :
    ∃ k, I.idxOf? a = some k ∧ I[k]? = some a := by
  cases hk : I.idxOf? a with
  | none => exact absurd h (List.idxOf?_eq_none_iff.mp hk)
  | some k =>
    obtain ⟨hlt, heq, -⟩ := List.idxOf?_eq_some_iff.mp hk
    exact ⟨k, rfl, List.getElem?_eq_some_iff.mpr ⟨hlt, heq⟩⟩

theorem listIndex_of_lt {n i : ℕ} (h : i < n) : listIndex n i = some i := by
  rw [listIndex, if_pos ⟨Int.natCast_nonneg i, Int.ofNat_lt.mpr h⟩, Int.toNat_natCast]

theorem listIndex_last {n : ℕ} (h : 0 < n) : listIndex n (-1) = some (n - 1) := by
  rw [listIndex, if_neg (fun h => absurd h.1 (by decide)), if_pos (by omega)]
  congr 1
  omega

/-- the rows with `d` more columns -/
def wider (s : BinPackingScheme α) (d : ℕ) : List (List ℕ) :=
  s.p_i_j.map fun row => row ++ List.replicate d 0

theorem Grid.wider (h : s.Grid w) (d : ℕ) : ∀ row ∈ s.wider d, row.length = w + d := by
  intro row hrow
  obtain ⟨row₀, hrow₀, rfl⟩ := List.mem_map.mp hrow
  rw [List.length_append, h.columns row₀ hrow₀, List.length_replicate]

theorem wider_entry {d : ℕ} {row : List ℕ} : (row ++ List.replicate d 0)[p]? = some 1 ↔
    row[p]? = some 1 := by
  by_cases hp : p < row.length
  · rw [List.getElem?_append_left hp]
  · rw [List.getElem?_append_right (Nat.le_of_not_lt hp), List.getElem?_eq_none (Nat.le_of_not_lt hp)]
    refine iff_of_false (fun h => ?_) (by simp)
    exact absurd (List.mem_replicate.mp (List.mem_of_getElem? h)).2 Nat.one_ne_zero

/-- an entry is set in the wider rows -/
theorem set_spec {d c : ℕ} (h : s.Grid w) (hk : s.itemIds[k]? = some a) (hc : c < w + d) :
    ∃ row, (s.wider d)[k]? = some row ∧ row.length = w + d ∧
      ({ s with p_i_j := (s.wider d).set k (row.set c 1) } : BinPackingScheme α).Grid (w + d) ∧
      s.Adds { s with p_i_j := (s.wider d).set k (row.set c 1) } [(a, c)] := by
  have hlen : (s.wider d).length = s.itemIds.length := by
    rw [BinPackingScheme.wider, List.length_map, h.rows]
  have hlt : k < (s.wider d).length := by
    rw [hlen]
    exact (List.getElem?_eq_some_iff.mp hk).1
  obtain ⟨row, hrow⟩ : ∃ row, (s.wider d)[k]? = some row := ⟨_, List.getElem?_eq_getElem hlt⟩
  have hw := h.wider d row (List.mem_of_getElem? hrow)
  have hone : ∀ q : ℕ, (row.set c 1)[q]? = some 1 ↔ q = c ∨ row[q]? = some 1 := by
    intro q
    rw [List.getElem?_set]
    split
    case isTrue hcq =>
      rw [if_pos (hw ▸ hc)]
      exact iff_of_true rfl (.inl hcq.symm)
    case isFalse hcq =>
      exact (or_iff_right (Ne.symm hcq)).symm
  have hold : ∀ j q : ℕ, (∃ r : List ℕ, (s.wider d)[j]? = some r ∧ r[q]? = some 1) ↔
      ∃ r : List ℕ, s.p_i_j[j]? = some r ∧ r[q]? = some 1 := by
    intro j q
    rw [BinPackingScheme.wider, List.getElem?_map]
    constructor
    · rintro ⟨r, hr, hq⟩
      obtain ⟨r₀, hr₀, rfl⟩ := Option.map_eq_some_iff.mp hr
      exact ⟨r₀, hr₀, wider_entry.mp hq⟩
    · rintro ⟨r, hr, hq⟩
      exact ⟨_, by rw [hr]; rfl, wider_entry.mpr hq⟩
  refine ⟨row, hrow, hw, ⟨?_, ?_⟩, rfl, rfl, rfl, ?_⟩
  · rw [List.length_set, hlen]
  · intro r hr
    rcases List.mem_or_eq_of_mem_set hr with hr | rfl
    · exact h.wider d r hr
    · rw [List.length_set, hw]
  · funext q
    ext b
    rw [Pages.mem_put, List.mem_singleton, Prod.mk.injEq, mem_page, mem_page]
    constructor
    · rintro ⟨j, r, hb, hr, hq⟩
      by_cases hkj : k = j
      · subst hkj
        rw [List.getElem?_set_self hlt] at hr
        obtain rfl := Option.some.inj hr
        rcases (hone q).mp hq with rfl | hq
        · exact .inr ⟨Option.some.inj (hb.symm.trans hk), rfl⟩
        · obtain ⟨r, hr, hq⟩ := (hold k q).mp ⟨row, hrow, hq⟩
          exact .inl ⟨k, r, hb, hr, hq⟩
      · rw [List.getElem?_set_ne hkj] at hr
        obtain ⟨r, hr, hq⟩ := (hold j q).mp ⟨r, hr, hq⟩
        exact .inl ⟨j, r, hb, hr, hq⟩
    · rintro (⟨j, r, hb, hr, hq⟩ | ⟨rfl, rfl⟩)
      · obtain ⟨r, hr, hq⟩ := (hold j q).mpr ⟨r, hr, hq⟩
        by_cases hkj : k = j
        · subst hkj
          obtain rfl := Option.some.inj (hr.symm.trans hrow)
          refine ⟨k, r.set c 1, hb, ?_, (hone q).mpr (.inr hq)⟩
          rw [List.getElem?_set_self hlt]
        · refine ⟨j, r, hb, ?_, hq⟩
          rw [List.getElem?_set_ne hkj]
          exact hr
      · refine ⟨k, row.set q 1, hk, ?_, (hone q).mpr (.inl rfl)⟩
        rw [List.getElem?_set_self hlt]

/-- the rows of `mark` -/
theorem mark_rows {first : List ℕ} (h : s.Grid w) (hfirst : s.p_i_j.head? = some first) (j : ℤ) :
    (if j - 1 > first.length - 1 then
        s.p_i_j.map fun row => row ++ List.replicate ((j - 1) - (first.length - 1)).toNat 0
      else s.p_i_j) = s.wider (j - w).toNat := by
  rw [h.columns first (List.mem_of_head? hfirst), BinPackingScheme.wider]
  split
  case isTrue hj =>
    have heq : (j - 1 - ((w : ℤ) - 1)) = j - w := by omega
    rw [heq]
  case isFalse hj =>
    have hzero : (j - (w : ℤ)).toNat = 0 := by omega
    rw [hzero]
    simp

/-- **`mark`**: the item comes on the page; page `0` is the last column -/
theorem mark_spec {j : ℤ} {c : ℕ} (h : s.Grid w) (hk : s.itemIds[k]? = some a)
    (hc : listIndex (w + (j - w).toNat) (j - 1) = some c) (hlt : c < w + (j - w).toNat) :
    ∃ s', s.mark (k + 1 : ℕ) j = some s' ∧ s'.Grid (w + (j - w).toNat) ∧ s.Adds s' [(a, c)] := by
  obtain ⟨row, hrow, hw, hgrid, hadds⟩ := set_spec h hk hlt
  have hkl := (List.getElem?_eq_some_iff.mp hrow).1
  obtain ⟨first, hfirst⟩ : ∃ first, s.p_i_j.head? = some first := by
    cases hrows : s.p_i_j with
    | nil =>
      have hzero := h.rows
      rw [hrows] at hzero
      have hpos := (List.getElem?_eq_some_iff.mp hk).1
      rw [← hzero] at hpos
      exact absurd hpos (Nat.not_lt_zero _)
    | cons first rest => exact ⟨first, rfl⟩
  refine ⟨_, ?_, hgrid, hadds⟩
  have hidx : listIndex (s.wider (j - w).toNat).length ((k + 1 : ℕ) - 1) = some k := by
    rw [Nat.cast_add, Nat.cast_one, add_sub_cancel_right]
    exact listIndex_of_lt hkl
  rw [mark, hfirst]
  simp only [Option.bind_eq_bind, Option.bind_some, mark_rows h hfirst, hidx, hrow, hw, hc]

/-! ## Blocks are put on new pages -/

/-- the loop over the items, from the `j`-th on; the pages begin after `numBins` -/
def place (I : List α) (l numBins : ℕ) :
    ℕ → List α → BinPackingScheme α → Finset ℕ → Option (BinPackingScheme α × Finset ℕ)
  | _, [], s, tensorPageSet => some (s, tensorPageSet)
  | j, item :: rest, s, tensorPageSet => do
    let i ← I.idxOf? item
    let u := numBins + j ⌈/⌉ l
    let s' ← s.mark (i + 1 : ℕ) u
    place I l numBins (j + 1) rest s' (insert (u - 1) tensorPageSet)

theorem Adds.nil (s : BinPackingScheme α) : s.Adds s [] := ⟨rfl, rfl, rfl, (Pages.put_nil _).symm⟩

theorem Adds.trans {s'' : BinPackingScheme α} {es es' : List (α × ℕ)} (h : s.Adds s' es)
    (h' : s'.Adds s'' es') : s.Adds s'' (es ++ es') :=
  ⟨h'.itemIds.trans h.itemIds, h'.l.trans h.l, h'.numBins.trans h.numBins, by
    rw [h'.page, h.page, Pages.put_put]⟩

/-- the pages of the items from the `i`-th on -/
def fillFrom (l base i : ℕ) (items : List α) : List (α × ℕ) :=
  (items.zipIdx i).map fun e => (e.1, base + e.2 / l)

/-- **Blocks on new pages**: the pages are filled one after another. -/
theorem place_spec (base : ℕ) (hl : 0 < l) (items : List α) :
    ∀ (i : ℕ) {w : ℕ} {s : BinPackingScheme α} (pages : Finset ℕ), s.Grid w →
    base + i ⌈/⌉ l ≤ w → (∀ a ∈ items, a ∈ s.itemIds) →
    ∃ s', place s.itemIds l base (i + 1) items s pages =
        some (s', pages ∪ ((fillFrom l base i items).map Prod.snd).toFinset) ∧
      s'.Grid (max w (base + (i + items.length) ⌈/⌉ l)) ∧ s.Adds s' (fillFrom l base i items) := by
  induction items with
  | nil =>
    intro i w s pages h hw _
    refine ⟨s, ?_, ?_, Adds.nil s⟩
    · rw [place]
      exact congrArg some (Prod.ext rfl (Finset.union_empty pages).symm)
    · rw [List.length_nil, Nat.add_zero, Nat.max_eq_left hw]
      exact h
  | cons item rest ih =>
    intro i w s pages h hw hitems
    obtain ⟨k, hk, hitem⟩ := idxOf?_spec (hitems item List.mem_cons_self)
    have hc : base + (i / l + 1) - 1 = base + i / l := rfl
    have hwide : w + (((base + (i / l + 1) : ℕ) : ℤ) - w).toNat = max w (base + (i / l + 1)) := by omega
    have hlt : base + i / l < max w (base + (i / l + 1)) :=
      Nat.lt_of_lt_of_le (Nat.lt_succ_self _) (le_max_right w _)
    obtain ⟨s₁, hmark, hgrid, hadds⟩ := mark_spec (j := (base + (i / l + 1) : ℕ)) (c := base + i / l) h
      hitem (by
        rw [hwide]
        have hint : ((base + (i / l + 1) : ℕ) : ℤ) - 1 = (base + i / l : ℕ) := by omega
        rw [hint]
        exact listIndex_of_lt hlt) (by
        rw [hwide]
        exact hlt)
    rw [hwide] at hgrid
    have hnext : base + (i + 1) ⌈/⌉ l ≤ max w (base + (i / l + 1)) := by
      rw [Pages.succ_ceilDiv hl]
      exact le_max_right _ _
    have hrest : ∀ a ∈ rest, a ∈ s₁.itemIds := by
      intro a ha
      rw [hadds.itemIds]
      exact hitems a (List.mem_cons_of_mem _ ha)
    obtain ⟨s', hrun, hgrid', hadds'⟩ := ih (i + 1) (insert (base + i / l) pages) hgrid hnext hrest
    refine ⟨s', ?_, ?_, hadds.trans hadds'⟩
    · rw [hadds.itemIds] at hrun
      rw [place, hk]
      show (s.mark (k + 1 : ℕ) (base + (i + 1) ⌈/⌉ l : ℕ)).bind _ = _
      rw [Pages.succ_ceilDiv hl, hmark]
      show place s.itemIds l base (i + 1 + 1) rest s₁ (insert (base + (i / l + 1) - 1) pages) = _
      rw [hc, hrun, Finset.insert_union, ← Finset.union_insert]
      have hcons : fillFrom l base i (item :: rest) =
          (item, base + i / l) :: fillFrom l base (i + 1) rest := rfl
      rw [hcons, List.map_cons, List.toFinset_cons]
    · have hlen : i + (item :: rest).length = i + 1 + rest.length := by
        rw [List.length_cons]
        omega
      have hle : (i + 1) ⌈/⌉ l ≤ (i + 1 + rest.length) ⌈/⌉ l :=
        (gc_mul_ceilDiv hl).monotone_l (Nat.le_add_right _ _)
      rw [Pages.succ_ceilDiv hl] at hle
      rw [hlen]
      have hmax : max w (base + (i + 1 + rest.length) ⌈/⌉ l) =
          max (max w (base + (i / l + 1))) (base + (i + 1 + rest.length) ⌈/⌉ l) := by omega
      rw [hmax]
      exact hgrid'

end BinPackingScheme
end Netsdb
