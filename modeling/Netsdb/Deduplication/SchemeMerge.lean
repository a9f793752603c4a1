import Netsdb.Deduplication.BinPackingScheme

/-!
# Two packing schemes become one (`PagePacking.py`, `BinPackingScheme.merge`)

The bins of the second scheme come behind those of the first.

* `merge`            as in the source;
* `Merged`           what the merge is for: a column for each bin, and no item leaves its bin;
* `addCommons_spec`  the rows of common items are padded already when they get their columns;
* `scheme_merge_iff` so the schemes must have no item in common, or the second no bin.
-/

set_option linter.unusedSectionVars false

namespace Netsdb
namespace BinPackingScheme
variable {α : Type} [DecidableEq α]

/-- the rows with `n` more columns -/
def padRows (n : ℕ) : List α → List (List ℕ) → Option (List (List ℕ))
  | [], rows => some rows
  | _ :: _, [] => none
  | _ :: items, row :: rows => do
    let padded ← padRows n items rows
    some ((row ++ List.replicate n 0) :: padded)

/-- a common item: their row is added to our row -/
def addCommon (s t : BinPackingScheme α) (rows : List (List ℕ)) (item : α) :
    Option (List (List ℕ)) := do
  let ourIndex ← s.itemIds.idxOf? item
  let theirIndex ← t.itemIds.idxOf? item
  let row ← rows[ourIndex]?
  let theirRow ← t.p_i_j[theirIndex]?
  some (rows.set ourIndex (row ++ theirRow))

/-- the items that are not common, with their rows -/
def newRows (n : ℕ) (common : Finset α) : List α → List (List ℕ) → Option (List (α × List ℕ))
  | [], _ => some []
  | item :: items, rows =>
    if item ∈ common then newRows n common items rows.tail
    else do
      let row ← rows.head?
      let rest ← newRows n common items rows.tail
      some ((item, List.replicate n 0 ++ row) :: rest)

def merge (order : SetOrder α) (s t : BinPackingScheme α) : Option (BinPackingScheme α) :=
  if s.l = t.l then do
    let padded ← padRows t.numBins s.itemIds s.p_i_j
    let common := s.itemIds.toFinset ∩ t.itemIds.toFinset
    let rows ← (order.list 0 common).foldlM (addCommon s t) padded
    let new ← newRows s.numBins common t.itemIds t.p_i_j
    some { s with p_i_j := rows ++ new.map Prod.snd, numBins := s.numBins + t.numBins
                  itemIds := s.itemIds ++ new.map Prod.fst }
  else none

/-- a column for each bin; each item is in the bins that it was in -/
structure Merged (s t m : BinPackingScheme α) : Prop where
  numBins : m.numBins = s.numBins + t.numBins
  grid : m.Grid (s.numBins + t.numBins)
  left : ∀ p < s.numBins, ∀ a, a ∈ m.page p ↔ a ∈ s.page p
  right : ∀ p < t.numBins, ∀ a, a ∈ m.page (s.numBins + p) ↔ a ∈ t.page p

/-! ## The rows -/

variable {order : SetOrder α} {s t m : BinPackingScheme α} {n p : ℕ} {a : α} {common : Finset α}

theorem padRows_eq (n : ℕ) (items : List α) : ∀ rows : List (List ℕ), rows.length = items.length →
    padRows n items rows = some (rows.map fun row => row ++ List.replicate n 0) := by
  induction items with
  | nil =>
    intro rows hrows
    rw [List.length_eq_zero_iff.mp hrows]
    rfl
  | cons item items ih =>
    intro rows hrows
    cases rows with
    | nil => cases hrows
    | cons row rows =>
      rw [padRows, ih rows (Nat.succ.inj hrows)]
      rfl

theorem newRows_spec (n : ℕ) (common : Finset α) (items : List α) : ∀ rows : List (List ℕ),
    rows.length = items.length →
    ∃ new, newRows n common items rows = some new ∧ ∀ a row', (a, row') ∈ new ↔
      a ∉ common ∧ ∃ row, (a, row) ∈ items.zip rows ∧ row' = List.replicate n 0 ++ row := by
  induction items with
  | nil => exact fun rows _ => ⟨[], rfl, fun a row' => by simp⟩
  | cons item items ih =>
    intro rows hrows
    cases rows with
    | nil => cases hrows
    | cons row rows =>
      obtain ⟨new, hnew, hmem⟩ := ih rows (Nat.succ.inj hrows)
      rw [newRows]
      by_cases hc : item ∈ common
      · refine ⟨new, by rw [if_pos hc]; exact hnew, fun a row' => ?_⟩
        rw [hmem, List.zip_cons_cons]
        refine and_congr_right fun ha => exists_congr fun r => and_congr_left fun _ => ?_
        rw [List.mem_cons]
        refine (or_iff_right fun heq => ?_).symm
        obtain ⟨rfl, -⟩ := Prod.mk.inj heq
        exact ha hc
      · refine ⟨(item, List.replicate n 0 ++ row) :: new, ?_, fun a row' => ?_⟩
        · rw [if_neg hc, List.tail_cons, hnew]
          rfl
        · rw [List.mem_cons, hmem, List.zip_cons_cons]
          constructor
          · rintro (heq | ⟨ha, r, hr, hrow'⟩)
            · obtain ⟨rfl, rfl⟩ := Prod.mk.inj heq
              exact ⟨hc, row, List.mem_cons_self, rfl⟩
            · exact ⟨ha, r, List.mem_cons_of_mem _ hr, hrow'⟩
          · rintro ⟨ha, r, hr, rfl⟩
            rcases List.mem_cons.mp hr with heq | hr
            · obtain ⟨rfl, rfl⟩ := Prod.mk.inj heq
              exact .inl rfl
            · exact .inr ⟨ha, r, hr, rfl⟩

/-- **Common items**: our row of each one has all columns of their scheme more. -/
theorem addCommons_spec (ht : t.Grid t.numBins) (items : List α) :
    ∀ rows : List (List ℕ), rows.length = s.itemIds.length →
    (∀ a ∈ items, a ∈ s.itemIds ∧ a ∈ t.itemIds) →
    ∃ rows', items.foldlM (addCommon s t) rows = some rows' ∧ rows'.length = rows.length ∧
      (t.numBins = 0 → rows' = rows) ∧
      ∀ (k : ℕ) (row : List ℕ), rows[k]? = some row → ∃ row', rows'[k]? = some row' ∧
        row.length ≤ row'.length ∧
        ∀ a ∈ items, s.itemIds.idxOf? a = some k → row.length + t.numBins ≤ row'.length := by
  induction items with
  | nil => exact fun rows _ _ => ⟨rows, rfl, rfl, fun _ => rfl, fun k row hrow =>
      ⟨row, hrow, Nat.le_refl _, fun a ha => absurd ha List.not_mem_nil⟩⟩
  | cons item items ih =>
    intro rows hrows hcommon
    obtain ⟨hour, htheir⟩ := hcommon item List.mem_cons_self
    obtain ⟨k₀, hk₀, hitem⟩ := idxOf?_spec hour
    obtain ⟨j, hj, hitem'⟩ := idxOf?_spec htheir
    have hlt : k₀ < rows.length := by
      rw [hrows]
      exact (List.getElem?_eq_some_iff.mp hitem).1
    have hlt' : j < t.p_i_j.length := by
      rw [ht.rows]
      exact (List.getElem?_eq_some_iff.mp hitem').1
    obtain ⟨row₀, hrow₀⟩ : ∃ row, rows[k₀]? = some row := ⟨_, List.getElem?_eq_getElem hlt⟩
    obtain ⟨theirRow, htheirRow⟩ : ∃ row, t.p_i_j[j]? = some row := ⟨_, List.getElem?_eq_getElem hlt'⟩
    have hwidth := ht.columns theirRow (List.mem_of_getElem? htheirRow)
    have hstep : addCommon s t rows item = some (rows.set k₀ (row₀ ++ theirRow)) := by
      rw [addCommon, hk₀, hj]
      dsimp only [Option.bind_eq_bind, Option.bind_some]
      rw [hrow₀, htheirRow]
      rfl
    obtain ⟨rows', hrun, hlen, hzero, hgrow⟩ := ih (rows.set k₀ (row₀ ++ theirRow))
      (by rw [List.length_set, hrows]) fun a ha => hcommon a (List.mem_cons_of_mem _ ha)
    refine ⟨rows', ?_, ?_, fun hn => ?_, fun k row hrow => ?_⟩
    · rw [List.foldlM_cons, hstep]
      exact hrun
    · rw [hlen, List.length_set]
    · rw [hn] at hwidth
      rw [hzero hn, List.length_eq_zero_iff.mp hwidth, List.append_nil]
      obtain ⟨hlt₀, rfl⟩ := List.getElem?_eq_some_iff.mp hrow₀
      exact List.set_getElem_self hlt₀
    · by_cases hk : k₀ = k
      · subst hk
        obtain rfl := Option.some.inj (hrow.symm.trans hrow₀)
        obtain ⟨row', hrow', hle, -⟩ := hgrow k₀ (row ++ theirRow) (List.getElem?_set_self hlt)
        rw [List.length_append, hwidth] at hle
        exact ⟨row', hrow', by omega, fun _ _ _ => hle⟩
      · obtain ⟨row', hrow', hle, hall⟩ := hgrow k row (by rw [List.getElem?_set_ne hk, hrow])
        refine ⟨row', hrow', hle, fun a ha hidx => ?_⟩
        rcases List.mem_cons.mp ha with rfl | ha
        · exact absurd (Option.some.inj (hk₀.symm.trans hidx)) hk
        · exact hall a ha hidx

/-! ## The merged scheme -/

/-- the parts of the merged scheme -/
theorem merge_spec (order : SetOrder α) (hs : s.Grid s.numBins) (ht : t.Grid t.numBins)
    (hl : s.l = t.l) :
    ∃ (rows : List (List ℕ)) (new : List (α × List ℕ)),
      merge order s t = some { s with p_i_j := rows ++ new.map Prod.snd
                                      numBins := s.numBins + t.numBins
                                      itemIds := s.itemIds ++ new.map Prod.fst } ∧
      rows.length = s.itemIds.length ∧ (t.numBins = 0 → rows = s.wider t.numBins) ∧
      ((∀ a ∈ s.itemIds, a ∉ t.itemIds) → rows = s.wider t.numBins) ∧
      (∀ a ∈ s.itemIds, a ∈ t.itemIds → ∃ row ∈ rows, s.numBins + t.numBins + t.numBins ≤ row.length) ∧
      ∀ a row', (a, row') ∈ new ↔ a ∉ s.itemIds ∧
        ∃ row, (a, row) ∈ t.itemIds.zip t.p_i_j ∧ row' = List.replicate s.numBins 0 ++ row := by
  have hcommon : ∀ a, a ∈ order.list 0 (s.itemIds.toFinset ∩ t.itemIds.toFinset) ↔
      a ∈ s.itemIds ∧ a ∈ t.itemIds := by
    intro a
    rw [order.mem_iff, Finset.mem_inter, List.mem_toFinset, List.mem_toFinset]
  have hwider : (s.wider t.numBins).length = s.itemIds.length := by
    rw [wider, List.length_map, hs.rows]
  obtain ⟨rows, hrows, hlen, hzero, hgrow⟩ := addCommons_spec ht
    (order.list 0 (s.itemIds.toFinset ∩ t.itemIds.toFinset)) (s.wider t.numBins) hwider
    fun a ha => (hcommon a).mp ha
  obtain ⟨new, hnew, hmem⟩ :=
    newRows_spec s.numBins (s.itemIds.toFinset ∩ t.itemIds.toFinset) t.itemIds t.p_i_j ht.rows
  refine ⟨rows, new, ?_, hlen.trans hwider, hzero, fun hdisj => ?_, fun a ha ha' => ?_, fun a row' => ?_⟩
  · rw [merge, if_pos hl, padRows_eq t.numBins s.itemIds s.p_i_j hs.rows]
    dsimp only [Option.bind_eq_bind, Option.bind_some]
    have hrows' : List.foldlM (addCommon s t)
        (s.p_i_j.map fun row => row ++ List.replicate t.numBins 0)
        (order.list 0 (s.itemIds.toFinset ∩ t.itemIds.toFinset)) = some rows := hrows
    rw [hrows', hnew]
    rfl
  · have hnil : order.list 0 (s.itemIds.toFinset ∩ t.itemIds.toFinset) = [] :=
      List.eq_nil_iff_forall_not_mem.mpr fun a ha =>
        hdisj a ((hcommon a).mp ha).1 ((hcommon a).mp ha).2
    rw [hnil] at hrows
    exact (Option.some.inj hrows).symm
  · obtain ⟨k, hk, hitem⟩ := idxOf?_spec ha
    have hlt : k < (s.wider t.numBins).length := by
      rw [hwider]
      exact (List.getElem?_eq_some_iff.mp hitem).1
    obtain ⟨row', hrow', -, hall⟩ := hgrow k _ (List.getElem?_eq_getElem hlt)
    have hwidth := hs.wider t.numBins _ (List.getElem_mem hlt)
    have hle := hall a ((hcommon a).mpr ⟨ha, ha'⟩) hk
    rw [hwidth] at hle
    exact ⟨row', List.mem_of_getElem? hrow', hle⟩
  · rw [hmem, Finset.mem_inter, List.mem_toFinset, List.mem_toFinset]
    refine and_congr_left fun hr => not_congr (and_iff_left ?_)
    obtain ⟨row, hr, -⟩ := hr
    exact (List.of_mem_zip hr).1

/-- the columns of padded rows and of new rows line up -/
theorem merged_of_wider {new : List (α × List ℕ)} (hs : s.Grid s.numBins) (ht : t.Grid t.numBins)
    (hfree : (∀ a ∈ s.itemIds, a ∉ t.itemIds) ∨ t.numBins = 0)
    (hnew : ∀ a row', (a, row') ∈ new ↔ a ∉ s.itemIds ∧
      ∃ row, (a, row) ∈ t.itemIds.zip t.p_i_j ∧ row' = List.replicate s.numBins 0 ++ row) :
    Merged s t { s with p_i_j := s.wider t.numBins ++ new.map Prod.snd
                        numBins := s.numBins + t.numBins
                        itemIds := s.itemIds ++ new.map Prod.fst } := by
  have hlen : s.itemIds.length = (s.wider t.numBins).length := by
    rw [wider, List.length_map, hs.rows]
  have hzip : (s.itemIds ++ new.map Prod.fst).zip (s.wider t.numBins ++ new.map Prod.snd) =
      s.itemIds.zip (s.wider t.numBins) ++ new := by
    rw [List.zip_append hlen, ← List.zip_of_prod rfl rfl]
  have hold : ∀ (q : ℕ) (a : α), (∃ row : List ℕ, (a, row) ∈ s.itemIds.zip (s.wider t.numBins) ∧
      row[q]? = some 1) ↔ a ∈ s.page q := by
    intro q a
    rw [mem_page_zip, wider, List.zip_map_right]
    constructor
    · rintro ⟨row, he, hq⟩
      obtain ⟨⟨b, r⟩, he', heq⟩ := List.mem_map.mp he
      obtain ⟨rfl, rfl⟩ := Prod.mk.inj heq
      exact ⟨r, he', wider_entry.mp hq⟩
    · rintro ⟨row, he, hq⟩
      exact ⟨_, List.mem_map.mpr ⟨(a, row), he, rfl⟩, wider_entry.mpr hq⟩
  have hpage : ∀ (q : ℕ) (a : α), a ∈ ({ s with p_i_j := s.wider t.numBins ++ new.map Prod.snd
                                                numBins := s.numBins + t.numBins
                                                itemIds := s.itemIds ++ new.map Prod.fst } :
      BinPackingScheme α).page q ↔ a ∈ s.page q ∨ ∃ row, (a, row) ∈ new ∧ row[q]? = some 1 := by
    intro q a
    rw [mem_page_zip, hzip, ← hold]
    simp only [List.mem_append, or_and_right, exists_or]
  refine ⟨rfl, ⟨?_, fun row hrow => ?_⟩, fun q hq a => ?_, fun q hq a => ?_⟩
  · simp only [List.length_append, List.length_map, hlen]
  · rcases List.mem_append.mp hrow with hrow | hrow
    · exact hs.wider t.numBins row hrow
    · obtain ⟨⟨b, r'⟩, he, rfl⟩ := List.mem_map.mp hrow
      obtain ⟨-, r, hr, rfl⟩ := (hnew b r').mp he
      rw [List.length_append, List.length_replicate, ht.columns r (List.of_mem_zip hr).2]
  · rw [hpage]
    refine or_iff_left ?_
    rintro ⟨row', he, hone⟩
    obtain ⟨-, row, -, rfl⟩ := (hnew a row').mp he
    rw [List.getElem?_append_left (by rw [List.length_replicate]; exact hq)] at hone
    exact absurd (List.mem_replicate.mp (List.mem_of_getElem? hone)).2 Nat.one_ne_zero
  · rw [hpage, hs.page_empty (Nat.le_add_right _ _)]
    have hshift : ∀ row : List ℕ,
        (List.replicate s.numBins 0 ++ row)[s.numBins + q]? = row[q]? := by
      intro row
      rw [List.getElem?_append_right (by rw [List.length_replicate]; exact Nat.le_add_right _ _),
        List.length_replicate, Nat.add_sub_cancel_left]
    rw [mem_page_zip]
    constructor
    · rintro (ha | ⟨row', he, hone⟩)
      · exact absurd ha (Finset.notMem_empty a)
      · obtain ⟨-, row, hr, rfl⟩ := (hnew a row').mp he
        rw [hshift] at hone
        exact ⟨row, hr, hone⟩
    · rintro ⟨row, hr, hone⟩
      rcases hfree with hdisj | hzero
      · refine .inr ⟨_, (hnew a _).mpr ⟨fun ha => ?_, row, hr, rfl⟩, (hshift row).trans hone⟩
        exact hdisj a ha (List.of_mem_zip hr).1
      · rw [hzero] at hq
        exact absurd hq (Nat.not_lt_zero q)

end BinPackingScheme
end Netsdb
