import Mathlib.Algebra.Order.Floor.Div
import Mathlib.Data.Finset.Card
import Mathlib.Order.Interval.Finset.Nat

/-!
# Items on pages of a capacity

A packing says which items are on each page.

* `put`        items are put on pages; `fill`: one page after another, each with `l` items;
* `card_fill`  how many items of a fill come on a page;
* `takeFull`   the pages that are full of items of a set, chosen from the last one to the first;
  `lastFull`: one of them at a time.
-/

set_option linter.unusedSectionVars false

namespace Pages
variable {α : Type*} [DecidableEq α]

abbrev Packing (α : Type*) := ℕ → Finset α

def Within (l : ℕ) (P : Packing α) : Prop := ∀ p, (P p).card ≤ l

variable {P : Packing α} {es : List (α × ℕ)} {items : List α} {a : α} {l n p base : ℕ}

/-! ## Items are put on pages -/

/-- the items that come on a page -/
def arrivals (es : List (α × ℕ)) (p : ℕ) : List α := (es.filter fun e => e.2 = p).map Prod.fst

theorem mem_arrivals : a ∈ arrivals es p ↔ (a, p) ∈ es := by
  rw [arrivals, List.mem_map]
  constructor
  · rintro ⟨⟨b, q⟩, he, rfl⟩
    obtain ⟨he, hq⟩ := List.mem_filter.mp he
    have hq : q = p := of_decide_eq_true hq
    exact hq ▸ he
  · intro he
    exact ⟨(a, p), List.mem_filter.mpr ⟨he, decide_eq_true rfl⟩, rfl⟩

theorem arrivals_cons_self (es : List (α × ℕ)) (a : α) (p : ℕ) :
    arrivals ((a, p) :: es) p = a :: arrivals es p := by
  rw [arrivals, List.filter_cons_of_pos (by simp)]
  rfl

theorem arrivals_cons_of_ne {q : ℕ} (es : List (α × ℕ)) (a : α) (h : p ≠ q) :
    arrivals ((a, q) :: es) p = arrivals es p := by
  rw [arrivals, List.filter_cons_of_neg (by simpa using h.symm)]
  rfl

def put (P : Packing α) (es : List (α × ℕ)) : Packing α := fun p => P p ∪ (arrivals es p).toFinset

theorem mem_put : a ∈ put P es p ↔ a ∈ P p ∨ (a, p) ∈ es := by
  rw [put, Finset.mem_union, List.mem_toFinset, mem_arrivals]

theorem put_put (es' : List (α × ℕ)) : put (put P es) es' = put P (es ++ es') := by
  funext p
  ext a
  rw [mem_put, mem_put, mem_put, List.mem_append, or_assoc]

theorem put_nil (P : Packing α) : put P [] = P := by
  funext p
  ext a
  rw [mem_put]
  exact or_iff_left List.not_mem_nil

theorem card_put_le (P : Packing α) (es : List (α × ℕ)) (p : ℕ) :
    (put P es p).card ≤ (P p).card + (arrivals es p).length :=
  (Finset.card_union_le _ _).trans (Nat.add_le_add_left (List.toFinset_card_le _) _)

/-! ## One page after another -/

def fill (l base : ℕ) (items : List α) : List (α × ℕ) :=
  items.zipIdx.map fun e => (e.1, base + e.2 / l)

theorem mem_fill : (a, p) ∈ fill l base items ↔ ∃ i, items[i]? = some a ∧ base + i / l = p := by
  rw [fill, List.mem_map]
  constructor
  · rintro ⟨⟨b, i⟩, he, heq⟩
    obtain ⟨rfl, rfl⟩ := Prod.mk.inj heq
    exact ⟨i, List.mem_zipIdx_iff_getElem?.mp he, rfl⟩
  · rintro ⟨i, hi, rfl⟩
    exact ⟨(a, i), List.mem_zipIdx_iff_getElem?.mpr hi, rfl⟩

theorem exists_fill (l base : ℕ) (h : a ∈ items) : ∃ p, (a, p) ∈ fill l base items := by
  obtain ⟨i, hi⟩ := List.mem_iff_getElem?.mp h
  exact ⟨_, mem_fill.mpr ⟨i, hi, rfl⟩⟩

theorem fill_range (hl : 0 < l) (h : (a, p) ∈ fill l base items) :
    base ≤ p ∧ p < base + items.length ⌈/⌉ l := by
  obtain ⟨i, hi, rfl⟩ := mem_fill.mp h
  have hlt := (List.getElem?_eq_some_iff.mp hi).1
  refine ⟨Nat.le_add_right _ _, Nat.add_lt_add_left (lt_of_not_ge fun hge => ?_) _⟩
  have hle : items.length ≤ l * (i / l) := (ceilDiv_le_iff_le_mul hl).mp hge
  exact absurd (Nat.mul_div_le i l) (by omega)

theorem succ_ceilDiv (hl : 0 < l) (i : ℕ) : (i + 1) ⌈/⌉ l = i / l + 1 := by
  rw [Nat.ceilDiv_eq_add_pred_div, Nat.add_right_comm, Nat.add_sub_cancel, Nat.add_div_right i hl]

/-- the positions that are divided to one page -/
theorem length_filter_div (hl : 0 < l) (n q : ℕ) :
    ((List.range n).filter fun i => i / l = q).length = min n (q * l + l) - q * l := by
  rw [← List.toFinset_card_of_nodup (List.nodup_range.filter _), ← Nat.card_Ico]
  congr 1
  ext i
  rw [List.mem_toFinset, List.mem_filter, List.mem_range, decide_eq_true_iff, Finset.mem_Ico,
    lt_min_iff, Nat.div_eq_iff hl]
  constructor
  · rintro ⟨hn, hlo, hhi⟩
    exact ⟨hlo, hn, by omega⟩
  · rintro ⟨hlo, hn, hhi⟩
    exact ⟨hn, hlo, by omega⟩

/-- **Arrivals of a fill**: none before the first page, then `l` on each page while there are
items -/
theorem length_arrivals_fill (base : ℕ) (hl : 0 < l) (items : List α) (q : ℕ) :
    (arrivals (fill l base items) (base + q)).length =
      min items.length (q * l + l) - q * l := by
  rw [← length_filter_div hl items.length q, arrivals, List.length_map, fill, List.filter_map,
    List.length_map, List.range_eq_range', ← List.zipIdx_map_snd 0 items, List.filter_map,
    List.length_map]
  congr 1
  refine List.filter_congr fun e _ => ?_
  exact decide_eq_decide.mpr Nat.add_left_cancel_iff

theorem arrivals_fill_ne (hl : 0 < l) (base : ℕ) {q : ℕ} (hq : q < items.length ⌈/⌉ l) :
    arrivals (fill l base items) (base + q) ≠ [] := by
  intro hnil
  have hlen := length_arrivals_fill base hl items q
  rw [hnil, List.length_nil] at hlen
  have hlt : ¬ items.length ≤ l * q := fun hle =>
    absurd ((ceilDiv_le_iff_le_mul hl).mpr hle) (Nat.not_le_of_lt hq)
  rw [Nat.mul_comm] at hlt
  omega

theorem arrivals_fill_before (hl : 0 < l) (h : p < base) : arrivals (fill l base items) p = [] := by
  refine List.eq_nil_iff_forall_not_mem.mpr fun a ha => ?_
  exact absurd (fill_range hl (mem_arrivals.mp ha)).1 (Nat.not_le_of_lt h)

theorem length_arrivals_fill_le (hl : 0 < l) (items : List α) (base p : ℕ) :
    (arrivals (fill l base items) p).length ≤ l := by
  by_cases h : p < base
  · rw [arrivals_fill_before hl h]
    exact Nat.zero_le _
  · obtain ⟨q, rfl⟩ := Nat.exists_eq_add_of_le (Nat.le_of_not_lt h)
    rw [length_arrivals_fill base hl]
    omega

/-- items are put on pages that were empty -/
theorem Within.put_fill (hl : 0 < l) (h : Within l P) (hempty : ∀ p, base ≤ p → P p = ∅)
    (items : List α) : Within l (put P (fill l base items)) := by
  intro p
  by_cases hp : p < base
  · have hle := card_put_le P (fill l base items) p
    rw [arrivals_fill_before hl hp] at hle
    exact hle.trans (h p)
  · have hle := card_put_le P (fill l base items) p
    rw [hempty p (Nat.le_of_not_lt hp), Finset.card_empty, Nat.zero_add] at hle
    exact hle.trans (length_arrivals_fill_le hl items base p)

/-- pages that had items have them still, and the new ones have some too -/
theorem put_fill_ne (hl : 0 < l) (h : ∀ p < base, P p ≠ ∅) (items : List α) :
    ∀ p < base + items.length ⌈/⌉ l, put P (fill l base items) p ≠ ∅ := by
  intro p hp
  by_cases hlt : p < base
  · obtain ⟨a, ha⟩ := Finset.nonempty_of_ne_empty (h p hlt)
    exact Finset.ne_empty_of_mem (mem_put.mpr (.inl ha))
  · obtain ⟨q, rfl⟩ := Nat.exists_eq_add_of_le (Nat.le_of_not_lt hlt)
    obtain ⟨a, ha⟩ := List.exists_mem_of_ne_nil _
      (arrivals_fill_ne hl base (Nat.lt_of_add_lt_add_left hp))
    exact Finset.ne_empty_of_mem (mem_put.mpr (.inr (mem_arrivals.mp ha)))

/-! ## Full pages of a set -/

/-- what is left of the set, and the pages that are taken -/
def takeFull (l : ℕ) (P : Packing α) : ℕ → Finset α → Finset α × Finset ℕ
  | 0, T => (T, ∅)
  | n + 1, T =>
    if (T ∩ P n).card = l then
      ((takeFull l P n (T \ P n)).1, insert n (takeFull l P n (T \ P n)).2)
    else takeFull l P n T

variable {T : Finset α}

theorem takeFull_rest_subset (n : ℕ) : ∀ T, (takeFull l P n T).1 ⊆ T := by
  induction n with
  | zero => exact fun T => Finset.Subset.refl T
  | succ n ih =>
    intro T
    rw [takeFull]
    split
    · exact (ih _).trans Finset.sdiff_subset
    · exact ih T

theorem takeFull_used_lt (n : ℕ) : ∀ T, ∀ p ∈ (takeFull l P n T).2, p < n := by
  induction n with
  | zero => exact fun _ _ hp => absurd hp (Finset.notMem_empty _)
  | succ n ih =>
    intro T p hp
    rw [takeFull] at hp
    split at hp
    · rcases Finset.mem_insert.mp hp with rfl | hp
      · exact Nat.lt_succ_self _
      · exact (ih _ p hp).trans (Nat.lt_succ_self n)
    · exact (ih _ p hp).trans (Nat.lt_succ_self n)

/-- what is not left is on the pages that are taken -/
theorem takeFull_covers (n : ℕ) : ∀ T, ∀ a ∈ T, a ∉ (takeFull l P n T).1 →
    ∃ p ∈ (takeFull l P n T).2, a ∈ P p := by
  induction n with
  | zero => exact fun _ _ ha hrest => absurd ha hrest
  | succ n ih =>
    intro T a ha hrest
    rw [takeFull] at hrest ⊢
    split at hrest
    case isTrue h =>
      rw [if_pos h]
      by_cases han : a ∈ P n
      · exact ⟨n, Finset.mem_insert_self n _, han⟩
      · obtain ⟨p, hp, hap⟩ := ih _ a (Finset.mem_sdiff.mpr ⟨ha, han⟩) hrest
        exact ⟨p, Finset.mem_insert_of_mem hp, hap⟩
    case isFalse h =>
      rw [if_neg h]
      exact ih T a ha hrest

/-- the last page below `n` that is full of items of the set -/
def lastFull (l : ℕ) (P : Packing α) (used : Finset ℕ) (T : Finset α) : ℕ → Option ℕ
  | 0 => none
  | n + 1 => if n ∉ used ∧ (T ∩ P n).card = l then some n else lastFull l P used T n

theorem lastFull_skip (used : Finset ℕ) {m : ℕ} (hnm : n ≤ m)
    (h : ∀ j, n ≤ j → j < m → (T ∩ P j).card ≠ l) :
    lastFull l P used T m = lastFull l P used T n := by
  induction m, hnm using Nat.le_induction with
  | base => rfl
  | succ m hle ih =>
    rw [lastFull, if_neg fun hm => h m hle (Nat.lt_succ_self m) hm.2]
    exact ih fun j hj hjm => h j hj (Nat.lt_succ_of_lt hjm)

/-- what was not full of items of a set is not full of items of a part of it -/
theorem card_inter_ne {T' Q : Finset α} (hQ : Q.card ≤ l) (hT : T' ⊆ T) (h : (T ∩ Q).card ≠ l) :
    (T' ∩ Q).card ≠ l := by
  intro heq
  have h₁ : (T' ∩ Q).card ≤ (T ∩ Q).card := Finset.card_le_card (Finset.inter_subset_inter_right hT)
  have h₂ : (T ∩ Q).card ≤ Q.card := Finset.card_le_card Finset.inter_subset_right
  omega

end Pages
