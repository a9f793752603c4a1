import Mathlib.Algebra.BigOperators.Group.List.Basic
import Mathlib.Data.List.Nodup

/-!
# Tables with keys

A list of entries in which each key occurs at most once (`Keyed`).

* `Keyed.lookup_iff`   an entry of the list is what is found at its key;
* `without`              the table without a key, and `put` with a new value for it;
* `Keyed.length_eq`      how many entries there are;
* `Keyed.sum_without`    what the entries weigh together, and what is left without one of them.
-/

namespace Table
variable {K V : Type*} [DecidableEq K] {l : List (K × V)} {k : K} {v v' : V} {e : K × V}

def Keyed (l : List (K × V)) : Prop := (l.map Prod.fst).Nodup

def without (l : List (K × V)) (k : K) : List (K × V) := l.filter fun e => e.1 ≠ k

theorem mem_without : e ∈ without l k ↔ e ∈ l ∧ e.1 ≠ k := by
  rw [without, List.mem_filter, decide_eq_true_iff]

theorem Keyed.without (h : Keyed l) (k : K) : Keyed (Table.without l k) :=
  h.sublist (List.filter_sublist.map _)

theorem lookup_eq_none : l.lookup k = none ↔ ∀ e ∈ l, e.1 ≠ k := by
  rw [List.lookup_eq_none_iff]
  refine forall₂_congr fun e _ => ?_
  rw [bne_iff_ne]
  exact ne_comm

theorem mem_of_lookup (h : l.lookup k = some v) : (k, v) ∈ l := by
  obtain ⟨l₁, l₂, rfl, -⟩ := List.lookup_eq_some_iff.mp h
  exact List.mem_append_right _ List.mem_cons_self

theorem lookup_cons (k' : K) :
    ((k', v) :: l).lookup k = if k = k' then some v else l.lookup k := by
  rw [List.lookup_cons]
  by_cases hk : k = k'
  · rw [if_pos hk, beq_iff_eq.mpr hk]
  · rw [if_neg hk, beq_eq_false_iff_ne.mpr hk]

theorem lookup_without (l : List (K × V)) (k k' : K) :
    (without l k').lookup k = if k = k' then none else l.lookup k := by
  induction l with
  | nil => split <;> rfl
  | cons e l ih =>
    by_cases he : e.1 = k'
    · rw [without, List.filter_cons_of_neg (by simpa using he)]
      rw [without] at ih
      rw [ih, lookup_cons, ← he]
      split <;> rfl
    · rw [without, List.filter_cons_of_pos (by simpa using he)]
      rw [without] at ih
      rw [lookup_cons, lookup_cons, ih]
      by_cases hk : k = e.1
      · rw [if_pos hk, if_pos hk, if_neg (hk ▸ he)]
      · rw [if_neg hk, if_neg hk]

theorem Keyed.cons (h : Keyed l) (hk : l.lookup k = none) (v : V) : Keyed ((k, v) :: l) := by
  refine List.nodup_cons.mpr ⟨fun hm => ?_, h⟩
  obtain ⟨e, he, heq⟩ := List.mem_map.mp hm
  exact lookup_eq_none.mp hk e he heq

def put (l : List (K × V)) (k : K) (v : V) : List (K × V) := (k, v) :: without l k

theorem lookup_put (l : List (K × V)) (k k' : K) (v : V) :
    (put l k' v).lookup k = if k = k' then some v else l.lookup k := by
  rw [put, lookup_cons, lookup_without]
  split <;> rfl

theorem Keyed.put (h : Keyed l) (k : K) (v : V) : Keyed (Table.put l k v) := by
  refine (h.without k).cons ?_ v
  rw [lookup_without, if_pos rfl]

theorem mem_keys : k ∈ l.map Prod.fst ↔ l.lookup k ≠ none := by
  rw [Ne, lookup_eq_none, not_forall]
  constructor
  · intro h
    obtain ⟨e, he, hk⟩ := List.mem_map.mp h
    exact ⟨e, fun hn => hn he hk⟩
  · rintro ⟨e, he⟩
    obtain ⟨hm, hk⟩ := Classical.not_imp.mp he
    exact List.mem_map.mpr ⟨e, hm, not_not.mp hk⟩

/-- the keys `0`, …, `n - 1` -/
theorem Keyed.length_eq {l : List (ℕ × V)} {n : ℕ} (h : Keyed l)
    (hk : ∀ k, l.lookup k ≠ none ↔ k < n) : l.length = n := by
  have hp : (l.map Prod.fst).Perm (List.range n) := by
    refine (List.perm_ext_iff_of_nodup h List.nodup_range).mpr fun k => ?_
    rw [mem_keys, hk, List.mem_range]
  rw [← List.length_map Prod.fst, hp.length_eq, List.length_range]

theorem Keyed.lookup_iff (h : Keyed l) : l.lookup k = some v ↔ (k, v) ∈ l := by
  refine ⟨mem_of_lookup, fun hm => ?_⟩
  cases hl : l.lookup k with
  | none => exact absurd rfl (lookup_eq_none.mp hl _ hm)
  | some v' =>
    have heq := List.inj_on_of_nodup_map h hm (mem_of_lookup hl) rfl
    rw [(Prod.mk.inj heq).2]

/-- what one entry weighs, and the others -/
theorem Keyed.sum_without {M : Type*} [AddCommMonoid M] (h : Keyed l) (f : K × V → M)
    (hm : (k, v) ∈ l) : (l.map f).sum = f (k, v) + ((Table.without l k).map f).sum := by
  induction l with
  | nil => cases hm
  | cons e l ih =>
    obtain ⟨hnot, hrest⟩ := List.nodup_cons.mp h
    rw [List.map_cons, List.sum_cons]
    rcases List.mem_cons.mp hm with rfl | hm
    · have hall : Table.without ((k, v) :: l) k = l := by
        rw [Table.without, List.filter_cons_of_neg (by simp)]
        refine List.filter_eq_self.mpr fun e he => decide_eq_true fun heq => hnot ?_
        exact List.mem_map.mpr ⟨e, he, heq⟩
      rw [hall]
    · have hne : e.1 ≠ k := fun heq => hnot (List.mem_map.mpr ⟨(k, v), hm, heq.symm⟩)
      rw [ih hrest hm, Table.without, Table.without, List.filter_cons_of_pos (by simpa using hne),
        List.map_cons, List.sum_cons, add_left_comm]

end Table
