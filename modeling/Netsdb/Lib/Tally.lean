import Mathlib.Algebra.BigOperators.Group.Multiset.Basic
import Mathlib.Algebra.BigOperators.Group.List.Basic
import Mathlib.Data.Multiset.Count

/-!
# Counting what is stored

* `sum_map_set`   a sum over a list, one element of which grows;
* `bag`           the pairs of a key and one of its values, from a list of keys;
* `bag_update`    the pairs when the values of one key have changed.
-/

namespace Tally

section
variable {α M : Type*} [AddCommMonoid M]

theorem sum_map_set {f : α → M} {l : List α} {i : Nat} {x y : α} {d : M} (h : l[i]? = some y)
    (hx : f x = f y + d) : ((l.set i x).map f).sum = (l.map f).sum + d := by
  induction l generalizing i with
  | nil => cases h
  | cons z l ih =>
    cases i with
    | zero =>
      cases h
      rw [List.set_cons_zero, List.map_cons, List.sum_cons, List.map_cons, List.sum_cons, hx,
        add_right_comm]
    | succ i =>
      rw [List.set_cons_succ, List.map_cons, List.sum_cons, List.map_cons, List.sum_cons, ih h,
        add_assoc]

end

section
variable {K V : Type*} {keys keys' : List K} {g g' : K → List V}

/-- the values `l` of the key `k` -/
def tag (k : K) (l : List V) : Multiset (K × V) := ↑(l.map fun v => (k, v))

def bag (keys : List K) (g : K → List V) : Multiset (K × V) :=
  ↑(keys.flatMap fun k => (g k).map fun v => (k, v))

/-- the list has every key that has values, once -/
structure Covers (keys : List K) (g : K → List V) : Prop where
  nodup : keys.Nodup
  mem_iff : ∀ k, k ∈ keys ↔ g k ≠ []

theorem tag_append (k : K) (l l' : List V) : tag k (l ++ l') = tag k l + tag k l' := by
  rw [tag, List.map_append]
  rfl

theorem bag_cons (k : K) (keys : List K) (g : K → List V) :
    bag (k :: keys) g = tag k (g k) + bag keys g := by
  rw [bag, List.flatMap_cons]
  rfl

variable [DecidableEq K] [DecidableEq V]

theorem count_tag (k k' : K) (v : V) (l : List V) :
    (tag k' l).count (k, v) = if k = k' then l.count v else 0 := by
  induction l with
  | nil => simp [tag]
  | cons x l ih =>
    have hcons : tag k' (x :: l) = (k', x) ::ₘ tag k' l := rfl
    rw [hcons, Multiset.count_cons, ih]
    by_cases hk : k = k'
    · subst hk
      by_cases hv : v = x
      · subst hv
        simp
      · have hv' : ¬ x = v := fun e => hv e.symm
        simp [hv, hv']
    · simp [hk]

theorem count_bag (h : keys.Nodup) (k : K) (v : V) :
    (bag keys g).count (k, v) = if k ∈ keys then (g k).count v else 0 := by
  induction keys with
  | nil => simp [bag]
  | cons k' keys ih =>
    obtain ⟨hk', hnd⟩ := List.nodup_cons.mp h
    rw [bag_cons, Multiset.count_add, count_tag, ih hnd]
    by_cases e : k = k'
    · subst e
      rw [if_pos rfl, if_neg hk', if_pos List.mem_cons_self, Nat.add_zero]
    · simp [e]

theorem Covers.count (h : Covers keys g) (k : K) (v : V) :
    (bag keys g).count (k, v) = (g k).count v := by
  rw [count_bag h.nodup]
  split
  · rfl
  · next hk =>
    have hnil : g k = [] := by
      by_contra hne
      exact hk ((h.mem_iff k).mpr hne)
    rw [hnil, List.count_nil]

/-- **The values of one key have changed.** -/
theorem bag_update {k : K} {l : List V} (h : Covers keys g) (h' : Covers keys' g')
    (hg : g' = Function.update g k l) : bag keys' g' + tag k (g k) = bag keys g + tag k l := by
  refine Multiset.ext.mpr fun ⟨k', v⟩ => ?_
  rw [Multiset.count_add, Multiset.count_add, h.count, h'.count, count_tag, count_tag, hg]
  by_cases e : k' = k
  · subst e
    rw [Function.update_self, if_pos rfl, if_pos rfl, Nat.add_comm]
  · rw [Function.update_of_ne e, if_neg e, if_neg e]

end

end Tally
