import Netsdb.Lib.FiniteMap
import Mathlib.Algebra.Group.WithOne.Defs
import Mathlib.Algebra.BigOperators.Group.List.Basic

/-!
# What the entries of a key add up to

The values of a type with an addition, which need not have a zero: no value at all is `0` in
`WithZero V`.

* `keySum`          the values of the entries of a key, added up in the order of the list;
* `keySum_perm`     the order does not matter in a finite map;
* `keySum_enter`, `keySum_assign`  a value added to the entry of a key.
-/

set_option linter.unusedSectionVars false

namespace FiniteMap
variable {K V : Type*} [BEq K] [AddSemigroup V] {l l' : List (K × V)} {k k' : K} {v w : V}

/-- the value of an entry, if it is an entry of `k` -/
def single (k : K) (e : K × V) : WithZero V := if e.1 == k then (e.2 : WithZero V) else 0

def keySum (k : K) (l : List (K × V)) : WithZero V := (l.map (single k)).sum

@[simp] theorem keySum_nil (k : K) : keySum k ([] : List (K × V)) = 0 := rfl

theorem keySum_cons (k : K) (e : K × V) (l : List (K × V)) :
    keySum k (e :: l) = single k e + keySum k l := List.sum_cons

theorem keySum_singleton (k : K) (e : K × V) : keySum k [e] = single k e := by
  rw [keySum_cons, keySum_nil, add_zero]

theorem keySum_append (k : K) (l l' : List (K × V)) :
    keySum k (l ++ l') = keySum k l + keySum k l' := by
  rw [keySum, List.map_append, List.sum_append]
  rfl

theorem single_of_ne {e : K × V} (h : ¬ (e.1 == k) = true) : single k e = 0 := if_neg h

/-- a sum in which there is a value is a value -/
theorem sum_eq_zero {l : List (WithZero V)} : l.sum = 0 ↔ ∀ x ∈ l, x = 0 := by
  induction l with
  | nil => simp
  | cons x l ih =>
    rw [List.sum_cons, List.forall_mem_cons, ← ih]
    induction x using WithZero.recZeroCoe with
    | zero => rw [zero_add, eq_self_iff_true, true_and]
    | coe v =>
      refine iff_of_false ?_ fun h => WithZero.coe_ne_zero h.1
      generalize l.sum = y
      induction y using WithZero.recZeroCoe with
      | zero =>
        rw [add_zero]
        exact WithZero.coe_ne_zero
      | coe w => exact WithZero.coe_ne_zero

theorem keySum_eq_zero : keySum k l = 0 ↔ ¬ Has l k := by
  rw [keySum, sum_eq_zero, List.forall_mem_map]
  constructor
  · rintro h ⟨e, he, hk⟩
    have hz := h e he
    rw [single, if_pos hk] at hz
    exact WithZero.coe_ne_zero hz
  · intro h e he
    exact single_of_ne fun hk => h ⟨e, he, hk⟩

theorem keySum_of_not_has (h : ¬ Has l k) : keySum k l = 0 := keySum_eq_zero.mpr h

variable [EquivBEq K]

/-- two entries of different keys can be added in any order -/
theorem single_add_comm {e e' : K × V} (h : (e.1 == e'.1) = false) (k : K) :
    single k e + single k e' = single k e' + single k e := by
  by_cases he : (e.1 == k) = true
  · have he' : ¬ (e'.1 == k) = true := fun hk => by
      rw [BEq.trans he (BEq.symm hk)] at h
      cases h
    rw [single_of_ne he', add_zero, zero_add]
  · rw [single_of_ne he, zero_add, add_zero]

theorem keySum_perm (hp : l.Perm l') (h : Distinct l) (k : K) : keySum k l = keySum k l' := by
  induction hp with
  | nil => rfl
  | cons e hp ih =>
    rw [keySum_cons, keySum_cons, ih h.tail.1]
  | swap e e' l =>
    obtain ⟨hne, -⟩ := List.pairwise_cons.mp h
    rw [keySum_cons, keySum_cons, keySum_cons, keySum_cons, ← add_assoc, ← add_assoc,
      single_add_comm (hne e List.mem_cons_self)]
  | trans hp _ ih ih' => exact (ih h).trans (ih' (h.perm hp))

/-- an entry of a new key -/
theorem keySum_enter (h : Distinct l) (hp : l'.Perm ((k, v) :: l)) (hk : ¬ Has l k) (k' : K) :
    keySum k' l' = keySum k' l + single k' (k, v) := by
  have hd : Distinct ((k, v) :: l) := by
    refine List.pairwise_cons.mpr ⟨fun e he => ?_, h⟩
    cases hke : k == e.1 with
    | false => rfl
    | true => exact absurd ⟨e, he, BEq.symm hke⟩ hk
  rw [keySum_perm hp (hd.perm hp.symm), keySum_cons]
  by_cases hkk : (k == k') = true
  · have hno : ¬ Has l k' := fun ⟨e, he, hke⟩ => hk ⟨e, he, BEq.trans hke (BEq.symm hkk)⟩
    rw [keySum_of_not_has hno, add_zero, zero_add]
  · rw [single_of_ne hkk, zero_add, add_zero]

/-- a value added to the entry of a key -/
theorem keySum_assign (h : Distinct l) (he : (k, v) ∈ l) (hk : (k == k') = true) (w : V) (k'' : K) :
    keySum k'' (assign l k' (v + w)) = keySum k'' l + single k'' (k', w) := by
  induction l with
  | nil => cases he
  | cons e l ih =>
    obtain ⟨hl, hno⟩ := h.tail
    rw [assign_cons, keySum_cons, keySum_cons]
    rcases List.mem_cons.mp he with rfl | he
    · have hno' : ¬ Has l k' := fun ⟨e, he, hke⟩ => hno ⟨e, he, BEq.trans hke (BEq.symm hk)⟩
      rw [if_pos hk, assign_of_not_has hno']
      by_cases hkk : (k == k'') = true
      · have hno'' : ¬ Has l k'' := fun ⟨e, he, hke⟩ => hno ⟨e, he, BEq.trans hke (BEq.symm hkk)⟩
        have hkk' : (k' == k'') = true := BEq.trans (BEq.symm hk) hkk
        rw [keySum_of_not_has hno'', add_zero, add_zero, single, single, single, if_pos hkk,
          if_pos hkk, if_pos hkk', WithZero.coe_add]
      · have hkk' : ¬ (k' == k'') = true := fun hh => hkk (BEq.trans hk hh)
        rw [single_of_ne hkk, single_of_ne hkk, single_of_ne hkk', add_zero]
    · have hne : ¬ (e.1 == k') = true := fun hek =>
        hno ⟨(k, v), he, BEq.trans hk (BEq.symm hek)⟩
      rw [if_neg hne, ih hl he, add_assoc]

end FiniteMap
