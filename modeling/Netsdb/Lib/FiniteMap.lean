import Mathlib.Data.List.Perm.Basic

/-!
# Finite maps as association lists

Keys are compared with `==`, and no two keys of a list are equal.

* `enter`     a key that is not there comes in, with a given value;
* `assign`    the value of a key that is there is replaced;
* `put`       either of the two;
* `Distinct`  what both keep.
-/

namespace FiniteMap
variable {K V : Type*} [BEq K] {l l' : List (K × V)} {k : K} {v : V}

def Has (l : List (K × V)) (k : K) : Prop := ∃ e ∈ l, (e.1 == k) = true

instance (l : List (K × V)) (k : K) : Decidable (Has l k) :=
  inferInstanceAs (Decidable (∃ e ∈ l, (e.1 == k) = true))

/-- no two keys are equal -/
def Distinct (l : List (K × V)) : Prop := l.Pairwise fun e e' => (e.1 == e'.1) = false

def enter (l : List (K × V)) (k : K) (v : V) : List (K × V) := if Has l k then l else l ++ [(k, v)]

def assign (l : List (K × V)) (k : K) (v : V) : List (K × V) :=
  l.map fun e => if e.1 == k then (e.1, v) else e

/-- the key comes in, or its value is replaced -/
def put : List (K × V) → K → V → List (K × V)
  | [], k, v => [(k, v)]
  | e :: l, k, v => if e.1 == k then (k, v) :: l else e :: put l k v

theorem Has.perm (hp : l.Perm l') (h : Has l k) : Has l' k := by
  obtain ⟨e, he, hk⟩ := h
  exact ⟨e, hp.mem_iff.mp he, hk⟩

theorem has_perm (hp : l.Perm l') : Has l k ↔ Has l' k := ⟨Has.perm hp, Has.perm hp.symm⟩

section
variable [EquivBEq K]

theorem Distinct.perm (hp : l.Perm l') (h : Distinct l) : Distinct l' :=
  hp.pairwise h fun hab => by rw [BEq.comm]; exact hab

/-- a key has one entry -/
theorem Distinct.eq_of_mem (h : Distinct l) {e e' : K × V} (he : e ∈ l) (he' : e' ∈ l)
    (hk : (e.1 == e'.1) = true) : e = e' := by
  induction l with
  | nil => cases he
  | cons x l ih =>
    obtain ⟨hx, hl⟩ := List.pairwise_cons.mp h
    rcases List.mem_cons.mp he with rfl | hel
    · rcases List.mem_cons.mp he' with rfl | hel'
      · rfl
      · rw [hx e' hel'] at hk
        cases hk
    · rcases List.mem_cons.mp he' with rfl | hel'
      · have hx' := hx e hel
        rw [BEq.comm, hk] at hx'
        cases hx'
      · exact ih hl hel hel'

/-- an entry and the rest: no other entry has its key -/
theorem Distinct.tail {e : K × V} (h : Distinct (e :: l)) : Distinct l ∧ ¬ Has l e.1 := by
  obtain ⟨he, hl⟩ := List.pairwise_cons.mp h
  refine ⟨hl, fun ⟨e', he', hk⟩ => ?_⟩
  rw [BEq.comm, he e' he'] at hk
  cases hk

/-- what is left without the entry of a key -/
theorem perm_of_cons {e e' : K × V} {x y : List (K × V)} (h : Distinct l) (hx : l.Perm (e :: x))
    (hy : l.Perm (e' :: y)) (hk : (e.1 == e'.1) = true) : x.Perm y := by
  have he : e ∈ l := hx.mem_iff.mpr List.mem_cons_self
  have he' : e' ∈ l := hy.mem_iff.mpr List.mem_cons_self
  obtain rfl := h.eq_of_mem he he' hk
  exact (hx.symm.trans hy).cons_inv

end

/-- an entry's key is not there before it -/
theorem Distinct.not_has {e : K × V} {l' : List (K × V)} (h : Distinct (l ++ e :: l')) :
    ¬ Has l e.1 := by
  rintro ⟨x, hx, hk⟩
  rw [(List.pairwise_append.mp h).2.2 x hx e List.mem_cons_self] at hk
  cases hk

theorem Distinct.enter (h : Distinct l) (k : K) (v : V) : Distinct (enter l k v) := by
  unfold FiniteMap.enter
  split
  · exact h
  · next hn =>
    refine List.pairwise_append.mpr ⟨h, List.pairwise_singleton _ _, fun e he e' he' => ?_⟩
    rw [List.mem_singleton.mp he']
    cases hk : e.1 == k with
    | false => rfl
    | true => exact absurd ⟨e, he, hk⟩ hn

theorem assign_fst (e : K × V) : (if e.1 == k then (e.1, v) else e).1 = e.1 := by
  split <;> rfl

theorem Distinct.assign (h : Distinct l) (k : K) (v : V) : Distinct (assign l k v) := by
  refine List.pairwise_map.mpr (h.imp fun hab => ?_)
  rw [assign_fst, assign_fst]
  exact hab

theorem assign_perm (hp : l.Perm l') (k : K) (v : V) : (assign l k v).Perm (assign l' k v) :=
  hp.map _

theorem assign_cons (e : K × V) (l : List (K × V)) :
    assign (e :: l) k v = (if e.1 == k then (e.1, v) else e) :: assign l k v := rfl

/-- the entries behind an assignment -/
theorem mem_assign [LawfulBEq K] {x : K} {w : V} :
    (x, w) ∈ assign l k v ↔ (x = k ∧ w = v ∧ Has l k) ∨ (x ≠ k ∧ (x, w) ∈ l) := by
  unfold assign Has
  rw [List.mem_map]
  constructor
  · rintro ⟨e, he, hxw⟩
    by_cases hk : (e.1 == k) = true
    · rw [if_pos hk] at hxw
      obtain ⟨rfl, rfl⟩ := Prod.mk.inj hxw
      exact .inl ⟨eq_of_beq hk, rfl, e, he, hk⟩
    · rw [if_neg hk] at hxw
      subst hxw
      exact .inr ⟨fun heq => hk (beq_iff_eq.mpr heq), he⟩
  · rintro (⟨rfl, rfl, e, he, hk⟩ | ⟨hne, he⟩)
    · refine ⟨e, he, ?_⟩
      rw [if_pos hk, eq_of_beq hk]
    · exact ⟨(x, w), he, if_neg fun hk => hne (eq_of_beq hk)⟩

/-- a key that is not there is not assigned -/
theorem assign_of_not_has (h : ¬ Has l k) : assign l k v = l := by
  refine (List.map_congr_left fun e he => ?_).trans (List.map_id l)
  rw [if_neg fun hk => h ⟨e, he, hk⟩]
  rfl

theorem lookup_entry (e : K × V) (l : List (K × V)) (x : K) :
    (e :: l).lookup x = if x == e.1 then some e.2 else l.lookup x := by
  rw [List.lookup_cons]
  cases x == e.1 <;> rfl

theorem lookup_put [LawfulBEq K] (l : List (K × V)) (k x : K) (v : V) :
    (put l k v).lookup x = if x == k then some v else l.lookup x := by
  induction l with
  | nil => rw [put, lookup_entry]
  | cons e l ih =>
    rw [put]
    by_cases hk : (e.1 == k) = true
    · rw [if_pos hk, lookup_entry, lookup_entry, eq_of_beq hk]
      split <;> rfl
    · rw [if_neg hk, lookup_entry, lookup_entry, ih]
      by_cases hx : (x == e.1) = true
      · rw [if_pos hx, if_neg fun h => hk (by rw [← eq_of_beq hx]; exact h), if_pos hx]
      · rw [if_neg hx, if_neg hx]

end FiniteMap
