import Mathlib.Data.List.Infix
import Mathlib.Logic.Relation

/-!
# The postorder of an acyclic graph

`inputs n` are the nodes below `n`; `rank` falls along every edge.

* `Reaches inputs a b`  there is a path from `a` down to `b`;
* `visit`               a depth-first visit that appends each node behind its inputs, once;
* `Sorted inputs l`     the nodes of `l` are different, and each stands behind its inputs;
* `visit_spec`          a visit keeps `Sorted`, and adds what is reached;
* `Follows.foldl`       a program with marks of its own lists the nodes in this order.
-/

set_option linter.unusedSectionVars false

namespace Postorder
variable {N : Type*} [DecidableEq N] {inputs : N → List N} {rank : N → ℕ} {l ns : List N} {n m : N}

def Reaches (inputs : N → List N) : N → N → Prop := Relation.ReflTransGen fun a b => b ∈ inputs a

theorem reaches_iff : Reaches inputs n m ↔ n = m ∨ ∃ y ∈ inputs n, Reaches inputs y m := by
  constructor
  · intro h
    rcases Relation.ReflTransGen.cases_head h with h | ⟨y, hy, h⟩
    · exact Or.inl h
    · exact Or.inr ⟨y, hy, h⟩
  · intro h
    rcases h with rfl | ⟨y, hy, h⟩
    · exact Relation.ReflTransGen.refl
    · exact Relation.ReflTransGen.head hy h

/-- a node without inputs reaches itself only -/
theorem Reaches.eq_of_nil (h : Reaches inputs n m) (hn : inputs n = []) : n = m := by
  rcases reaches_iff.mp h with h | ⟨y, hy, -⟩
  · exact h
  · rw [hn] at hy
    cases hy

theorem Reaches.rank_le (hr : ∀ n, ∀ y ∈ inputs n, rank y < rank n) (h : Reaches inputs n m) :
    rank m ≤ rank n := by
  induction h with
  | refl => exact Nat.le_refl _
  | tail _ hy ih => exact Nat.le_trans (Nat.le_of_lt (hr _ _ hy)) ih

/-- no node is below one of its inputs -/
theorem not_reaches_input (hr : ∀ n, ∀ y ∈ inputs n, rank y < rank n) (hy : m ∈ inputs n) :
    ¬ Reaches inputs m n := by
  intro h
  have h1 := h.rank_le hr
  have h2 := hr n m hy
  omega

structure Sorted (inputs : N → List N) (l : List N) : Prop where
  nodup : l.Nodup
  before : ∀ a x b, l = a ++ x :: b → ∀ y ∈ inputs x, y ∈ a

theorem Sorted.nil : Sorted inputs ([] : List N) where
  nodup := List.nodup_nil
  before a x b h := by
    cases a with
    | nil => cases h
    | cons _ _ => cases h

/-- a sorted list has all that its nodes reach; so has every part of it from the beginning -/
theorem closed_of_before (hb : ∀ a x b, l = a ++ x :: b → ∀ y ∈ inputs x, y ∈ a) {p : List N}
    (hp : p <+: l) (hn : n ∈ p) (h : Reaches inputs n m) : m ∈ p := by
  induction h with
  | refl => exact hn
  | tail _ hy ih =>
    obtain ⟨a, b, rfl⟩ := List.append_of_mem ih
    obtain ⟨c, rfl⟩ := hp
    have ha := hb a _ (b ++ c) (by rw [List.append_assoc, List.cons_append]) _ hy
    exact List.mem_append_left _ ha

theorem Sorted.closed (hs : Sorted inputs l) (hn : n ∈ l) (h : Reaches inputs n m) : m ∈ l :=
  closed_of_before hs.before (List.prefix_refl l) hn h

theorem Sorted.snoc (hs : Sorted inputs l) (hn : n ∉ l) (hi : ∀ y ∈ inputs n, y ∈ l) :
    Sorted inputs (l ++ [n]) where
  nodup := by
    refine List.nodup_append.mpr ⟨hs.nodup, List.pairwise_singleton _ n, fun a ha b hb hab => ?_⟩
    rw [List.mem_singleton.mp hb] at hab
    exact hn (hab ▸ ha)
  before a x b h y hy := by
    rcases List.eq_nil_or_concat b with rfl | ⟨b', z, rfl⟩
    · obtain ⟨rfl, hx⟩ := List.append_inj' h rfl
      obtain rfl := (List.cons.inj hx).1
      exact hi y hy
    · have h' : l ++ [n] = (a ++ x :: b') ++ [z] := by
        rw [h, List.append_assoc, List.cons_append, List.concat_eq_append]
      obtain ⟨rfl, -⟩ := List.append_inj' h' rfl
      exact hs.before a x b' rfl y hy

/-- what a visit of `n` does to a sorted list -/
structure Adds (inputs : N → List N) (ns : List N) (l l' : List N) : Prop where
  sorted : Sorted inputs l'
  isPrefix : l <+: l'
  mem : ∀ x, x ∈ l' ↔ x ∈ l ∨ ∃ n ∈ ns, Reaches inputs n x

theorem Adds.foldl {f : List N → N → List N}
    (hf : ∀ l, ∀ n ∈ ns, Sorted inputs l → Adds inputs [n] l (f l n)) (hs : Sorted inputs l) :
    Adds inputs ns l (ns.foldl f l) := by
  induction ns generalizing l with
  | nil =>
    refine ⟨hs, List.prefix_refl l, fun x => ⟨Or.inl, fun h => h.resolve_right ?_⟩⟩
    rintro ⟨n, hn, -⟩
    cases hn
  | cons n ns ih =>
    have h1 := hf l n List.mem_cons_self hs
    have h2 := ih (fun l m hm => hf l m (List.mem_cons_of_mem n hm)) h1.sorted
    refine ⟨h2.sorted, h1.isPrefix.trans h2.isPrefix, fun x => ?_⟩
    rw [List.foldl_cons, h2.mem, h1.mem]
    simp only [List.mem_cons, List.not_mem_nil, or_false, exists_eq_left, exists_eq_or_imp, or_assoc]

/-! ## The visit -/

def visit (inputs : N → List N) : ℕ → List N → N → List N
  | 0, l, _ => l
  | fuel + 1, l, n =>
    let l' := (inputs n).foldl (visit inputs fuel) l
    if n ∈ l' then l' else l' ++ [n]

/-- by induction on the fuel: the inputs first, then the node -/
theorem visit_spec (hr : ∀ n, ∀ y ∈ inputs n, rank y < rank n) {fuel : ℕ} (hs : Sorted inputs l)
    (hn : rank n < fuel) : Adds inputs [n] l (visit inputs fuel l n) := by
  induction fuel generalizing l n with
  | zero => exact absurd hn (Nat.not_lt_zero _)
  | succ fuel ih =>
    have hi := Adds.foldl (f := visit inputs fuel) (fun l y (hy : y ∈ inputs n) hl =>
      ih hl (Nat.lt_of_lt_of_le (hr n y hy) (Nat.le_of_lt_succ hn))) hs
    have hmem : ∀ x, x ∈ l ∨ (∃ m ∈ [n], Reaches inputs m x) ↔
        x ∈ (inputs n).foldl (visit inputs fuel) l ∨ n = x := by
      intro x
      simp only [hi.mem, List.mem_singleton, exists_eq_left, reaches_iff (n := n)]
      constructor
      · intro h
        rcases h with h | h | h
        · exact Or.inl (Or.inl h)
        · exact Or.inr h
        · exact Or.inl (Or.inr h)
      · intro h
        rcases h with (h | h) | h
        · exact Or.inl h
        · exact Or.inr (Or.inr h)
        · exact Or.inr (Or.inl h)
    simp only [visit]
    split
    · next hm =>
      refine ⟨hi.sorted, hi.isPrefix, fun x => ?_⟩
      rw [hmem]
      exact ⟨Or.inl, fun h => h.elim id fun h => h ▸ hm⟩
    · next hm =>
      have hin : ∀ y ∈ inputs n, y ∈ (inputs n).foldl (visit inputs fuel) l := fun y hy =>
        (hi.mem y).mpr (Or.inr ⟨y, hy, Relation.ReflTransGen.refl⟩)
      refine ⟨hi.sorted.snoc hm hin, hi.isPrefix.trans (List.prefix_append _ _), fun x => ?_⟩
      rw [hmem, List.mem_append, List.mem_singleton, eq_comm (a := n)]

/-- what is there with all below it is not visited again -/
theorem visit_of_mem (hr : ∀ n, ∀ y ∈ inputs n, rank y < rank n) {fuel : ℕ} (hs : Sorted inputs l)
    (hf : rank n < fuel) (hn : n ∈ l) : visit inputs fuel l n = l := by
  obtain ⟨c, hc⟩ := (visit_spec hr hs hf).isPrefix
  have hnd := (visit_spec hr hs hf).sorted.nodup
  cases c with
  | nil => rw [← hc, List.append_nil]
  | cons x c =>
    have hx : x ∈ visit inputs fuel l n := hc ▸ List.mem_append_right l List.mem_cons_self
    rcases ((visit_spec hr hs hf).mem x).mp hx with hx | ⟨m, hm, hx⟩
    · rw [← hc] at hnd
      exact absurd hx (fun h => (List.nodup_append.mp hnd).2.2 x h x List.mem_cons_self rfl)
    · rw [List.mem_singleton.mp hm] at hx
      rw [← hc] at hnd
      exact absurd (hs.closed hn hx) (fun h => (List.nodup_append.mp hnd).2.2 x h x List.mem_cons_self rfl)

/-! ## Marks -/

/-- the marks of a program that has gone from the list `r.2` to `l'`: what is new is marked -/
structure Follows (r r' : (N → Bool) × List N) (l' : List N) : Prop where
  list : r'.2 = l'
  marks : ∀ x, r'.1 x = true ↔ r.1 x = true ∨ (x ∈ l' ∧ x ∉ r.2)

theorem Follows.refl (r : (N → Bool) × List N) : Follows r r r.2 where
  list := rfl
  marks _ := ⟨Or.inl, fun h => h.elim id fun h => absurd h.1 h.2⟩

/-- if below each of the nodes exactly the listed ones are marked, then the marks follow the list -/
theorem Follows.foldl {σ : Type*} (view : σ → (N → Bool) × List N) {f : σ → N → σ} {s : σ}
    {v : List N → N → List N} (hv : ∀ l, ∀ n ∈ ns, Sorted inputs l → Adds inputs [n] l (v l n))
    (hf : ∀ s, ∀ n ∈ ns, Sorted inputs (view s).2 →
      (∀ x, Reaches inputs n x → ((view s).1 x = true ↔ x ∈ (view s).2)) →
      Follows (view s) (view (f s n)) (v (view s).2 n))
    (hs : Sorted inputs (view s).2)
    (hm : ∀ n ∈ ns, ∀ x, Reaches inputs n x → ((view s).1 x = true ↔ x ∈ (view s).2)) :
    Follows (view s) (view (ns.foldl f s)) (ns.foldl v (view s).2) := by
  induction ns generalizing s with
  | nil => exact Follows.refl (view s)
  | cons n ns ih =>
    have hadd := hv (view s).2 n List.mem_cons_self hs
    have h1 := hf s n List.mem_cons_self hs (hm n List.mem_cons_self)
    have hsub := (Adds.foldl (fun l m hm => hv l m (List.mem_cons_of_mem n hm)) hadd.sorted).isPrefix
    have h2 := ih (s := f s n) (fun l m hm => hv l m (List.mem_cons_of_mem n hm))
      (fun s m hm => hf s m (List.mem_cons_of_mem n hm)) (by rw [h1.list]; exact hadd.sorted)
      fun m hm' x hx => by
        rw [h1.marks, h1.list, hm m (List.mem_cons_of_mem n hm') x hx]
        constructor
        · intro h
          exact h.elim (fun h => hadd.isPrefix.subset h) And.left
        · intro h
          by_cases hx : x ∈ (view s).2
          · exact Or.inl hx
          · exact Or.inr ⟨h, hx⟩
    rw [h1.list] at h2
    refine ⟨h2.list, fun x => ?_⟩
    rw [List.foldl_cons, h2.marks, h1.marks, h1.list]
    constructor
    · intro h
      rcases h with (h | h) | h
      · exact Or.inl h
      · exact Or.inr ⟨hsub.subset h.1, h.2⟩
      · exact Or.inr ⟨h.1, fun hx => h.2 (hadd.isPrefix.subset hx)⟩
    · intro h
      rcases h with h | h
      · exact Or.inl (Or.inl h)
      · by_cases hx : x ∈ v (view s).2 n
        · exact Or.inl (Or.inr ⟨hx, h.2⟩)
        · exact Or.inr ⟨h.1, hx⟩

end Postorder
