import Mathlib.Data.Multiset.AddSub
import Mathlib.Data.Multiset.ZeroCons
import Mathlib.Algebra.Order.Group.Multiset

/-!
# Cells with owners

A memory of cells whose addresses are never used twice.

* `alloc`, `free`, `store`   the three ways to change it; the last two fail on a dead cell;
* `Owned m s`               `s` lists the live cells of `m`, each once;
* `Same r m m'`             nothing happened to the cells of `r`;
* `Owned.free`               what is owned once is freed once, and `dead_of_owned_zero` what is
                             left when nothing is owned.
-/

structure Cells (β : Type*) where
  cell : ℕ → Option β
  next : ℕ
  fresh : ∀ p, next ≤ p → cell p = none

namespace Cells
variable {β : Type*} {m m' m'' : Cells β} {p q : ℕ} {v w : β} {r s : Multiset ℕ}

def empty : Cells β := ⟨fun _ => none, 0, fun _ _ => rfl⟩

def write (m : Cells β) (p : ℕ) (o : Option β) (hp : p < m.next) : Cells β where
  cell := Function.update m.cell p o
  next := m.next
  fresh q hq := by
    rw [Function.update_of_ne (by omega)]
    exact m.fresh q hq

def alloc (m : Cells β) (v : β) : Cells β where
  cell := Function.update m.cell m.next (some v)
  next := m.next + 1
  fresh q hq := by
    rw [Function.update_of_ne (by omega)]
    exact m.fresh q (by omega)

def free (m : Cells β) (p : ℕ) : Option (Cells β) :=
  if h : p < m.next then (m.cell p).map fun _ => m.write p none h else none

def store (m : Cells β) (p : ℕ) (v : β) : Option (Cells β) :=
  if h : p < m.next then (m.cell p).map fun _ => m.write p (some v) h else none

def Live (m : Cells β) (p : ℕ) : Prop := m.cell p ≠ none

theorem Live.lt (h : m.Live p) : p < m.next := by
  by_contra hp
  exact h (m.fresh p (not_lt.mp hp))

theorem Live.exists (h : m.Live p) : ∃ v, m.cell p = some v := Option.ne_none_iff_exists'.mp h

theorem alloc_cell_next (m : Cells β) (v : β) : (m.alloc v).cell m.next = some v :=
  Function.update_self ..

theorem alloc_cell_of_ne (hp : p ≠ m.next) : (m.alloc v).cell p = m.cell p :=
  Function.update_of_ne hp _ _

theorem alloc_cell_of_live (h : m.Live p) : (m.alloc v).cell p = m.cell p :=
  alloc_cell_of_ne h.lt.ne

theorem free_spec (h : m.Live p) : ∃ m', m.free p = some m' ∧ m'.cell = Function.update m.cell p none := by
  obtain ⟨v, hv⟩ := h.exists
  refine ⟨m.write p none h.lt, ?_, rfl⟩
  rw [free, dif_pos h.lt, hv]
  rfl

theorem store_spec (h : m.Live p) (v : β) :
    ∃ m', m.store p v = some m' ∧ m'.cell = Function.update m.cell p (some v) := by
  obtain ⟨u, hu⟩ := h.exists
  refine ⟨m.write p (some v) h.lt, ?_, rfl⟩
  rw [store, dif_pos h.lt, hu]
  rfl

/-! ## what is left alone -/

def Same (r : Multiset ℕ) (m m' : Cells β) : Prop := ∀ p ∈ r, m'.cell p = m.cell p

theorem Same.refl (r : Multiset ℕ) (m : Cells β) : Same r m m := fun _ _ => rfl

theorem Same.trans (h : Same r m m') (h' : Same r m' m'') : Same r m m'' :=
  fun p hp => (h' p hp).trans (h p hp)

theorem Same.mono (h : Same r m m') (hs : ∀ p ∈ s, p ∈ r) : Same s m m' :=
  fun p hp => h p (hs p hp)

/-! ## what is owned -/

structure Owned (m : Cells β) (s : Multiset ℕ) : Prop where
  nodup : s.Nodup
  live : ∀ p, p ∈ s ↔ m.Live p

theorem owned_empty : Owned (empty : Cells β) 0 :=
  ⟨Multiset.nodup_zero, fun p => ⟨fun h => absurd h (Multiset.notMem_zero p), fun h => absurd rfl h⟩⟩

theorem dead_of_owned_zero (h : Owned m 0) : ∀ p, m.cell p = none :=
  fun p => not_not.mp fun hp => Multiset.notMem_zero p ((h.live p).mpr hp)

theorem Owned.alloc (h : Owned m s) (v : β) : Owned (m.alloc v) (m.next ::ₘ s) := by
  refine ⟨Multiset.nodup_cons.mpr ⟨fun hm => ?_, h.nodup⟩, fun p => ?_⟩
  · exact absurd ((h.live _).mp hm).lt (lt_irrefl _)
  · rw [Multiset.mem_cons, Live]
    by_cases hp : p = m.next
    · rw [hp, alloc_cell_next]
      simp
    · rw [h.live p, alloc_cell_of_ne hp, or_iff_right hp, Live]

theorem Owned.same_alloc (h : Owned m s) (hr : ∀ p ∈ r, p ∈ s) (v : β) : Same r m (m.alloc v) :=
  fun p hp => alloc_cell_of_live ((h.live p).mp (hr p hp))

theorem Owned.free (h : Owned m (p ::ₘ s)) :
    ∃ m', m.free p = some m' ∧ Owned m' s ∧ Same s m m' := by
  obtain ⟨hnot, hs⟩ := Multiset.nodup_cons.mp h.nodup
  obtain ⟨m', hm', hcell⟩ := free_spec ((h.live p).mp (Multiset.mem_cons_self p s))
  have hne : ∀ q ≠ p, m'.cell q = m.cell q := fun q hq => by rw [hcell, Function.update_of_ne hq]
  refine ⟨m', hm', ⟨hs, fun q => ?_⟩, fun q hq => hne q fun e => hnot (e ▸ hq)⟩
  by_cases hq : q = p
  · rw [Live, hq, hcell, Function.update_self]
    simp [hnot]
  · rw [Live, hne q hq]
    exact ⟨fun hm => (h.live q).mp (Multiset.mem_cons_of_mem hm),
      fun hl => (Multiset.mem_cons.mp ((h.live q).mpr hl)).resolve_left hq⟩

theorem Owned.store (h : Owned m s) (hp : p ∈ s) (v : β) :
    ∃ m', m.store p v = some m' ∧ Owned m' s ∧ m'.cell p = some v ∧
      ∀ q ≠ p, m'.cell q = m.cell q := by
  obtain ⟨m', hm', hcell⟩ := store_spec ((h.live p).mp hp) v
  have hne : ∀ q ≠ p, m'.cell q = m.cell q := fun q hq => by rw [hcell, Function.update_of_ne hq]
  have hself : m'.cell p = some v := by rw [hcell, Function.update_self]
  refine ⟨m', hm', ⟨h.nodup, fun q => ?_⟩, hself, hne⟩
  by_cases hq : q = p
  · rw [Live, hq, hself]
    simp [hp]
  · rw [Live, hne q hq]
    exact h.live q

end Cells
