import Mathlib.Data.Multiset.AddSub
import Mathlib.Data.Multiset.ZeroCons
import Mathlib.Algebra.Order.Group.Multiset
import Netsdb.Lib.OwnedCells

/-!
# The pages of a partitioned hash set (`PartitionedHashSet.h`)

* `addPage`        a page, or after a failed allocation smaller pages: all pages are freed, as many are
                   added again, and the allocation is tried once more;
* `cleanup`        frees the pages, once: it leaves them on the list and sets the flag for good;
* `addPage_ok`, `addPage_fails`   a page more; or the flag is set and a page lives that nobody frees;
* `pages_iff`      so the pages are kept exactly when no allocation fails.
-/

set_option linter.unusedSectionVars false

namespace Netsdb

structure PartitionedHashSet where
  pageSize : ℕ
  /-- `partitionPages`, by their addresses -/
  pages : List ℕ
  partitionStatus : List Bool
  isCleaned : Bool
  /-- the heap, with the size of each block -/
  mem : Cells ℕ
  /-- which of the next allocations fail; past its end none does -/
  pattern : List Bool

namespace PartitionedHashSet

/-- a number as a `double`: 53 bits, and ties go to the even -/
def toDouble (n : ℕ) : ℕ :=
  let e := n.log2 - 52
  let q := n / 2 ^ e
  let r := n % 2 ^ e
  (if 2 ^ e < 2 * r ∨ (2 ^ e = 2 * r ∧ q % 2 = 1) then q + 1 else q) * 2 ^ e

/-- `pageSize * 0.75` -/
def shrink (pageSize : ℕ) : ℕ := toDouble (3 * toDouble pageSize) / 4

example : shrink 1001 = 750 := by decide

/-- the constructor -/
def ofSize (pageSize : ℕ) (pattern : List Bool) : PartitionedHashSet :=
  { pageSize, pages := [], partitionStatus := [], isCleaned := false, mem := .empty, pattern }

def getNumPages (s : PartitionedHashSet) : ℕ := s.pages.length

/-- `none` is the null pointer; a page is handed out once, unless the caller takes it `anyway` -/
def getPage (s : PartitionedHashSet) (partitionId : ℕ) (anyway : Bool) :
    Option ℕ × PartitionedHashSet :=
  match s.pages[partitionId]? with
  | none => (none, s)
  | some page =>
    if s.partitionStatus[partitionId]? = some true ∧ anyway = false then (none, s)
    else (some page, { s with partitionStatus := s.partitionStatus.set partitionId true })

/-- `none` when a page is freed that is not there -/
def cleanup (s : PartitionedHashSet) : Option PartitionedHashSet :=
  if s.isCleaned then some s
  else (s.pages.foldlM Cells.free s.mem).map fun mem => { s with mem, isCleaned := true }

/-- the destructor -/
def destroy (s : PartitionedHashSet) : Option PartitionedHashSet :=
  if s.isCleaned = false then s.cleanup else some s

/-- a block of the page size -/
def calloc (s : PartitionedHashSet) : Option ℕ × PartitionedHashSet :=
  match s.pattern with
  | true :: pattern => (none, { s with pattern })
  | _ => (some s.mem.next, { s with mem := s.mem.alloc s.pageSize, pattern := s.pattern.tail })

/-- a loop over the pages to add again -/
def addPages (add : PartitionedHashSet → Option (ℕ × PartitionedHashSet)) :
    ℕ → PartitionedHashSet → Option PartitionedHashSet
  | 0, s => some s
  | n + 1, s => (add s).bind fun r => addPages add n r.2

/-- the `while` loop, from the allocation that it tests -/
def callocLoop (add : PartitionedHashSet → Option (ℕ × PartitionedHashSet)) :
    ℕ → PartitionedHashSet → Option (ℕ × PartitionedHashSet)
  | 0, _ => none
  | n + 1, s =>
    match s.calloc with
    | (some block, s) => some (block, s)
    | (none, s) =>
      (cleanup { s with pageSize := shrink s.pageSize }).bind fun s₁ =>
        (addPages add s.pages.length s₁).bind (callocLoop add n)

def pushPage (r : ℕ × PartitionedHashSet) : ℕ × PartitionedHashSet :=
  (r.1, { r.2 with pages := r.2.pages ++ [r.1]
                   partitionStatus := r.2.partitionStatus ++ [false] })

/-- `none` when the fuel is out -/
def addPage : ℕ → PartitionedHashSet → Option (ℕ × PartitionedHashSet)
  | 0, _ => none
  | fuel + 1, s => (callocLoop (addPage fuel) (fuel + 1) s).map pushPage

inductive Op
  | addPage
  | getPage (partitionId : ℕ) (anyway : Bool)
  | getNumPages
deriving DecidableEq

def step (fuel : ℕ) (s : PartitionedHashSet) : Op → Option PartitionedHashSet
  | .addPage => (addPage fuel s).map Prod.snd
  | .getPage partitionId anyway => some (s.getPage partitionId anyway).2
  | .getNumPages => some s

def run (fuel : ℕ) (s : PartitionedHashSet) (ops : List Op) : Option PartitionedHashSet :=
  ops.foldlM (step fuel) s

/-- the listed pages are live, distinct, and no smaller than the recorded size -/
structure Kept (s : PartitionedHashSet) : Prop where
  nodup : s.pages.Nodup
  live : ∀ p ∈ s.pages, ∃ size, s.mem.cell p = some size ∧ s.pageSize ≤ size

/-- what the pages of a set owe to its callers, over a whole life -/
structure PagesKept (fuel : ℕ) (s : PartitionedHashSet) (ops : List Op) : Prop where
  addPage : ∀ pre post s₁ r, ops = pre ++ .addPage :: post → run fuel s pre = some s₁ →
    addPage fuel s₁ = some r → r.2.getNumPages = s₁.getNumPages + 1 ∧ r.2.Kept
  getPage : ∀ pre post s₁, ops = pre ++ post → run fuel s pre = some s₁ →
    ∀ i < s₁.getNumPages, ∀ anyway p, (s₁.getPage i anyway).1 = some p → s₁.mem.Live p
  destroy : ∀ s₁ s₂, run fuel s ops = some s₁ → s₁.destroy = some s₂ → ∀ p, ¬ s₂.mem.Live p

section
variable {s s' : PartitionedHashSet} {r : ℕ × PartitionedHashSet} {fuel n p : ℕ}

/-! ## without a failed allocation -/

/-- every page is on the list, and has the recorded size -/
structure Tidy (s : PartitionedHashSet) : Prop where
  notCleaned : s.isCleaned = false
  owned : s.mem.Owned s.pages
  size : ∀ p ∈ s.pages, s.mem.cell p = some s.pageSize

theorem Tidy.kept (h : s.Tidy) : s.Kept :=
  ⟨h.owned.nodup, fun p hp => ⟨_, h.size p hp, le_rfl⟩⟩

theorem Tidy.live (h : s.Tidy) (hp : p ∈ s.pages) : s.mem.Live p := (h.owned.live p).mp hp

theorem tidy_ofSize (pageSize : ℕ) (pattern : List Bool) : (ofSize pageSize pattern).Tidy where
  notCleaned := rfl
  owned := Cells.owned_empty
  size _ hp := absurd hp List.not_mem_nil

/-- one page more, and nothing else -/
def added (s : PartitionedHashSet) : PartitionedHashSet :=
  { s with
    pages := s.pages ++ [s.mem.next]
    partitionStatus := s.partitionStatus ++ [false]
    mem := s.mem.alloc s.pageSize
    pattern := s.pattern.tail }

theorem calloc_ok (h : s.pattern.head? ≠ some true) : s.calloc =
    (some s.mem.next, { s with mem := s.mem.alloc s.pageSize, pattern := s.pattern.tail }) := by
  unfold calloc
  split
  · next hp => exact absurd (by rw [hp]; rfl) h
  · rfl

theorem addPage_ok (h : s.pattern.head? ≠ some true) :
    addPage (fuel + 1) s = some (s.mem.next, s.added) := by
  rw [addPage, callocLoop, calloc_ok h]
  rfl

theorem Tidy.added (h : s.Tidy) : s.added.Tidy where
  notCleaned := h.notCleaned
  owned := by
    have ho := h.owned.alloc s.pageSize
    rw [← Multiset.singleton_add, add_comm] at ho
    exact ho
  size p hp := by
    obtain hp | hp := List.mem_append.mp hp
    · exact (Cells.alloc_cell_of_live (h.live hp)).trans (h.size p hp)
    · obtain rfl := List.mem_singleton.mp hp
      exact Cells.alloc_cell_next ..

theorem Tidy.getPage (h : s.Tidy) (i : ℕ) (anyway : Bool) : (s.getPage i anyway).2.Tidy := by
  unfold PartitionedHashSet.getPage
  split
  · exact h
  · split
    · exact h
    · exact ⟨h.notCleaned, h.owned, h.size⟩

theorem getPage_mem (h : (s.getPage n b).1 = some p) : p ∈ s.pages := by
  unfold PartitionedHashSet.getPage at h
  split at h
  · cases h
  · next page hp =>
    split at h
    · cases h
    · cases h
      exact List.mem_of_getElem? hp

theorem getPage_pattern (i : ℕ) (anyway : Bool) : (s.getPage i anyway).2.pattern = s.pattern := by
  unfold PartitionedHashSet.getPage
  split
  · rfl
  · split <;> rfl

/-- all that is owned can be freed -/
theorem free_all {m : Cells ℕ} {l : List ℕ} (h : m.Owned l) :
    ∃ m', l.foldlM Cells.free m = some m' ∧ m'.Owned 0 := by
  induction l generalizing m with
  | nil => exact ⟨m, rfl, h⟩
  | cons p l ih =>
    obtain ⟨m₁, h₁, ho, -⟩ := Cells.Owned.free (p := p) (s := (l : Multiset ℕ)) h
    obtain ⟨m', hm', ho'⟩ := ih ho
    refine ⟨m', ?_, ho'⟩
    rw [List.foldlM_cons, h₁]
    exact hm'

theorem cleanup_owned (hs : s.isCleaned = false) (ho : s.mem.Owned s.pages) :
    ∃ mem, s.cleanup = some { s with mem, isCleaned := true } ∧ mem.Owned 0 := by
  obtain ⟨mem, hm, ho⟩ := free_all ho
  refine ⟨mem, ?_, ho⟩
  rw [cleanup, hs, hm]
  rfl

/-! ## after one -/

/-- the flag is set and no block is freed -/
structure Cleaned (s s' : PartitionedHashSet) : Prop where
  flag : s'.isCleaned = true
  live : ∀ p, s.mem.Live p → s'.mem.Live p
  pattern : s'.pattern.length ≤ s.pattern.length

theorem Cleaned.refl (h : s.isCleaned = true) : Cleaned s s := ⟨h, fun _ hp => hp, le_rfl⟩

theorem Cleaned.trans {s'' : PartitionedHashSet} (h : Cleaned s s') (h' : Cleaned s' s'') :
    Cleaned s s'' :=
  ⟨h'.flag, fun p hp => h'.live p (h.live p hp), h'.pattern.trans h.pattern⟩

/-- a set with the flag gets a page, and nobody will free it -/
def Adds (add : PartitionedHashSet → Option (ℕ × PartitionedHashSet)) (n : ℕ) : Prop :=
  ∀ s, s.isCleaned = true → s.pattern.length ≤ n →
    ∃ p s', add s = some (p, s') ∧ Cleaned s s' ∧ s'.mem.Live p

theorem addPages_cleaned {add : PartitionedHashSet → Option (ℕ × PartitionedHashSet)}
    (ha : Adds add n) (hs : s.isCleaned = true) (hn : s.pattern.length ≤ n) (k : ℕ) :
    ∃ s', addPages add k s = some s' ∧ Cleaned s s' := by
  induction k generalizing s with
  | zero => exact ⟨s, rfl, .refl hs⟩
  | succ k ih =>
    obtain ⟨p, s₁, h₁, hc, -⟩ := ha s hs hn
    obtain ⟨s', h', hc'⟩ := ih hc.flag (hc.pattern.trans hn)
    refine ⟨s', ?_, hc.trans hc'⟩
    rw [addPages, h₁]
    exact h'

theorem live_alloc {m : Cells ℕ} (v : ℕ) (h : m.Live p) : (m.alloc v).Live p := by
  rw [Cells.Live, Cells.alloc_cell_of_live h]
  exact h

theorem live_alloc_next (m : Cells ℕ) (v : ℕ) : (m.alloc v).Live m.next := by
  rw [Cells.Live, Cells.alloc_cell_next]
  exact Option.some_ne_none v

theorem calloc_fails {rest : List Bool} (h : s.pattern = true :: rest) :
    s.calloc = (none, { s with pattern := rest }) := by
  unfold calloc
  rw [h]

/-- `cleanup` does nothing more to a set with the flag -/
theorem callocLoop_fails {add : PartitionedHashSet → Option (ℕ × PartitionedHashSet)} {k : ℕ}
    {rest : List Bool} (h : s.pattern = true :: rest)
    (hc : cleanup { s with pageSize := shrink s.pageSize, pattern := rest } = some s') :
    callocLoop add (k + 1) s = (addPages add s.pages.length s').bind (callocLoop add k) := by
  rw [callocLoop, calloc_fails h]
  show (cleanup { s with pageSize := shrink s.pageSize, pattern := rest }).bind _ = _
  rw [hc]
  rfl

theorem callocLoop_cleaned {add : PartitionedHashSet → Option (ℕ × PartitionedHashSet)} {k : ℕ}
    (ha : Adds add n) (hs : s.isCleaned = true) (hn : s.pattern.length ≤ n + 1)
    (hk : s.pattern.length < k) :
    ∃ p s', callocLoop add k s = some (p, s') ∧ Cleaned s s' ∧ s'.mem.Live p := by
  induction k generalizing s with
  | zero => exact absurd hk (Nat.not_lt_zero _)
  | succ k ih =>
    by_cases h : s.pattern.head? = some true
    · obtain ⟨rest, hr⟩ := List.head?_eq_some_iff.mp h
      rw [hr, List.length_cons] at hn hk
      rw [callocLoop_fails hr (if_pos hs)]
      obtain ⟨s₁, h₁, hc⟩ := addPages_cleaned (s := { s with pageSize := shrink s.pageSize, pattern := rest })
        ha hs (Nat.le_of_succ_le_succ hn) s.pages.length
      have hr' : s₁.pattern.length ≤ rest.length := hc.pattern
      obtain ⟨p, s', h', hc', hp⟩ := ih hc.flag (by omega) (by omega)
      refine ⟨p, s', ?_, ⟨hc'.flag, fun q hq => hc'.live q (hc.live q hq), ?_⟩, hp⟩
      · rw [h₁]
        exact h'
      · rw [hr, List.length_cons]
        exact (hc'.pattern.trans hr').trans (Nat.le_succ _)
    · rw [callocLoop, calloc_ok h]
      refine ⟨_, _, rfl, ⟨hs, fun p hp => live_alloc _ hp, ?_⟩, live_alloc_next _ _⟩
      exact List.length_tail.trans_le (Nat.sub_le _ _)

theorem adds_addPage (fuel : ℕ) : Adds (addPage (fuel + 1)) fuel := by
  induction fuel with
  | zero =>
    intro s hs hn
    have hp : s.pattern = [] := List.length_eq_zero_iff.mp (Nat.le_zero.mp hn)
    rw [addPage_ok (by rw [hp]; nofun)]
    refine ⟨_, _, rfl, ⟨hs, fun p hp => live_alloc _ hp, ?_⟩, live_alloc_next _ _⟩
    exact List.length_tail.trans_le (Nat.sub_le _ _)
  | succ fuel ih =>
    intro s hs hn
    obtain ⟨p, s', h', hc, hp⟩ := callocLoop_cleaned (k := fuel + 1 + 1) ih hs hn (Nat.lt_succ_of_le hn)
    refine ⟨p, (pushPage (p, s')).2, ?_, ⟨hc.flag, hc.live, hc.pattern⟩, hp⟩
    rw [addPage, h']
    rfl

/-- the first allocation fails: the pages are freed, and from now on nothing is -/
theorem addPage_fails (h : s.Tidy) (hf : s.pattern.length ≤ fuel) (hp : s.pattern.head? = some true) :
    ∃ p s', addPage (fuel + 1) s = some (p, s') ∧ s'.isCleaned = true ∧ s'.mem.Live p ∧
      s'.pattern.length ≤ s.pattern.length := by
  obtain ⟨rest, hr⟩ := List.head?_eq_some_iff.mp hp
  rw [hr, List.length_cons] at hf ⊢
  obtain ⟨fuel, rfl⟩ := Nat.exists_eq_add_of_le' ((Nat.le_add_left 1 _).trans hf)
  obtain ⟨mem, hc, -⟩ := cleanup_owned
    (s := { s with pageSize := shrink s.pageSize, pattern := rest }) h.notCleaned h.owned
  obtain ⟨s₁, h₁, hc₁⟩ := addPages_cleaned (adds_addPage fuel)
    (s := { s with pageSize := shrink s.pageSize, pattern := rest, mem, isCleaned := true }) rfl
    (Nat.le_of_succ_le_succ hf) s.pages.length
  have hr₁ : s₁.pattern.length ≤ rest.length := hc₁.pattern
  obtain ⟨p, s', h', hc', hp⟩ := callocLoop_cleaned (k := fuel + 1) (adds_addPage fuel) hc₁.flag
    (by omega) (by omega)
  refine ⟨p, (pushPage (p, s')).2, ?_, hc'.flag, hp, (hc'.pattern.trans hr₁).trans (Nat.le_succ _)⟩
  rw [addPage, callocLoop_fails hr hc, h₁]
  show (callocLoop (addPage (fuel + 1)) (fuel + 1) s₁).map pushPage = _
  rw [h']
  rfl

/-! ## a whole life -/

/-- a page is left that nobody will free -/
def Leaked (s : PartitionedHashSet) : Prop := s.isCleaned = true ∧ ∃ p, s.mem.Live p

theorem Leaked.step (h : s.Leaked) (hf : s.pattern.length < fuel) (op : Op) :
    ∃ s', step fuel s op = some s' ∧ s'.Leaked ∧ s'.pattern.length ≤ s.pattern.length := by
  obtain ⟨hs, p, hp⟩ := h
  cases op with
  | addPage =>
    obtain ⟨fuel, rfl⟩ := Nat.exists_eq_add_of_le' (Nat.zero_lt_of_lt hf)
    obtain ⟨q, s', h', hc, -⟩ := adds_addPage fuel s hs (Nat.le_of_lt_succ hf)
    refine ⟨s', ?_, ⟨hc.flag, p, hc.live p hp⟩, hc.pattern⟩
    rw [PartitionedHashSet.step, h']
    rfl
  | getPage i anyway =>
    refine ⟨_, rfl, ?_, (congrArg List.length (getPage_pattern i anyway)).le⟩
    unfold PartitionedHashSet.getPage
    split
    · exact ⟨hs, p, hp⟩
    · split <;> exact ⟨hs, p, hp⟩
  | getNumPages => exact ⟨s, rfl, ⟨hs, p, hp⟩, le_rfl⟩

theorem run_cons (op : Op) (ops : List Op) :
    run fuel s (op :: ops) = (step fuel s op).bind fun s' => run fuel s' ops := by
  rw [run, List.foldlM_cons]
  rfl

theorem Leaked.run (h : s.Leaked) (hf : s.pattern.length < fuel) (ops : List Op) :
    ∃ s', run fuel s ops = some s' ∧ s'.Leaked := by
  induction ops generalizing s with
  | nil => exact ⟨s, rfl, h⟩
  | cons op ops ih =>
    obtain ⟨s₁, h₁, hl, hp⟩ := h.step hf op
    obtain ⟨s', h', hl'⟩ := ih hl (hp.trans_lt hf)
    refine ⟨s', ?_, hl'⟩
    rw [run_cons, h₁]
    exact h'

/-- the first `n` allocations are made without a failure -/
def Allocates (s : PartitionedHashSet) (n : ℕ) : Prop := true ∉ s.pattern.take n

theorem allocates_succ : s.Allocates (n + 1) ↔
    s.pattern.head? ≠ some true ∧ true ∉ s.pattern.tail.take n := by
  unfold Allocates
  cases s.pattern with
  | nil => simp
  | cons b rest => cases b <;> simp

/-- without a failed allocation a set stays tidy, and with one it leaks -/
theorem Tidy.run (h : s.Tidy) (hf : s.pattern.length < fuel) (ops : List Op) :
    ∃ s', run fuel s ops = some s' ∧
      (s.Allocates (ops.count .addPage) →
        s'.Tidy ∧ s'.pattern = s.pattern.drop (ops.count .addPage)) ∧
      (¬ s.Allocates (ops.count .addPage) → s'.Leaked) := by
  induction ops generalizing s with
  | nil => exact ⟨s, rfl, fun _ => ⟨h, rfl⟩, fun hn => absurd List.not_mem_nil hn⟩
  | cons op ops ih =>
    cases op with
    | addPage =>
      obtain ⟨fuel, rfl⟩ := Nat.exists_eq_add_of_le' (Nat.zero_lt_of_lt hf)
      rw [List.count_cons_self]
      simp only [allocates_succ]
      by_cases hp : s.pattern.head? = some true
      · obtain ⟨p, s₁, h₁, hc, hlive, hlen⟩ := addPage_fails h (Nat.le_of_lt_succ hf) hp
        obtain ⟨s', h', hl⟩ := Leaked.run ⟨hc, p, hlive⟩ (hlen.trans_lt hf) ops
        refine ⟨s', ?_, fun ha => absurd hp ha.1, fun _ => hl⟩
        rw [run_cons, step, h₁]
        exact h'
      · obtain ⟨s', h', ht, hl⟩ := ih h.added
          ((List.length_tail.trans_le (Nat.sub_le _ _)).trans_lt hf)
        refine ⟨s', ?_, fun ha => ?_, fun ha => hl fun ha' => ha ⟨hp, ha'⟩⟩
        · rw [run_cons, step, addPage_ok hp]
          exact h'
        · obtain ⟨ht, hd⟩ := ht ha.2
          exact ⟨ht, hd.trans (by rw [PartitionedHashSet.added, List.drop_tail])⟩
    | getPage i anyway =>
      have hpat := getPage_pattern (s := s) i anyway
      obtain ⟨s', h', ht, hl⟩ := ih (h.getPage i anyway) (hpat ▸ hf)
      rw [Allocates, hpat] at ht hl
      rw [List.count_cons_of_ne (by nofun)]
      exact ⟨s', by rw [run_cons]; exact h', ht, hl⟩
    | getNumPages =>
      obtain ⟨s', h', ht, hl⟩ := ih h hf
      rw [List.count_cons_of_ne (by nofun)]
      exact ⟨s', by rw [run_cons]; exact h', ht, hl⟩

theorem Allocates.mono {k : ℕ} (h : s.Allocates n) (hk : k ≤ n) : s.Allocates k :=
  fun hm => h ((List.take_sublist_take_left hk).subset hm)

/-- where the first `n + 1` allocations are made, the one after `n` is -/
theorem Allocates.head (h : s.Allocates (n + 1)) : (s.pattern.drop n).head? ≠ some true := by
  intro hh
  rw [List.head?_drop] at hh
  obtain ⟨hlt, hn⟩ := List.getElem?_eq_some_iff.mp hh
  refine h (List.mem_take_iff_getElem.mpr ⟨n, ?_, hn⟩)
  omega

theorem Tidy.pagesKept (h : s.Tidy) (hf : s.pattern.length < fuel) {ops : List Op}
    (ha : s.Allocates (ops.count .addPage)) : PagesKept fuel s ops where
  addPage pre post s₁ r hops h₁ hr := by
    subst hops
    rw [List.count_append, List.count_cons_self] at ha
    obtain ⟨s', h', ht, -⟩ := h.run hf pre
    cases h₁.symm.trans h'
    obtain ⟨ht, hd⟩ := ht (ha.mono (Nat.le_add_right _ _))
    have hp : s₁.pattern.head? ≠ some true := hd ▸ (ha.mono (by omega)).head
    obtain ⟨fuel, rfl⟩ := Nat.exists_eq_add_of_le' (Nat.zero_lt_of_lt hf)
    cases hr.symm.trans (addPage_ok hp)
    refine ⟨?_, ht.added.kept⟩
    show (s₁.pages ++ _).length = s₁.pages.length + 1
    rw [List.length_append, List.length_singleton]
  getPage pre post s₁ hops h₁ i _ anyway p hp := by
    subst hops
    rw [List.count_append] at ha
    obtain ⟨s', h', ht, -⟩ := h.run hf pre
    cases h₁.symm.trans h'
    exact (ht (ha.mono (Nat.le_add_right _ _))).1.live (getPage_mem hp)
  destroy s₁ s₂ h₁ h₂ := by
    obtain ⟨s', h', ht, -⟩ := h.run hf ops
    cases h₁.symm.trans h'
    obtain ⟨ht, -⟩ := ht ha
    obtain ⟨mem, hc, ho⟩ := cleanup_owned ht.notCleaned ht.owned
    rw [PartitionedHashSet.destroy, if_pos ht.notCleaned, hc] at h₂
    cases h₂
    exact fun p hp => hp (Cells.dead_of_owned_zero ho p)

theorem Leaked.destroy (h : s.Leaked) : s.destroy = some s :=
  if_neg (by rw [h.1]; decide)

/-- **the pages of a set are kept exactly when no allocation fails**: a life of the set always ends,
but after a failed allocation the freed pages stay on the list, and the flag keeps the destructor
from the new ones -/
theorem pages_iff (pageSize : ℕ) (pattern : List Bool) (ops : List Op) {fuel : ℕ}
    (hf : pattern.length < fuel) :
    (∃ s s', run fuel (ofSize pageSize pattern) ops = some s ∧ s.destroy = some s') ∧
      (PagesKept fuel (ofSize pageSize pattern) ops ↔ true ∉ pattern.take (ops.count .addPage)) := by
  have h := tidy_ofSize pageSize pattern
  obtain ⟨s, hs, ht, hl⟩ := h.run hf ops
  by_cases ha : true ∉ pattern.take (ops.count .addPage)
  · obtain ⟨ht, -⟩ := ht ha
    obtain ⟨mem, hc, -⟩ := cleanup_owned ht.notCleaned ht.owned
    refine ⟨⟨s, _, hs, (if_pos ht.notCleaned).trans hc⟩, iff_of_true (h.pagesKept hf ha) ha⟩
  · have hl := hl ha
    refine ⟨⟨s, s, hs, hl.destroy⟩, iff_of_false (fun hk => ?_) ha⟩
    obtain ⟨p, hp⟩ := hl.2
    exact hk.destroy s s hs hl.destroy p hp

theorem pages_iff_three :
    (∃ s s', run 4 (ofSize 1000 [false, false, true]) [.addPage, .getPage 0 false, .addPage] = some s ∧
      s.destroy = some s') ∧
    (PagesKept 4 (ofSize 1000 [false, false, true]) [.addPage, .getPage 0 false, .addPage] ↔
      true ∉ [false, false, true].take 2) :=
  pages_iff 1000 [false, false, true] [.addPage, .getPage 0 false, .addPage] (by decide)

/-- the second allocation fails once: three pages are listed, and the first of them is freed memory -/
theorem pages_not_kept : ¬ PagesKept 3 (ofSize 1000 [false, true]) [.addPage, .addPage] := by
  intro h
  obtain ⟨hn, -⟩ := h.addPage [.addPage] [] _ _ rfl rfl rfl
  exact absurd hn (by decide)

end

end PartitionedHashSet
end Netsdb
