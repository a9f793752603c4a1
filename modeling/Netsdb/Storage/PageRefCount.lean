import Mathlib.Data.List.Basic
import Netsdb.Lib.Reach

/-!
# A page in the buffers of several readers (`PDBPage.h`)

Every reader ends with `page->decRefCount ()` and, in a second step, `page->getRefCount () == 0`;
the reader that finds the count at zero releases the page.

* `SharedRead`              the page, where its readers are, and who has released it;
* `ReleasedOnce`            exactly one reader releases it, and only when all are done with it;
* `releasedOnce_of_reach`   this in every run in which the count comes to zero when no other reader
                            is between its two steps; for memory that is freed, in every run.
-/

set_option linter.unusedSectionVars false

namespace Netsdb
open Machine

inductive ReaderPlace
  | reading
  /-- behind `decRefCount`, and in front of the test -/
  | decremented
  | finished
deriving DecidableEq, Repr

/-- what the reader does that finds the count at zero: scans, mergers and aggregations send
`unpinUserPage`, broadcasts, shuffles and combiners call `freeContent` -/
inductive Release
  | unpinUserPage
  | freeContent
deriving DecidableEq, Repr

structure SharedPage where
  refCount : Int
  pinned : Bool
  /-- `rawBytes ≠ nullptr` -/
  rawBytes : Bool

namespace SharedPage

def decRefCount (p : SharedPage) : SharedPage :=
  if p.refCount - 1 < 0 then { p with refCount := 0, pinned := false }
  else if p.refCount - 1 = 0 then { p with refCount := p.refCount - 1, pinned := false }
  else { p with refCount := p.refCount - 1 }

def getRefCount (p : SharedPage) : Int := p.refCount

end SharedPage

/-- `released`: the readers that sent `unpinUserPage`, or that freed the memory -/
structure SharedRead where
  page : SharedPage
  readers : List ReaderPlace
  released : List Nat

inductive ReaderStep
  | decRefCount (reader : Nat)
  | test (reader : Nat)

namespace SharedRead

/-- `incRefCount` for every buffer, before the page is added to the first -/
def start (numPartitions : Nat) : SharedRead :=
  ⟨⟨numPartitions, true, true⟩, List.replicate numPartitions .reading, []⟩

def release (how : Release) (s : SharedRead) (reader : Nat) : SharedRead :=
  match how with
  | .unpinUserPage => { s with released := s.released ++ [reader] }
  | .freeContent =>
    if s.page.rawBytes then
      { s with page := { s.page with rawBytes := false }, released := s.released ++ [reader] }
    else s

def step (how : Release) (s : SharedRead) : ReaderStep → Option SharedRead
  | .decRefCount reader =>
    if s.readers[reader]? = some .reading then
      some { s with page := s.page.decRefCount, readers := s.readers.set reader .decremented }
    else none
  | .test reader =>
    if s.readers[reader]? = some .decremented then
      let s' := { s with readers := s.readers.set reader .finished }
      some (if s.page.getRefCount = 0 then release how s' reader else s')
    else none

structure ReleasedOnce (s : SharedRead) : Prop where
  once : s.released.length ≤ 1
  /-- never while a reader has not finished with the page -/
  after : s.released ≠ [] → ReaderPlace.reading ∉ s.readers
  done : (∀ p ∈ s.readers, p = .finished) → s.released.length = 1

/-- the condition on a step: of a page that is unpinned, the last decrement finds no reader
between its two steps -/
def Fine (how : Release) (s : SharedRead) : ReaderStep → Prop
  | .decRefCount _ => how = .unpinUserPage → s.page.refCount = 1 →
      ReaderPlace.decremented ∉ s.readers
  | .test _ => True

instance (how : Release) (s : SharedRead) (a : ReaderStep) : Decidable (s.Fine how a) :=
  match a with
  | .decRefCount _ => inferInstanceAs (Decidable (_ → _ → _ ∉ _))
  | .test _ => isTrue trivial

/-! ## The invariant -/

structure Inv (how : Release) (s : SharedRead) : Prop where
  count : s.page.refCount = s.readers.count .reading
  once : s.released.length ≤ 1
  early : 0 < s.readers.count .reading → s.released = []
  late : s.readers.count .reading = 0 → s.released = [] → 0 < s.readers.count .decremented
  /-- when all are done, one reader is left to release the page, or it has done so -/
  single : how = .unpinUserPage → s.readers.count .reading = 0 →
    s.readers.count .decremented + s.released.length ≤ 1
  bytes : how = .freeContent → (s.page.rawBytes = true ↔ s.released = [])

variable {how : Release} {s t : SharedRead} {reader : Nat}

theorem start_inv {numPartitions : Nat} (hp : 0 < numPartitions) : Inv how (start numPartitions) := by
  have hcount : (start numPartitions).readers.count .reading = numPartitions := List.count_replicate_self
  refine ⟨?_, Nat.zero_le _, fun _ => rfl, fun h => ?_, fun _ h => ?_, fun _ => by simp [start]⟩
  · rw [hcount]
    rfl
  · rw [hcount] at h
    omega
  · rw [hcount] at h
    omega

/-- one reader moves -/
theorem count_move {l : List ReaderPlace} {p q : ReaderPlace} (h : l[reader]? = some p) (hpq : p ≠ q) :
    (l.set reader q).count p + 1 = l.count p ∧ (l.set reader q).count q = l.count q + 1 ∧
      ∀ o, o ≠ p → o ≠ q → (l.set reader q).count o = l.count o := by
  obtain ⟨hlt, hp⟩ := List.getElem?_eq_some_iff.mp h
  have hpos : 0 < l.count p := List.count_pos_iff.mpr (List.mem_of_getElem? h)
  refine ⟨?_, ?_, fun o hop hoq => ?_⟩
  · rw [List.count_set hlt, hp]
    simp [hpq.symm]
    omega
  · rw [List.count_set hlt, hp]
    simp [hpq]
  · rw [List.count_set hlt, hp]
    simp [hop.symm, hoq.symm]

theorem Inv.decRefCount (h : Inv how s) (hr : s.readers[reader]? = some .reading)
    (hfine : s.Fine how (.decRefCount reader)) :
    Inv how { s with page := s.page.decRefCount, readers := s.readers.set reader .decremented } := by
  obtain ⟨hreading, hdec, -⟩ := count_move (q := .decremented) hr nofun
  have hcount := h.count
  have hnone := h.early (by omega)
  have hrc : s.page.decRefCount.refCount = s.page.refCount - 1 := by
    unfold SharedPage.decRefCount
    split_ifs
    · omega
    · rfl
    · rfl
  have hbytes : s.page.decRefCount.rawBytes = s.page.rawBytes := by
    unfold SharedPage.decRefCount
    split_ifs
    · rfl
    · rfl
    · rfl
  refine ⟨?_, h.once, fun _ => hnone, fun _ _ => ?_, fun hu hzero => ?_, fun hf => ?_⟩
  · show s.page.decRefCount.refCount = ((s.readers.set reader .decremented).count .reading : Int)
    omega
  · show 0 < (s.readers.set reader .decremented).count .decremented
    omega
  · have hzero : (s.readers.set reader .decremented).count .reading = 0 := hzero
    have hlast : ReaderPlace.decremented ∉ s.readers := hfine hu (by omega)
    have hother : s.readers.count .decremented = 0 := List.count_eq_zero.mpr hlast
    show (s.readers.set reader .decremented).count .decremented + s.released.length ≤ 1
    rw [hnone]
    simp only [List.length_nil]
    omega
  · show s.page.decRefCount.rawBytes = true ↔ s.released = []
    rw [hbytes]
    exact h.bytes hf

theorem Inv.test (h : Inv how s) (hr : s.readers[reader]? = some .decremented) :
    Inv how (if s.page.getRefCount = 0 then
      release how { s with readers := s.readers.set reader .finished } reader
      else { s with readers := s.readers.set reader .finished }) := by
  obtain ⟨hdec, -, hothers⟩ := count_move (q := .finished) hr nofun
  have hreading := hothers .reading nofun nofun
  have hcount := h.count
  have hrest : ∀ released page, page.refCount = s.page.refCount → released.length = 1 →
      (how = .freeContent → page.rawBytes = false) → s.readers.count .reading = 0 →
      (how = .unpinUserPage → s.readers.count .decremented = 1) →
      Inv how ⟨page, s.readers.set reader .finished, released⟩ := by
    intro released page hpage hlen hb hzero hone
    have hne : released ≠ [] := by
      intro e
      rw [e] at hlen
      cases hlen
    refine ⟨?_, Nat.le_of_eq hlen, fun hpos => ?_, fun _ e => absurd e hne, fun hu _ => ?_,
      fun hf => ?_⟩
    · show page.refCount = ((s.readers.set reader .finished).count .reading : Int)
      omega
    · have hpos : 0 < (s.readers.set reader .finished).count .reading := hpos
      omega
    · have := hone hu
      show (s.readers.set reader .finished).count .decremented + released.length ≤ 1
      omega
    · show page.rawBytes = true ↔ released = []
      rw [hb hf]
      exact ⟨nofun, fun e => absurd e hne⟩
  split
  next hzero =>
    have hzero : s.page.refCount = 0 := hzero
    have hnone : s.readers.count .reading = 0 := by omega
    cases how with
    | unpinUserPage =>
      have hsingle := h.single rfl hnone
      have hempty : s.released = [] := List.eq_nil_of_length_eq_zero (by omega)
      show Inv _ ⟨s.page, s.readers.set reader .finished, s.released ++ [reader]⟩
      refine hrest _ _ rfl ?_ nofun hnone fun _ => by omega
      rw [hempty]
      rfl
    | freeContent =>
      have hbytes := h.bytes rfl
      unfold release
      dsimp only
      split
      next hraw =>
        refine hrest _ _ rfl ?_ (fun _ => rfl) hnone nofun
        rw [hbytes.mp hraw]
        rfl
      next hraw =>
        have hsome : s.released ≠ [] := fun e => hraw (hbytes.mpr e)
        have hlen := List.length_pos_of_ne_nil hsome
        have honce := h.once
        exact hrest _ _ rfl (by omega) (fun _ => Bool.eq_false_iff.mpr hraw) hnone nofun
  next hpos =>
    have hpos : s.page.refCount ≠ 0 := hpos
    have hsome : 0 < s.readers.count .reading := by omega
    refine ⟨?_, h.once, fun _ => h.early hsome, fun hzero => ?_, fun _ hzero => ?_, h.bytes⟩
    · show s.page.refCount = ((s.readers.set reader .finished).count .reading : Int)
      omega
    · have hzero : (s.readers.set reader .finished).count .reading = 0 := hzero
      omega
    · have hzero : (s.readers.set reader .finished).count .reading = 0 := hzero
      omega

theorem step_inv (h : Inv how s) {a : ReaderStep} (hfine : s.Fine how a)
    (ht : s.step how a = some t) : Inv how t := by
  cases a with
  | decRefCount reader =>
    unfold step at ht
    dsimp only at ht
    split at ht
    next hr =>
      obtain rfl := Option.some.inj ht
      exact h.decRefCount hr hfine
    · cases ht
  | test reader =>
    unfold step at ht
    dsimp only at ht
    split at ht
    next hr =>
      obtain rfl := Option.some.inj ht
      exact h.test hr
    · cases ht

/-! ## Runs -/

theorem Inv.releasedOnce (h : Inv how s) : s.ReleasedOnce := by
  refine ⟨h.once, fun hne hmem => ?_, fun hall => ?_⟩
  · exact hne (h.early (List.count_pos_iff.mpr hmem))
  · have hno : ∀ p, p ≠ .finished → s.readers.count p = 0 := by
      intro p hp
      apply List.count_eq_zero.mpr
      intro hmem
      exact hp (hall p hmem)
    have hone := h.once
    have hne : s.released ≠ [] := by
      intro e
      have := h.late (hno .reading nofun) e
      rw [hno .decremented nofun] at this
      omega
    have := List.length_pos_of_ne_nil hne
    omega

theorem releasedOnce_of_reach (how : Release) (numPartitions : Nat) (s : SharedRead)
    (hp : 0 < numPartitions) (h : Reach (step how) (Fine how) (start numPartitions) s) :
    s.ReleasedOnce :=
  (h.inv (start_inv hp) fun _ _ _ hi hfine ht => step_inv hi hfine ht).releasedOnce

/-- three readers, one after the other -/
theorem releasedOnce_three : ∃ s : SharedRead,
    run (step .unpinUserPage) (start 3) [.decRefCount 0, .decRefCount 2, .test 2, .test 0,
      .decRefCount 1, .test 1] = some s ∧ s.released = [1] ∧ s.ReleasedOnce :=
  ⟨_, rfl, rfl, releasedOnce_of_reach .unpinUserPage 3 _ (by decide)
    (Reach.of_run [.decRefCount 0, .decRefCount 2, .test 2, .test 0, .decRefCount 1, .test 1] rfl)⟩

/-- both readers decrement, and then both find the count at zero -/
theorem releasedOnce_not_always : ¬ ∀ (how : Release) (numPartitions : Nat) (s : SharedRead),
    0 < numPartitions → Reach (step how) (fun _ _ => True) (start numPartitions) s →
      s.ReleasedOnce := by
  intro hall
  have hrun : ∃ s : SharedRead, run (guarded (step .unpinUserPage) fun _ _ => True) (start 2)
      [.decRefCount 0, .decRefCount 1, .test 0, .test 1] = some s ∧ s.released = [0, 1] :=
    ⟨_, rfl, rfl⟩
  obtain ⟨s, hs, hreleased⟩ := hrun
  have honce := (hall .unpinUserPage 2 s (by decide) (Reach.of_run _ hs)).once
  rw [hreleased] at honce
  exact absurd honce (by decide)

end SharedRead
end Netsdb
