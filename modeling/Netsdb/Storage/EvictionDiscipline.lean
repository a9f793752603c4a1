import Netsdb.Storage.Eviction

/-!
# The lock discipline of eviction

* `Lock.rank`        the order in which every function takes the locks;
* `evictPage_safe`   one page is evicted with the lock for eviction free before and after;
* `evict_settles`, `replaceWhile_breaks`, `next_settles`  where each function may leave a lock;
* `disciplined_iff`  the locks and `inEviction` are as before exactly in the runs that take none of the
                     four branches of `Slip`.
-/

set_option linter.unusedSectionVars false

namespace Netsdb
namespace Eviction
open LockTrace LockTrace.Prog

variable {costs : Costs} {h : List Lock} {l : Lock} {page set fuel : Nat} {key : CacheKey}

/-- locks are taken in this order -/
def Lock.rank : Lock → ℕ
  | .evictionMutex => 0
  | .evictionAndFlushLock => 1
  | .refCountMutex _ => 3
  | _ => 2

/-! ## Locks and fields -/

theorem lock_safe (l : Lock) (hb : Below Lock.rank l.rank h) : Safe h (l :: h) (lock l) :=
  (Safe.acquire hb.notMem).bind fun _ => Safe.modify _

theorem unlock_safe : Safe (l :: h) h (unlock l) := Safe.release

theorem onlyIf_safe {p : Run Unit} (b : Bool) (hp : Safe h h p) : Safe h h (onlyIf b p) := by
  unfold onlyIf
  split
  · exact hp
  · exact Safe.pure _

/-- a change of the state under one lock -/
theorem locked_safe {p : Run Unit} (l : Lock) (hb : Below Lock.rank l.rank h)
    (hp : Safe (l :: h) (l :: h) p) : Safe h h (do lock l; p; unlock l) :=
  (lock_safe l hb).bind fun _ => hp.bind fun _ => unlock_safe

/-! ## Pages and locality sets -/

theorem getRefCount_safe (hb : Below Lock.rank 3 h) : Safe h h (getRefCount page) :=
  (lock_safe (.refCountMutex page) hb).bind fun _ => (Safe.read _).bind fun _ => unlock_safe.bind fun _ => Safe.pure _

theorem updateRefCount_safe (f : PDBPage → PDBPage) (hb : Below Lock.rank 3 h) :
    Safe h h (updateRefCount page f) :=
  locked_safe (.refCountMutex page) hb (Safe.modify _)

theorem addPageToTail_safe (hb : Below Lock.rank 2 h) : Safe h h (addPageToTail page) :=
  (lock_safe .addPageMutex hb).bind fun _ => (Safe.modify _).bind fun _ => unlock_safe.bind fun _ =>
    (lock_safe .mutex hb).bind fun _ => unlock_safe

theorem setAccessSequenceId_safe (hb : Below Lock.rank 2 h) : Safe h h (setAccessSequenceId page) :=
  locked_safe .countLock hb (Safe.modify _)

theorem updateCachedPage_safe (hb : Below Lock.rank 2 h) : Safe h h (updateCachedPage page set) :=
  (Safe.read _).bind fun _ =>
    (onlyIf_safe _ (locked_safe (.localitySetCacheMutex set) hb (Safe.modify _))).bind fun _ =>
      locked_safe (.localitySetCacheMutex set) hb (Safe.modify _)

theorem firstUnpinned_safe (hb : Below Lock.rank 3 h) (pages : List Nat) :
    Safe h h (firstUnpinned pages) := by
  induction pages with
  | nil => exact Safe.pure _
  | cons page pages ih =>
    refine Safe.bind (getRefCount_safe hb) fun refCount => ?_
    split
    · exact Safe.pure _
    · exact ih

theorem selectPageForReplacement_safe (hb : Below Lock.rank 3 h) :
    Safe h h (selectPageForReplacement set) :=
  (Safe.read _).bind fun u => firstUnpinned_safe hb u.replacementOrder

theorem collectUnpinned_safe (hb : Below Lock.rank 3 h) (isLast : Nat → Bool)
    (retPages pages : List Nat) : Safe h h (collectUnpinned isLast retPages pages) := by
  induction pages generalizing retPages with
  | nil => exact Safe.pure _
  | cons page pages ih =>
    refine Safe.bind (getRefCount_safe hb) fun refCount => ?_
    split
    · split
      · exact Safe.pure _
      · exact ih _
    · exact ih _

theorem selectPagesForReplacement_safe (hb : Below Lock.rank 3 h) :
    Safe h h (selectPagesForReplacement costs set) :=
  (Safe.read _).bind fun _ => (collectUnpinned_safe hb _ _ _).bind fun _ => Safe.pure _

/-! ## Evicting pages -/

theorem removePage_safe (hb : Below Lock.rank 2 h) : Safe h h (removePage key) :=
  locked_safe .cacheMutex hb (Safe.modify _)

theorem freeUnpinned_safe (hb : Below Lock.rank 1 h) : Safe h h (freeUnpinned page key) := by
  have hc : Below Lock.rank 2 (Lock.evictionAndFlushLock :: h) := (hb.mono (by decide)).cons (by decide)
  exact (lock_safe .evictionAndFlushLock hb).bind fun _ => (Safe.modify _).bind fun _ =>
    (removePage_safe hc).bind fun _ => unlock_safe

theorem flushOrFree_safe (tryFlushOrNot : Bool) (p : PDBPage) (hb : Below Lock.rank 1 h) :
    Safe h h (flushOrFree page key tryFlushOrNot p) := by
  unfold flushOrFree
  split
  · exact (Safe.modify _).bind fun _ => addPageToTail_safe (hb.mono (by decide))
  · split
    · exact Safe.modify _
    · exact freeUnpinned_safe hb

/-- the lock for eviction must be free: it is taken to free the page -/
theorem evictPage_safe (tryFlushOrNot : Bool) (hb : Below Lock.rank 1 h) :
    Safe h h (evictPage key tryFlushOrNot) := by
  refine Safe.bind (Safe.read _) fun entry => ?_
  rcases entry with _ | _ | page
  · exact Safe.pure _
  · exact Safe.stop
  · refine Safe.bind (getRefCount_safe (hb.mono (by decide))) fun refCount => ?_
    split
    · exact Safe.pure _
    · exact (Safe.modify _).bind fun _ => (Safe.read _).bind fun p =>
        (flushOrFree_safe tryFlushOrNot p hb).bind fun _ => Safe.pure _

theorem removeFromSet_safe (of : Option Nat) : Safe h h (removeFromSet page of) := by
  cases of with
  | none => exact Safe.pure _
  | some set =>
    exact (Safe.modify _).bind fun _ => (Safe.read _).bind fun _ => onlyIf_safe _ (Safe.modify _)

theorem evictPagePtr_safe (of : Option Nat) (hb : Below Lock.rank 1 h) :
    Safe h h (evictPagePtr page of) :=
  (Safe.read _).bind fun _ => (evictPage_safe true hb).bind fun ret =>
    (onlyIf_safe ret (removeFromSet_safe of)).bind fun _ => Safe.pure _

theorem evictPagesOf_safe (of : Option Nat) (hb : Below Lock.rank 1 h) (pages : List Nat) :
    Safe h h (evictPagesOf of pages) := by
  induction pages with
  | nil => exact Safe.pure _
  | cons page pages ih =>
    exact Safe.bind (evictPagePtr_safe of hb) fun _ => ih.bind fun _ => Safe.pure _

/-! ## `evict` -/

/-- the locks of an eviction -/
theorem below_evictionMutex {n : ℕ} (hn : 0 < n) : Below Lock.rank n [.evictionMutex] :=
  Below.nil.cons hn

theorem below_evictionAndFlushLock {n : ℕ} (hn : 1 < n) :
    Below Lock.rank n [.evictionAndFlushLock, .evictionMutex] :=
  (below_evictionMutex (by omega)).cons hn

/-- the lock for eviction is free while the pages are evicted -/
theorem evictSelected_safe (hb : Below Lock.rank 1 h) (pagesToEvict : Option (List Nat)) :
    Safe (.evictionAndFlushLock :: h) (.evictionAndFlushLock :: h)
      (evictSelected set pagesToEvict) := by
  cases pagesToEvict with
  | none => exact Safe.pure _
  | some pages =>
    exact Safe.bind unlock_safe fun _ => (evictPagesOf_safe (some set) hb pages).bind fun _ =>
      (lock_safe .evictionAndFlushLock hb).bind fun _ => Safe.pure _

theorem evictFromSets_safe (hb : Below Lock.rank 1 h) (sets : List Nat) :
    Safe (.evictionAndFlushLock :: h) (.evictionAndFlushLock :: h) (evictFromSets costs sets) := by
  have hc : Below Lock.rank 3 (Lock.evictionAndFlushLock :: h) := (hb.mono (by decide)).cons (by decide)
  induction sets with
  | nil => exact Safe.pure _
  | cons set sets ih =>
    refine Safe.bind (selectPagesForReplacement_safe hc) fun pagesToEvict => ?_
    refine Safe.bind (evictSelected_safe hb pagesToEvict) fun numEvicted => ?_
    split
    · exact Safe.pure _
    · exact ih

theorem replaceableSets_safe (hb : Below Lock.rank 3 h) (sets : List Nat) :
    Safe h h (replaceableSets sets) := by
  induction sets with
  | nil => exact Safe.pure _
  | cons set sets ih =>
    exact Safe.bind (selectPageForReplacement_safe hb) fun _ => ih.bind fun _ => Safe.pure _

theorem evictUnifiedCost_safe (hb : Below Lock.rank 1 h) : Safe h h (evictUnifiedCost costs) := by
  have hc : Below Lock.rank 3 (Lock.evictionAndFlushLock :: h) := (hb.mono (by decide)).cons (by decide)
  exact (lock_safe .evictionAndFlushLock hb).bind fun _ => (Safe.read _).bind fun _ =>
    (replaceableSets_safe hc _).bind fun _ => (Safe.read _).bind fun _ =>
      (evictFromSets_safe hb _).bind fun _ => unlock_safe

theorem evictUnifiedIntelligent_safe (hb : Below Lock.rank 1 h) :
    Safe h h (evictUnifiedIntelligent costs) :=
  (lock_safe .evictionAndFlushLock hb).bind fun _ => (Safe.read _).bind fun _ =>
    (evictFromSets_safe hb _).bind fun _ => unlock_safe

theorem testPages_safe {test : Nat → Run Bool} (ht : ∀ page, Safe h h (test page))
    (entries : List (CacheKey × Option Nat)) : Safe h h (testPages test entries) := by
  induction entries with
  | nil => exact Safe.pure _
  | cons entry entries ih =>
    obtain ⟨key, _ | page⟩ := entry
    · exact Safe.pure _
    · exact Safe.bind (ht page) fun _ => ih.bind fun _ => Safe.pure _

/-- there is no list of pages exactly if there is a null page -/
theorem testPages_none_iff {test : Nat → Run Bool} {entries : List (CacheKey × Option Nat)}
    {s s' : PageCache} {pages : Option (List Nat)} {es : List (Event Lock Slip)}
    (hr : testPages test entries s = some (pages, s', es)) :
    pages = none ↔ ∃ entry ∈ entries, entry.2 = none := by
  induction entries generalizing s s' pages es with
  | nil =>
    obtain ⟨rfl, -, -⟩ := pure_run hr
    exact iff_of_false (fun h => nomatch h) fun ⟨e, he, _⟩ => absurd he List.not_mem_nil
  | cons entry entries ih =>
    obtain ⟨key, _ | page⟩ := entry
    · obtain ⟨rfl, -, -⟩ := pure_run hr
      exact iff_of_true rfl ⟨_, List.mem_cons_self, rfl⟩
    · obtain ⟨passed, s₁, x, y, -, hy, -⟩ := bind_run hr
      obtain ⟨rest, s₂, u, v, hu, hv, -⟩ := bind_run hy
      obtain ⟨rfl, -, -⟩ := pure_run hv
      have hrest : (if passed then rest.map (page :: ·) else rest) = none ↔ rest = none := by
        split
        · exact Option.map_eq_none_iff
        · exact Iff.rfl
      rw [hrest, ih hu]
      constructor
      · rintro ⟨e, he, hn⟩
        exact ⟨e, List.mem_cons_of_mem _ he, hn⟩
      · rintro ⟨e, he, hn⟩
        rcases List.mem_cons.mp he with rfl | he
        · cases hn
        · exact ⟨e, he, hn⟩

theorem canBeEvicted_safe (hb : Below Lock.rank 3 h) : Safe h h (canBeEvicted page) :=
  (getRefCount_safe hb).bind fun _ => (Safe.read _).bind fun _ => Safe.pure _

theorem evictUntilStopSize_safe (hb : Below Lock.rank 1 h) (cachedPages : List Nat) :
    Safe h h (evictUntilStopSize cachedPages) := by
  induction cachedPages with
  | nil => exact Safe.pure _
  | cons page cachedPages ih =>
    refine Safe.bind (Safe.read _) fun full => ?_
    split
    · exact Safe.bind (evictPagePtr_safe none hb) fun _ => ih
    · exact Safe.pure _

theorem endEviction_safe : Safe [.evictionMutex] [] endEviction :=
  (Safe.modify _).bind fun _ => unlock_safe

theorem evictUnified_safe : Safe [.evictionMutex] [] evictUnified := by
  refine Safe.bind (lock_safe .evictionAndFlushLock (below_evictionMutex (by decide))) fun _ => ?_
  refine Safe.bind (Safe.read _) fun cache => ?_
  refine Safe.bind (testPages_safe
    (fun page => canBeEvicted_safe (below_evictionAndFlushLock (by decide))) cache) fun pages => ?_
  cases pages with
  | none => exact Safe.bind (Safe.modify _) fun _ => Safe.bind unlock_safe fun _ => unlock_safe
  | some pages =>
    exact Safe.bind unlock_safe fun _ => Safe.bind (Safe.read _) fun _ =>
      (evictUntilStopSize_safe (below_evictionMutex (by decide)) _).bind fun _ => endEviction_safe

theorem evictBy_safe {strategy : CacheStrategy} (hs : strategy ≠ .UnifiedDBMIN) :
    Safe [.evictionMutex] [] (evictBy costs strategy) := by
  have hb := below_evictionMutex Nat.one_pos
  cases strategy with
  | UnifiedCost => exact Safe.bind (evictUnifiedCost_safe hb) fun _ => endEviction_safe
  | UnifiedIntelligent => exact Safe.bind (evictUnifiedIntelligent_safe hb) fun _ => endEviction_safe
  | UnifiedDBMIN => exact absurd rfl hs
  | UnifiedLRU => exact evictUnified_safe
  | UnifiedMRU => exact evictUnified_safe

/-- only the return in `UnifiedDBMIN` keeps the mutex -/
theorem evictBy_settles (strategy : CacheStrategy) :
    Settles [] [.evictionMutex] [] (evictBy costs strategy) := by
  by_cases hs : strategy = .UnifiedDBMIN
  · subst hs
    exact Settles.branch (Safe.pure _) List.mem_cons_self List.not_mem_nil
  · exact (evictBy_safe hs).settles

theorem evict_settles : Settles [] [] [] (evict costs) := by
  refine Settles.of_safe (Safe.read _) fun inEviction => ?_
  split
  · exact (Safe.pure _).settles
  · exact Settles.of_safe (lock_safe .evictionMutex Below.nil) fun _ =>
      Settles.of_safe (Safe.modify _) fun _ => Settles.of_safe (Safe.read _) fun strategy =>
        evictBy_settles strategy

/-- the flag is reset on every other way -/
theorem evictBy_leads {strategy : CacheStrategy} (hs : strategy ≠ .UnifiedDBMIN) :
    Leads (fun _ => True) (fun s => s.inEviction = false) (evictBy costs strategy) := by
  have hset : Leads (fun _ => True) (fun s : PageCache => s.inEviction = false) (setInEviction false) :=
    Leads.modify _ fun _ _ => rfl
  have hend : Leads (fun _ => True) (fun s : PageCache => s.inEviction = false) endEviction :=
    hset.bind fun _ => Leads.release _
  have hunified : Leads (fun _ => True) (fun s : PageCache => s.inEviction = false) evictUnified := by
    refine Leads.bind (Leads.trivial _) fun _ => Leads.bind (Leads.trivial _) fun _ => ?_
    refine Leads.bind (Leads.trivial _) fun pages => ?_
    cases pages with
    | none => exact Leads.bind hset fun _ => Leads.bind (Leads.release _) fun _ => Leads.release _
    | some pages =>
      exact Leads.bind (Leads.trivial _) fun _ => Leads.bind (Leads.trivial _) fun _ =>
        Leads.bind (Leads.trivial _) fun _ => hend
  cases strategy with
  | UnifiedCost => exact Leads.bind (Leads.trivial _) fun _ => hend
  | UnifiedIntelligent => exact Leads.bind (Leads.trivial _) fun _ => hend
  | UnifiedDBMIN => exact absurd rfl hs
  | UnifiedLRU => exact hunified
  | UnifiedMRU => exact hunified

/-- the other threads do not change the strategy -/
theorem interleave_strategy (s : PageCache) : s.interleave.strategy = s.strategy := by
  unfold PageCache.interleave
  split
  · rfl
  · rfl

/-- all that `evict` can do -/
theorem evict_run {s s' : PageCache} {es : List (Event Lock Slip)}
    (hr : evict costs s = some ((), s', es)) :
    (s.inEviction = true ∧ es = []) ∨
      (s.inEviction = false ∧ ∃ s₁ y, evictBy costs s.strategy s₁ = some ((), s', y) ∧
        es = .acquire .evictionMutex :: y) := by
  obtain ⟨b, s₁, x, y, hx, hy, rfl⟩ := bind_run hr
  obtain ⟨hb, rfl, rfl⟩ := read_run hx
  obtain rfl := Option.some.inj hb
  cases hf : s₁.inEviction with
  | true =>
    rw [hf] at hy
    obtain ⟨-, -, rfl⟩ := pure_run hy
    exact Or.inl ⟨rfl, rfl⟩
  | false =>
    rw [hf] at hy
    obtain ⟨_, s₂, x, z, hl, h2, rfl⟩ := bind_run hy
    have hl2 : lock .evictionMutex s₁ = some ((), s₁.interleave, [.acquire .evictionMutex]) := rfl
    obtain ⟨rfl, rfl⟩ := Prod.mk.inj (Prod.mk.inj (Option.some.inj (hl2.symm.trans hl))).2
    obtain ⟨_, s₃, u, v, hm, h3, rfl⟩ := bind_run h2
    obtain ⟨-, rfl, rfl⟩ := hm
    obtain ⟨strategy, s₅, u, w, hg, h4, rfl⟩ := bind_run h3
    obtain ⟨h5, rfl, rfl⟩ := read_run hg
    obtain rfl := Option.some.inj h5
    refine Or.inr ⟨rfl, { s₁.interleave with inEviction := true }, w, ?_, rfl⟩
    rw [← interleave_strategy s₁]
    exact h4

/-- `evict` goes wrong exactly in `UnifiedDBMIN`, unless an eviction is going on -/
theorem evict_clean_iff {s s' : PageCache} {es : List (Event Lock Slip)}
    (hr : evict costs s = some ((), s', es)) :
    Clean es ↔ s.inEviction = true ∨ s.strategy ≠ .UnifiedDBMIN := by
  rcases evict_run hr with ⟨hf, rfl⟩ | ⟨hf, s₁, y, hy, rfl⟩
  · exact iff_of_true (fun b => List.not_mem_nil) (Or.inl hf)
  · by_cases hs : s.strategy = .UnifiedDBMIN
    · rw [hs] at hy
      refine iff_of_false (fun hc => ?_) fun ho => ?_
      · obtain ⟨_, s₂, u, v, hb, -, rfl⟩ := bind_run hy
        obtain ⟨-, -, rfl⟩ := hb
        exact hc .dbminReturn (List.mem_cons_of_mem _ List.mem_cons_self)
      · rcases ho with ho | ho
        · rw [hf] at ho
          cases ho
        · exact ho hs
    · refine iff_of_true (fun b hb => ?_) (Or.inr hs)
      rcases List.mem_cons.mp hb with hb | hb
      · cases hb
      · exact (evictBy_safe hs s₁ () s' y hy).2 b hb

theorem evict_inEviction {s s' : PageCache} {es : List (Event Lock Slip)}
    (hr : evict costs s = some ((), s', es)) (hf : s.inEviction = false) (hc : Clean es) :
    s'.inEviction = false := by
  have hs := ((evict_clean_iff hr).mp hc).resolve_left fun ht => by
    rw [hf] at ht
    cases ht
  rcases evict_run hr with ⟨ht, -⟩ | ⟨-, s₁, y, hy, -⟩
  · rw [hf] at ht
    cases ht
  · exact evictBy_leads hs s₁ () s' y hy trivial

/-! ## The dirty pages -/

theorem decRefCounts_safe (hb : Below Lock.rank 3 h) (fuel : Nat) : Safe h h (decRefCounts page fuel) := by
  induction fuel with
  | zero => exact Safe.stop
  | succ fuel ih =>
    refine Safe.bind (getRefCount_safe hb) fun refCount => ?_
    split
    · exact Safe.bind (updateRefCount_safe _ hb) fun _ => ih
    · exact Safe.pure _

theorem unpinDirty_safe (hb : Below Lock.rank 3 h) : Safe h h (unpinDirty fuel page) := by
  refine Safe.bind (Safe.read _) fun p => ?_
  split
  · exact Safe.bind (decRefCounts_safe hb fuel) fun _ => Safe.pure _
  · exact Safe.pure _

theorem isUnpinnedDirty_safe (hb : Below Lock.rank 3 h) : Safe h h (isUnpinnedDirty page) := by
  refine Safe.bind (Safe.read _) fun p => ?_
  split
  · exact Safe.bind (getRefCount_safe hb) fun _ => (Safe.read _).bind fun _ => Safe.pure _
  · exact Safe.pure _

/-- a null page ends the function with the lock for eviction -/
theorem evictDirtyPages_settles {test : Nat → Run Bool}
    (ht : ∀ page, Safe [.evictionAndFlushLock, .evictionMutex] [.evictionAndFlushLock, .evictionMutex]
      (test page)) : Settles [] [] [] (evictDirtyPages test) := by
  refine Settles.of_safe (Safe.read _) fun inEviction => ?_
  split
  · exact (Safe.pure _).settles
  · refine Settles.of_safe (lock_safe .evictionMutex Below.nil) fun _ => ?_
    refine Settles.of_safe (Safe.modify _) fun _ => ?_
    refine Settles.of_safe (lock_safe .evictionAndFlushLock (below_evictionMutex (by decide))) fun _ => ?_
    refine Settles.of_safe (Safe.read _) fun cache => ?_
    refine Settles.of_safe (testPages_safe ht cache) fun pages => ?_
    cases pages with
    | none =>
      have hr : Safe [.evictionAndFlushLock, .evictionMutex] [.evictionAndFlushLock]
          (unlock .evictionMutex) :=
        Safe.release_of_mem (List.mem_cons_of_mem _ List.mem_cons_self)
      exact Settles.branch (((Safe.modify _).bind fun _ => hr).bind fun _ => Safe.pure _)
        List.mem_cons_self List.not_mem_nil
    | some pages =>
      exact (Safe.bind unlock_safe fun _ =>
        (evictPagesOf_safe none (below_evictionMutex (by decide)) pages).bind fun _ =>
          endEviction_safe.bind fun _ => Safe.pure _).settles

/-! ## Replacement in `UnifiedDBMIN` -/

/-- the loop has the lock at its end, but for the `break` after a page could not be evicted -/
theorem replaceWhile_breaks (goOn : LocalitySet → Bool) (hb : Below Lock.rank 1 h) (fuel : Nat) :
    Breaks .evictionAndFlushLock h (.evictionAndFlushLock :: h) (replaceWhile goOn set fuel) := by
  have hc : Below Lock.rank 3 (Lock.evictionAndFlushLock :: h) := (hb.mono (by decide)).cons (by decide)
  induction fuel with
  | zero => exact Safe.breaks Safe.stop
  | succ fuel ih =>
    refine Breaks.of_safe (Safe.read _) fun u => ?_
    split
    · refine Breaks.of_safe (selectPageForReplacement_safe hc) fun pageToEvict => ?_
      cases pageToEvict with
      | none => exact (Safe.pure _).breaks
      | some page =>
        refine Breaks.of_safe unlock_safe fun _ => ?_
        refine Breaks.of_safe (evictPagePtr_safe (some set) hb) fun ret => ?_
        split
        · exact Breaks.of_safe (lock_safe .evictionAndFlushLock hb) fun _ => ih
        · exact Breaks.branch _
    · exact (Safe.pure _).breaks

theorem evictLoop_settles (goOn : LocalitySet → Bool) (hb : Below Lock.rank 1 h) :
    Settles h h h (do evictionLock; replaceWhile goOn set fuel; evictionUnlock) :=
  Settles.of_safe (lock_safe .evictionAndFlushLock hb) fun _ =>
    (replaceWhile_breaks goOn hb fuel).release hb.notMem List.mem_cons_self

/-! ## Getting a page -/

theorem allocateBuffer_settles (fuel : Nat) :
    Settles [] [] [] (allocateBufferFromSharedMemoryBlocking costs fuel) := by
  induction fuel with
  | zero => exact Safe.stop.settles
  | succ fuel ih =>
    have hm : Safe [] [] mallocAlign := (Safe.read _).bind fun _ => (Safe.modify _).bind fun _ =>
      Safe.pure _
    refine Settles.of_safe hm fun ok => ?_
    split
    · exact (Safe.pure _).settles
    · refine Settles.bind ?_ (fun _ => ih) fun l hl => hl
      refine Settles.of_safe (Safe.read _) fun inEviction => ?_
      split
      · exact (Safe.modify _).settles
      · exact evict_settles

theorem loadPage_settles (partitionId pageSeqInPartition : Nat) :
    Settles [] [] [] (loadPage costs fuel set partitionId pageSeqInPartition) := by
  refine Settles.of_safe (Safe.read _) fun u => ?_
  split
  · exact (Safe.pure _).settles
  · exact Settles.bind (allocateBuffer_settles fuel) (fun _ => ((Safe.read _).bind fun _ =>
      (Safe.modify _).bind fun _ => Safe.pure _).settles) fun l hl => hl

theorem cachePage_safe (hb : Below Lock.rank 2 h) : Safe h h (cachePage page set) :=
  (lock_safe .cacheMutex hb).bind fun _ => (Safe.read _).bind fun _ => (Safe.modify _).bind fun _ =>
    unlock_safe

theorem cacheLoaded_safe (loaded : Option Nat) : Safe [] [] (cacheLoaded set loaded) := by
  cases loaded with
  | none => exact Safe.pure _
  | some page =>
    exact Safe.bind (setAccessSequenceId_safe Below.nil) fun _ =>
      (lock_safe .evictionMutex Below.nil).bind fun _ =>
        (cachePage_safe (below_evictionMutex (by decide))).bind fun _ => (Safe.modify _).bind fun _ =>
          (updateRefCount_safe _ (below_evictionMutex (by decide))).bind fun _ =>
            unlock_safe.bind fun _ => Safe.pure _

theorem makeRoomForDBMIN_settles : Settles [] [] [] (makeRoomForDBMIN fuel set) := by
  refine Settles.of_safe (Safe.read _) fun strategy => ?_
  split
  · refine Settles.of_safe (lock_safe .evictionMutex Below.nil) fun _ => ?_
    exact Settles.bind (evictLoop_settles _ (below_evictionMutex (by decide))) (fun _ => unlock_safe.settles)
      fun l hl => absurd hl List.not_mem_nil
  · exact (Safe.pure _).settles

theorem getPage_settles (place : Option (Nat × Nat)) (pageId : Nat) :
    Settles [] [] [] (getPage costs fuel set place pageId) := by
  refine Settles.bind makeRoomForDBMIN_settles (fun _ => ?_) fun l hl => hl
  refine Settles.of_safe (Safe.read _) fun u => ?_
  refine Settles.of_safe (lock_safe .evictionMutex Below.nil) fun _ => ?_
  refine Settles.of_safe (lock_safe .evictionAndFlushLock (below_evictionMutex (by decide))) fun _ => ?_
  refine Settles.of_safe (lock_safe .cacheMutex (below_evictionAndFlushLock (by decide))) fun _ => ?_
  refine Settles.of_safe (Safe.read _) fun entry => ?_
  refine Settles.of_safe unlock_safe fun _ => ?_
  rcases entry with _ | _ | page
  · refine Settles.of_safe unlock_safe fun _ => Settles.of_safe unlock_safe fun _ => ?_
    refine Settles.of_safe (Safe.read _) fun place => ?_
    exact Settles.bind (loadPage_settles _ _) (fun page => (cacheLoaded_safe page).settles) fun l hl => hl
  · exact (Safe.bind unlock_safe fun _ => unlock_safe.bind fun _ => Safe.pure _).settles
  · exact (Safe.bind (Safe.modify _) fun _ =>
      (updateRefCount_safe _ (below_evictionAndFlushLock (by decide))).bind fun _ =>
        unlock_safe.bind fun _ => unlock_safe.bind fun _ =>
          (setAccessSequenceId_safe Below.nil).bind fun _ =>
            (updateCachedPage_safe Below.nil).bind fun _ => Safe.pure _).settles

theorem getPage1_safe (pageId : Nat) (hb : Below Lock.rank 2 h) : Safe h h (getPage1 set pageId) := by
  refine Safe.bind (Safe.read _) fun u => ?_
  refine Safe.bind (lock_safe .cacheMutex hb) fun _ => Safe.bind (Safe.read _) fun entry => ?_
  rcases entry with _ | _ | page
  · exact Safe.bind unlock_safe fun _ => Safe.pure _
  · exact Safe.bind unlock_safe fun _ => Safe.pure _
  · exact Safe.bind (updateRefCount_safe _ ((hb.mono (by decide)).cons (by decide))) fun _ =>
      unlock_safe.bind fun _ => (setAccessSequenceId_safe hb).bind fun _ =>
        (updateCachedPage_safe hb).bind fun _ => Safe.pure _

/-! ## Iterators -/

/-- behind the last page the lock for eviction is kept -/
theorem next_settles (iter : Option Nat) : Settles [] [] [] (next costs fuel set iter) := by
  cases iter with
  | none =>
    exact Settles.of_safe (lock_safe .evictionAndFlushLock Below.nil) fun _ =>
      Settles.branch (Safe.pure _) List.mem_cons_self List.not_mem_nil
  | some pageId =>
    refine Settles.of_safe (lock_safe .evictionAndFlushLock Below.nil) fun _ => ?_
    refine Settles.of_safe (Safe.read _) fun key => ?_
    split
    · exact (Safe.bind (getPage1_safe pageId (Below.nil.cons (by decide))) fun _ =>
        (Safe.read _).bind fun _ => unlock_safe.bind fun _ => Safe.pure _).settles
    · refine Settles.of_safe unlock_safe fun _ => Settles.bind (getPage_settles _ _) (fun page => ?_) fun l hl => hl
      exact (Safe.bind (lock_safe (.dirtyPageSetMutex set) Below.nil) fun _ =>
        (Safe.read _).bind fun _ => (Safe.modify _).bind fun _ => unlock_safe.bind fun _ =>
          Safe.pure _).settles

theorem getIterators_safe : Safe [] [] (getIterators set) :=
  (locked_safe (.dirtyPageSetMutex set) Below.nil (Safe.modify _)).bind fun _ =>
    (lock_safe (.dirtyPageSetMutex set) Below.nil).bind fun _ => (Safe.read _).bind fun _ =>
      unlock_safe.bind fun _ => Safe.pure _

/-- by induction on the number of calls -/
theorem iterateFrom_settles (n : Nat) (iter : Option Nat) :
    Settles [] [] [] (iterateFrom costs fuel set n iter) := by
  induction n generalizing iter with
  | zero => exact (Safe.pure _).settles
  | succ n ih => exact Settles.bind (next_settles iter) (fun r => ih r.2) fun l hl => hl

theorem iterate_settles (n : Nat) : Settles [] [] [] (iterate costs fuel set n) := by
  refine Settles.of_safe getIterators_safe fun iterators => ?_
  split
  · exact (Safe.pure _).settles
  · exact iterateFrom_settles n _

/-! ## All pages of a set -/

theorem evictIterated_safe (fetched : Option Nat) : Safe [] [] (evictIterated set fetched) := by
  cases fetched with
  | none => exact Safe.pure _
  | some page =>
    exact Safe.bind (Safe.read _) fun _ => (Safe.read _).bind fun _ => (Safe.modify _).bind fun _ =>
      (evictPage_safe false Below.nil).bind fun _ => Safe.pure _

theorem evictDirtyOnes_settles (n : Nat) (iter : Option Nat) :
    Settles [] [] [] (evictDirtyOnes costs fuel set n iter) := by
  induction n generalizing iter with
  | zero =>
    cases iter with
    | none => exact (Safe.pure _).settles
    | some pageId => exact Safe.stop.settles
  | succ n ih =>
    cases iter with
    | none => exact (Safe.pure _).settles
    | some pageId =>
      exact Settles.bind (next_settles _) (fun r => Settles.of_safe (evictIterated_safe r.1) fun _ => ih r.2)
        fun l hl => hl

theorem evictPartition_settles (partitionId numIteratedPages n : Nat) :
    Settles [] [] [] (evictPartition costs fuel set partitionId numIteratedPages n) := by
  induction n generalizing numIteratedPages with
  | zero => exact (Safe.pure _).settles
  | succ n ih =>
    refine Settles.of_safe (Safe.read _) fun u => Settles.of_safe (Safe.read _) fun curPage => ?_
    exact Settles.bind (getPage_settles _ _)
      (fun page => Settles.of_safe (evictIterated_safe page) fun _ => ih _) fun l hl => hl

theorem evictPartitions_settles (iterators : List (Nat × Nat)) :
    Settles [] [] [] (evictPartitions costs fuel set iterators) := by
  induction iterators with
  | nil => exact (Safe.pure _).settles
  | cons iterator iterators ih =>
    exact Settles.bind (evictPartition_settles iterator.1 0 iterator.2) (fun _ => ih) fun l hl => hl

theorem setPinned_safe (isPinned : Bool) : Safe [] [] (setPinned set isPinned) :=
  locked_safe (.dirtyPageSetMutex set) Below.nil (Safe.modify _)

theorem evictPages_settles : Settles [] [] [] (evictPages costs fuel set) := by
  refine Settles.of_safe (Safe.read _) fun strategy => ?_
  split
  · exact evictLoop_settles _ Below.nil
  · refine Settles.of_safe (setPinned_safe true) fun _ => Settles.of_safe getIterators_safe fun iterators => ?_
    refine Settles.bind (evictDirtyOnes_settles fuel iterators.1) (fun _ => ?_) fun l hl => hl
    exact Settles.bind (evictPartitions_settles iterators.2) (fun _ => (setPinned_safe false).settles)
      fun l hl => hl

/-! ## The discipline -/

namespace Call

theorem run_settles (call : Call) : Settles call.held call.held call.held (call.run costs fuel) := by
  cases call with
  | evict => exact evict_settles
  | unpinAndEvictAllDirtyPages =>
    exact Settles.bind (evictDirtyPages_settles fun _ =>
      unpinDirty_safe (below_evictionAndFlushLock (by decide))) (fun _ => (Safe.pure _).settles)
      fun l hl => hl
  | evictAllDirtyPages =>
    exact Settles.bind (evictDirtyPages_settles fun _ =>
      isUnpinnedDirty_safe (below_evictionAndFlushLock (by decide))) (fun _ => (Safe.pure _).settles)
      fun l hl => hl
  | evictForDBMIN set => exact evictLoop_settles _ (below_evictionMutex (by decide))
  | evictPages set => exact evictPages_settles
  | iterate set n => exact iterate_settles n

/-- on every path, whatever the other threads do: the locks and the flag are as before exactly if none
of the four branches was taken -/
theorem disciplined_iff (costs : Costs) (fuel : Nat) (call : Call) (s s' : PageCache)
    (es : List (Event Lock Slip)) (hr : call.run costs fuel s = some ((), s', es)) :
    call.Disciplined s s' es ↔ Clean es := by
  have hiff := Settles.balanced_iff (run_settles call) hr
  constructor
  · intro hd
    exact hiff.mp hd.1
  · intro hc
    refine ⟨hiff.mpr hc, fun he hf => ?_⟩
    subst he
    exact evict_inEviction hr hf hc

/-- the first set and the first page -/
def firstCosts : Costs where
  queueOrder _ sets := sets
  enough _ _ := true

/-- a set with one clean page in the cache -/
def onePage (strategy : CacheStrategy) : PageCache where
  strategy
  evictStopSize := 0
  inEviction := false
  shared :=
    { pages := [{ key := { dbId := 1, typeId := 3, setId := 1, pageId := 0 }, rawSize := 64
                  hasBytes := true, refCount := 0, pinned := false, dirty := false, inFlush := false
                  inEviction := false, accessSequenceId := 0 }]
      cache := [({ dbId := 1, typeId := 3, setId := 1, pageId := 0 }, some 0)]
      size := 576
      accessCount := 1
      sets := [{ file := { partitions := [[(0, ())]], pageIndex := fun _ => none }
                 dirtyPagesInPageCache := [], isPinned := false, seqId := 1
                 key := { dbId := 1, typeId := 3, setId := 1 }, pageSize := 64, cachedPages := [0]
                 replacementPolicy := .LRU, operationType := .Read, desiredSize := 1
                 numCachedPages := 1 }]
      priorityList := [[], [], [0], [], [], []]
      flushBuffer := [] }
  others := []
  mallocs := []

/-- the page is evicted, and every lock is free again -/
theorem disciplined_onePage : ∃ s' es,
    Call.evict.run firstCosts 0 (onePage .UnifiedIntelligent) = some ((), s', es) ∧
      s'.shared.cache = [] ∧ Call.evict.Disciplined (onePage .UnifiedIntelligent) s' es := by
  refine ⟨_, _, rfl, rfl, ?_⟩
  have hr : Eviction.evict firstCosts (onePage .UnifiedIntelligent) = some ((), _, _) := rfl
  exact (disciplined_iff firstCosts 0 .evict _ _ _ hr).mpr ((evict_clean_iff hr).mpr (Or.inr (by decide)))

/-- in `UnifiedDBMIN` an eviction does not end -/
theorem disciplined_not_always : ¬ ∀ (costs : Costs) (fuel : Nat) (call : Call) (s s' : PageCache)
    (es : List (Event Lock Slip)), call.run costs fuel s = some ((), s', es) →
      call.Disciplined s s' es := by
  intro hall
  have hd := (hall firstCosts 0 .evict (onePage .UnifiedDBMIN) _ _ rfl).2 rfl rfl
  cases hd

end Call

end Eviction
end Netsdb
