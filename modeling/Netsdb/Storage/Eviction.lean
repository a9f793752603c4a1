import Netsdb.Storage.EvictionLocks

/-!
# The functions that evict (`PageCache.cc`, `UserSet.cc`, `SetCachePageIterator.cc`)

* `evict`, `evictDirtyPages`, `evictForDBMIN`   the three ways to evict of the page cache;
* `getPage`, `next`, `iterate`                  the pages of a set one after the other;
* `evictPages`                                  all pages of a set;
* `Call`                                        one of these functions, with the locks of its caller.

`fuel` bounds the rounds of the loops whose end depends on the other threads; a thread that uses it up
has not come back.  A set is given by its address, an iterator by the id of its page, `none` at the end.
-/

set_option linter.unusedSectionVars false

namespace Netsdb
namespace Eviction
open LockTrace

variable (costs : Costs)

/-! ## `evict` -/

def evictSelected (set : Nat) : Option (List Nat) → Run Nat
  | none => pure 0
  | some pagesToEvict => do
    evictionUnlock
    let numEvicted ← evictPagesOf (some set) pagesToEvict
    evictionLock
    pure numEvicted

/-- set after set, until a page was evicted -/
def evictFromSets : List Nat → Run Unit
  | [] => pure ()
  | set :: sets => do
    let pagesToEvict ← selectPagesForReplacement costs set
    let numEvicted ← evictSelected set pagesToEvict
    if 0 < numEvicted then pure () else evictFromSets sets

/-- the sets with a page that can be replaced -/
def replaceableSets : List Nat → Run (List Nat)
  | [] => pure []
  | set :: sets => do
    let page ← selectPageForReplacement set
    let rest ← replaceableSets sets
    pure (if page.isSome then set :: rest else rest)

def evictUnifiedCost : Run Unit := do
  evictionLock
  let priorityList ← get (·.shared.priorityList)
  let sets ← replaceableSets (priorityList.flatMap List.reverse)
  let localitySets ← get fun s => costs.queueOrder s.shared sets
  evictFromSets costs localitySets
  evictionUnlock

def evictUnifiedIntelligent : Run Unit := do
  evictionLock
  let priorityList ← get (·.shared.priorityList)
  evictFromSets costs priorityList.flatten
  evictionUnlock

/-- the pages of the cache that pass the test; `none`: there is a null page -/
def testPages (test : Nat → Run Bool) : List (CacheKey × Option Nat) → Run (Option (List Nat))
  | [] => pure (some [])
  | (_, none) :: _ => pure none
  | (_, some page) :: entries => do
    let passed ← test page
    let pages ← testPages test entries
    pure (if passed then pages.map (page :: ·) else pages)

def canBeEvicted (page : Nat) : Run Bool := do
  let refCount ← getRefCount page
  let p ← getPDBPage page
  pure (decide (refCount = 0) && (!p.dirty || p.dirty && !p.inFlush))

/-- the page that was accessed last comes first -/
def orderMRU (s : PageCache) (pages : List Nat) : List Nat :=
  pages.mergeSort fun a b =>
    decide (((s.shared.pages[b]?).map (·.accessSequenceId)).getD 0 ≤
      ((s.shared.pages[a]?).map (·.accessSequenceId)).getD 0)

def evictUntilStopSize : List Nat → Run Unit
  | [] => pure ()
  | page :: cachedPages => do
    let full ← get fun s => decide (s.evictStopSize < s.shared.size)
    if full then do
      let _ ← evictPagePtr page none
      evictUntilStopSize cachedPages
    else pure ()

def endEviction : Run Unit := do
  setInEviction false
  unlock .evictionMutex

/-- both here and for a null page the locks are given back -/
def evictUnified : Run Unit := do
  evictionLock
  let cache ← get (·.shared.cache)
  let pages ← testPages canBeEvicted cache
  match pages with
  | none => do
    setInEviction false
    evictionUnlock
    unlock .evictionMutex
  | some pages => do
    evictionUnlock
    let cachedPages ← get fun s => orderMRU s pages
    evictUntilStopSize cachedPages
    endEviction

def evictBy : CacheStrategy → Run Unit
  | .UnifiedCost => do
    evictUnifiedCost costs
    endEviction
  | .UnifiedIntelligent => do
    evictUnifiedIntelligent costs
    endEviction
  | .UnifiedDBMIN => do
    Prog.branch .dbminReturn
    pure ()
  | .UnifiedLRU => evictUnified
  | .UnifiedMRU => evictUnified

def evict : Run Unit := do
  let inEviction ← get PageCache.inEviction
  if inEviction then pure ()
  else do
    lock .evictionMutex
    setInEviction true
    let strategy : CacheStrategy ← get PageCache.strategy
    evictBy costs strategy

/-! ## The dirty pages -/

def evictDirtyPages (test : Nat → Run Bool) : Run Nat := do
  let inEviction ← get PageCache.inEviction
  if inEviction then pure 0
  else do
    lock .evictionMutex
    setInEviction true
    evictionLock
    let cache ← get (·.shared.cache)
    let evictableDirtyPages ← testPages test cache
    match evictableDirtyPages with
    | none => do
      Prog.branch .nullPage
      endEviction
      pure 0
    | some evictableDirtyPages => do
      evictionUnlock
      let numEvicted ← evictPagesOf none evictableDirtyPages
      endEviction
      pure numEvicted

/-- `while (page->getRefCount() > 0) page->decRefCount();` -/
def decRefCounts (page : Nat) : Nat → Run Unit
  | 0 => Prog.stop
  | fuel + 1 => do
    let refCount ← getRefCount page
    if 0 < refCount then do
      decRefCount page
      decRefCounts page fuel
    else pure ()

def unpinDirty (fuel page : Nat) : Run Bool := do
  let p ← getPDBPage page
  if p.dirty && !p.inFlush then do
    decRefCounts page fuel
    pure true
  else pure false

def isUnpinnedDirty (page : Nat) : Run Bool := do
  let p ← getPDBPage page
  if p.dirty then do
    let refCount ← getRefCount page
    let p ← getPDBPage page
    pure (decide (refCount = 0) && !p.inFlush)
  else pure false

def unpinAndEvictAllDirtyPages (fuel : Nat) : Run Nat := evictDirtyPages (unpinDirty fuel)

def evictAllDirtyPages : Run Nat := evictDirtyPages isUnpinnedDirty

/-! ## Replacement in `UnifiedDBMIN` -/

/-- `evictPageForDBMIN` runs without the lock; a failure leaves the loop without it -/
def replaceWhile (goOn : LocalitySet → Bool) (set : Nat) : Nat → Run Unit
  | 0 => Prog.stop
  | fuel + 1 => do
    let u ← getSet set
    if goOn u then do
      let pageToEvict ← selectPageForReplacement set
      match pageToEvict with
      | none => pure ()
      | some page => do
        evictionUnlock
        let ret ← evictPageForDBMIN page set
        if ret then do
          evictionLock
          replaceWhile goOn set fuel
        else Prog.branch .evictionFailed
    else pure ()

/-- a negative number is a large one next to a `size_t` -/
def LocalitySet.isFull (u : LocalitySet) : Bool :=
  decide (u.desiredSize ≤ (u.numCachedPages % 2 ^ 64).toNat)

def evictForDBMIN (fuel set : Nat) : Run Unit := do
  evictionLock
  replaceWhile LocalitySet.isFull set fuel
  evictionUnlock

/-! ## Getting a page -/

/-- `mallocAlign`: is there room? -/
def mallocAlign : Run Bool := do
  let ok ← get fun s => s.mallocs.headD true
  Prog.modify fun s => { s with mallocs := s.mallocs.tail }
  pure ok

def evictOrWait : Run Unit := do
  let inEviction ← get PageCache.inEviction
  if inEviction then Prog.modify PageCache.yield else evict costs

def allocateBufferFromSharedMemoryBlocking : Nat → Run Unit
  | 0 => Prog.stop
  | fuel + 1 => do
    let ok ← mallocAlign
    if ok then pure ()
    else do
      evictOrWait costs
      allocateBufferFromSharedMemoryBlocking fuel

/-- the new page, its id as it is in the file; `none`: there is no such page -/
def loadPage (fuel set partitionId pageSeqInPartition : Nat) : Run (Option Nat) := do
  let u ← getSet set
  match u.file.load partitionId pageSeqInPartition with
  | none => pure none
  | some (pageId, _) => do
    allocateBufferFromSharedMemoryBlocking costs fuel
    let page ← get (·.shared.pages.length)
    write fun s =>
      { s with
        pages := s.pages ++
          [{ key := { u.key with pageId }, rawSize := u.pageSize, hasBytes := true, refCount := 0
             pinned := true, dirty := false, inFlush := false, inEviction := false
             accessSequenceId := 0 }] }
    pure (some page)

def LocalitySet.countPage (u : LocalitySet) (strategy : CacheStrategy) : LocalitySet :=
  if strategy = .UnifiedDBMIN then { u with numCachedPages := u.numCachedPages + 1 } else u

/-- a page that is there already stays in the cache -/
def Shared.insertPage (s : Shared) (page : Nat) (strategy : CacheStrategy) (set : Nat) : Shared :=
  match s.pages[page]? with
  | none => s
  | some p =>
    if (s.find p.key).isSome then s
    else
      let s := { s with cache := s.cache ++ [(p.key, some page)], size := s.size + (p.rawSize + 512) }
      s.updateSet set fun u => u.countPage strategy

def cachePage (page set : Nat) : Run Unit := do
  lock .cacheMutex
  let strategy : CacheStrategy ← get PageCache.strategy
  write fun s => (s.insertPage page strategy set).updateSet set fun u =>
    { u with cachedPages := u.cachedPages ++ [page] }
  unlock .cacheMutex

/-- behind `loadPage` -/
def cacheLoaded (set : Nat) : Option Nat → Run (Option Nat)
  | none => pure none
  | some page => do
    setAccessSequenceId page
    lock .evictionMutex
    cachePage page set
    write fun s => s.updatePage page fun p => { p with pinned := true, dirty := false }
    incRefCount page
    unlock .evictionMutex
    pure (some page)

def makeRoomForDBMIN (fuel set : Nat) : Run Unit := do
  let strategy : CacheStrategy ← get PageCache.strategy
  if strategy = .UnifiedDBMIN then do
    lock .evictionMutex
    evictForDBMIN fuel set
    unlock .evictionMutex
  else pure ()

/-- `place` is `none` when the ids `-1` are given -/
def placeOf (u : LocalitySet) (place : Option (Nat × Nat)) (pageId : Nat) : Option (Nat × Nat) :=
  place.orElse fun _ => u.file.pageIndex pageId

def getPage (fuel set : Nat) (place : Option (Nat × Nat)) (pageId : Nat) : Run (Option Nat) := do
  makeRoomForDBMIN fuel set
  let u ← getSet set
  lock .evictionMutex
  evictionLock
  lock .cacheMutex
  let entry ← get fun s => s.shared.find { u.key with pageId }
  unlock .cacheMutex
  match entry with
  | none => do
    evictionUnlock
    unlock .evictionMutex
    let place ← Prog.read fun _ => placeOf u place pageId
    let page ← loadPage costs fuel set place.1 place.2
    cacheLoaded set page
  | some none => do
    evictionUnlock
    unlock .evictionMutex
    pure none
  | some (some page) => do
    write fun s => s.updatePage page fun p => { p with pinned := true }
    incRefCount page
    evictionUnlock
    unlock .evictionMutex
    setAccessSequenceId page
    updateCachedPage page set
    pure (some page)

/-- of a dirty page; the caller has the lock for eviction -/
def getPage1 (set pageId : Nat) : Run (Option Nat) := do
  let u ← getSet set
  lock .cacheMutex
  let entry ← get fun s => s.shared.find { u.key with pageId }
  match entry with
  | none => do
    unlock .cacheMutex
    pure none
  | some none => do
    unlock .cacheMutex
    pure none
  | some (some page) => do
    incRefCount page
    unlock .cacheMutex
    setAccessSequenceId page
    updateCachedPage page set
    pure (some page)

/-! ## Iterators -/

def updateUserSet (set : Nat) (f : UserSet Unit → UserSet Unit) : Run Unit :=
  write fun s => s.updateSet set fun u => { u with toUserSet := f u.toUserSet }

/-- the entry at an iterator -/
def searchKey (set pageId : Nat) : Run FileSearchKey := Prog.read fun s =>
  (s.shared.sets[set]?).bind fun u =>
    (u.dirtyPagesInPageCache.find? fun e => e.1 = pageId).map (·.2)

/-- the page, and the iterator behind it -/
def next (fuel set : Nat) : Option Nat → Run (Option Nat × Option Nat)
  | none => do
    evictionLock
    Prog.branch .noMorePage
    pure (none, none)
  | some pageId => do
    evictionLock
    let key ← searchKey set pageId
    if key.inCache then do
      let page ← getPage1 set pageId
      let u ← getSet set
      evictionUnlock
      pure (page, u.nextEntry (some pageId))
    else do
      evictionUnlock
      let page ← getPage costs fuel set key.place pageId
      lock (.dirtyPageSetMutex set)
      let u ← getSet set
      updateUserSet set fun u => u.eraseDirtyPage pageId
      unlock (.dirtyPageSetMutex set)
      pure (page, u.nextEntry (some pageId))

def cleanDirtyPageSet (set : Nat) : Run Unit := do
  lock (.dirtyPageSetMutex set)
  updateUserSet set UserSet.cleanDirtyPageSet
  unlock (.dirtyPageSetMutex set)

/-- the iterator of the dirty pages, `none` if there are none, and the partitions with pages, each with
the number of its pages -/
def getIterators (set : Nat) : Run (Option Nat × List (Nat × Nat)) := do
  cleanDirtyPageSet set
  lock (.dirtyPageSetMutex set)
  let u ← getSet set
  unlock (.dirtyPageSetMutex set)
  pure (u.dirtyPagesInPageCache.head?.map (·.1),
    (u.file.partitions.mapIdx fun i pages => (i, pages.length)).filter fun e => 0 < e.2)

/-- `n` calls of `next`, or none when there was no dirty page -/
def iterateFrom (fuel set : Nat) : Nat → Option Nat → Run Unit
  | 0, _ => pure ()
  | n + 1, iter => do
    let r ← next costs fuel set iter
    iterateFrom fuel set n r.2

/-- the life of a `SetCachePageIterator` -/
def iterate (fuel set n : Nat) : Run Unit := do
  let iterators ← getIterators set
  match iterators.1 with
  | none => pure ()
  | some pageId => iterateFrom costs fuel set n (some pageId)

/-! ## All pages of a set -/

def setPinned (set : Nat) (isPinned : Bool) : Run Unit := do
  lock (.dirtyPageSetMutex set)
  updateUserSet set fun u => { u with isPinned }
  unlock (.dirtyPageSetMutex set)

def evictIterated (set : Nat) : Option Nat → Run Unit
  | none => pure ()
  | some page => do
    let p ← getPDBPage page
    let u ← getSet set
    write fun s => s.updatePage page fun p => { p with refCount := 0 }
    let _ ← evictPage { u.key with pageId := p.key.pageId } false
    pure ()

/-- while the iterator of the dirty pages has a next page -/
def evictDirtyOnes (fuel set : Nat) : Nat → Option Nat → Run Unit
  | _, none => pure ()
  | 0, some _ => Prog.stop
  | n + 1, some pageId => do
    let r ← next costs fuel set (some pageId)
    evictIterated set r.1
    evictDirtyOnes fuel set n r.2

/-- the pages of a partition from `numIteratedPages` on; `n` of them are left -/
def evictPartition (fuel set partitionId : Nat) : Nat → Nat → Run Unit
  | _, 0 => pure ()
  | numIteratedPages, n + 1 => do
    let u ← getSet set
    let curPage ← Prog.read fun _ => u.file.load partitionId numIteratedPages
    let page ← getPage costs fuel set (some (partitionId, numIteratedPages)) curPage.1
    evictIterated set page
    evictPartition fuel set partitionId (numIteratedPages + 1) n

def evictPartitions (fuel set : Nat) : List (Nat × Nat) → Run Unit
  | [] => pure ()
  | (partitionId, numPages) :: iterators => do
    evictPartition costs fuel set partitionId 0 numPages
    evictPartitions fuel set iterators

def evictAllIterated (fuel set : Nat) : Run Unit := do
  setPinned set true
  let iterators ← getIterators set
  evictDirtyOnes costs fuel set fuel iterators.1
  evictPartitions costs fuel set iterators.2
  setPinned set false

def evictAllForDBMIN (fuel set : Nat) : Run Unit := do
  evictionLock
  replaceWhile (fun u => decide (0 < u.numCachedPages)) set fuel
  evictionUnlock

def evictPages (fuel set : Nat) : Run Unit := do
  let strategy : CacheStrategy ← get PageCache.strategy
  if strategy = .UnifiedDBMIN then evictAllForDBMIN fuel set
  else evictAllIterated costs fuel set

/-! ## Calls -/

inductive Call
  | evict
  | unpinAndEvictAllDirtyPages
  | evictAllDirtyPages
  | evictForDBMIN (set : Nat)
  | evictPages (set : Nat)
  /-- the life of an iterator, with the number of the calls of `next` -/
  | iterate (set n : Nat)

namespace Call

/-- the callers of `evictForDBMIN` have `evictionMutex` -/
def held : Call → List Lock
  | .evictForDBMIN _ => [.evictionMutex]
  | _ => []

def run (fuel : Nat) : Call → Run Unit
  | .evict => Eviction.evict costs
  | .unpinAndEvictAllDirtyPages => do
    let _ ← Eviction.unpinAndEvictAllDirtyPages fuel
    pure ()
  | .evictAllDirtyPages => do
    let _ ← Eviction.evictAllDirtyPages
    pure ()
  | .evictForDBMIN set => Eviction.evictForDBMIN fuel set
  | .evictPages set => Eviction.evictPages costs fuel set
  | .iterate set n => Eviction.iterate costs fuel set n

/-- the locks are as before, and no eviction is left open -/
def Disciplined (call : Call) (s s' : PageCache) (es : List (Event Lock Slip)) : Prop :=
  hold call.held es = some call.held ∧
    (call = .evict → s.inEviction = false → s'.inEviction = false)

end Call
end Eviction
end Netsdb
