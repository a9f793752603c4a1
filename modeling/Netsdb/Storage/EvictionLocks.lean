import Netsdb.Lib.LockTrace
import Netsdb.Storage.SetScan

/-!
# Eviction and its locks (`PageCache.cc`, `LocalitySet.cc`, `UserSet.cc`, `SetCachePageIterator.cc`)

* `Lock`       the mutexes of the page cache, of its sets and pages and of the flush buffer;
* `PageCache`  the cache, its pages and sets as one thread finds them;
* `Run`        what a thread does, with the trace of the locks that it takes and gives back;
* `Slip`       the four branches of the source that leave a function with the wrong locks.

The other threads may change the pages, the cache and the sets each time this one takes a lock
(`others`); `inEviction` is only written under `evictionMutex`.  A null pointer that is followed, a
missing entry and a loop that goes on for ever stop the thread.  A full flush buffer is waited for.
-/

set_option linter.unusedSectionVars false

namespace Netsdb
namespace Eviction
open LockTrace

/-! ## The locks and the state -/

inductive Lock
  | evictionMutex
  /-- a read-write lock; one thread has it once -/
  | evictionAndFlushLock
  | cacheMutex
  | countLock
  | addPageMutex
  /-- the mutex of the flush buffer -/
  | mutex
  | dirtyPageSetMutex (set : Nat)
  | localitySetCacheMutex (set : Nat)
  | refCountMutex (page : Nat)
deriving DecidableEq

inductive Slip
  /-- `evict` returns at once in `UnifiedDBMIN` -/
  | dbminReturn
  /-- a null page in the cache ends `evictAllDirtyPages` -/
  | nullPage
  /-- `break` after a page could not be evicted -/
  | evictionFailed
  /-- `next` behind the last page -/
  | noMorePage
deriving DecidableEq

inductive CacheStrategy
  | UnifiedLRU
  | UnifiedMRU
  | UnifiedCost
  | UnifiedIntelligent
  | UnifiedDBMIN
deriving DecidableEq

inductive ReplacementPolicy
  | LRU
  | MRU
  | Random
deriving DecidableEq

inductive OperationType
  | Read
  | RepeatedRead
  | Write
deriving DecidableEq

/-- `hasBytes`: the memory is not freed -/
structure PDBPage where
  key : CacheKey
  rawSize : Nat
  hasBytes : Bool
  refCount : Nat
  pinned : Bool
  dirty : Bool
  inFlush : Bool
  inEviction : Bool
  accessSequenceId : Nat
deriving DecidableEq

/-- the fields of `LocalitySet` beside those of `UserSet` -/
structure LocalitySet extends UserSet Unit where
  key : SetKey
  pageSize : Nat
  cachedPages : List Nat
  replacementPolicy : ReplacementPolicy
  operationType : OperationType
  desiredSize : Nat
  numCachedPages : Int

/-- what all threads write; a page and a set are given by their addresses -/
structure Shared where
  pages : List PDBPage
  cache : List (CacheKey × Option Nat)
  size : Nat
  accessCount : Nat
  sets : List LocalitySet
  /-- one list for each priority level -/
  priorityList : List (List Nat)
  flushBuffer : List Nat

/-- what the other threads do next -/
structure Others where
  write : Shared → Shared
  /-- whether one of them is in an eviction then -/
  inEviction : Bool

structure PageCache where
  strategy : CacheStrategy
  evictStopSize : Nat
  inEviction : Bool
  shared : Shared
  others : List Others
  /-- which of the next allocations find room; those behind the last all do -/
  mallocs : List Bool

/-- the comparisons of doubles: the order in which the queue of `evict` gives the sets, and how many
pages of how many are enough -/
structure Costs where
  queueOrder : Shared → List Nat → List Nat
  enough : Nat → Nat → Bool

abbrev Run (α : Type) := Prog Lock Slip PageCache α

namespace PageCache

def interleave (s : PageCache) : PageCache :=
  match s.others with
  | [] => s
  | o :: others => { s with shared := o.write s.shared, others }

/-- while this thread waits, the eviction of another one may come to its end -/
def yield (s : PageCache) : PageCache :=
  match s.others with
  | [] => s
  | o :: others => { s with shared := o.write s.shared, inEviction := o.inEviction, others }

end PageCache

namespace Shared

def updatePage (s : Shared) (page : Nat) (f : PDBPage → PDBPage) : Shared :=
  { s with pages := s.pages.modify page f }

def updateSet (s : Shared) (set : Nat) (f : LocalitySet → LocalitySet) : Shared :=
  { s with sets := s.sets.modify set f }

/-- `find`, with the page of the entry -/
def find (s : Shared) (key : CacheKey) : Option (Option Nat) :=
  (s.cache.find? fun e => e.1 = key).map (·.2)

end Shared

/-! ## Locks and fields -/

def lock (l : Lock) : Run Unit := do
  Prog.acquire l
  Prog.modify PageCache.interleave

def unlock (l : Lock) : Run Unit := Prog.release l

def get {α : Type} (f : PageCache → α) : Run α := Prog.read fun s => some (f s)

def getPDBPage (page : Nat) : Run PDBPage := Prog.read fun s => s.shared.pages[page]?

def getSet (set : Nat) : Run LocalitySet := Prog.read fun s => s.shared.sets[set]?

def write (f : Shared → Shared) : Run Unit := Prog.modify fun s => { s with shared := f s.shared }

def setInEviction (b : Bool) : Run Unit := Prog.modify fun s => { s with inEviction := b }

def onlyIf (b : Bool) (p : Run Unit) : Run Unit := if b then p else pure ()

def evictionLock : Run Unit := lock .evictionAndFlushLock

def evictionUnlock : Run Unit := unlock .evictionAndFlushLock

def flushLock : Run Unit := lock .evictionAndFlushLock

def flushUnlock : Run Unit := unlock .evictionAndFlushLock

/-! ## Pages -/

def getRefCount (page : Nat) : Run Nat := do
  lock (.refCountMutex page)
  let p ← getPDBPage page
  unlock (.refCountMutex page)
  pure p.refCount

def updateRefCount (page : Nat) (f : PDBPage → PDBPage) : Run Unit := do
  lock (.refCountMutex page)
  write fun s => s.updatePage page f
  unlock (.refCountMutex page)

def incRefCount (page : Nat) : Run Unit :=
  updateRefCount page fun p => { p with refCount := p.refCount + 1, pinned := true }

def decRefCount (page : Nat) : Run Unit :=
  updateRefCount page fun p =>
    { p with refCount := p.refCount - 1, pinned := p.pinned && !decide (p.refCount ≤ 1) }

def addPageToTail (page : Nat) : Run Unit := do
  lock .addPageMutex
  write fun s => { s with flushBuffer := s.flushBuffer ++ [page] }
  unlock .addPageMutex
  lock .mutex
  unlock .mutex

def setAccessSequenceId (page : Nat) : Run Unit := do
  lock .countLock
  write fun s =>
    { s.updatePage page fun p => { p with accessSequenceId := s.accessCount } with
      accessCount := s.accessCount + 1 }
  unlock .countLock

/-! ## Locality sets -/

def eraseCachedPage (page set : Nat) : Run Unit :=
  write fun s => s.updateSet set fun u => { u with cachedPages := u.cachedPages.erase page }

def updateCachedPage (page set : Nat) : Run Unit := do
  let u ← getSet set
  onlyIf (decide (page ∈ u.cachedPages)) do
    lock (.localitySetCacheMutex set)
    eraseCachedPage page set
    unlock (.localitySetCacheMutex set)
  lock (.localitySetCacheMutex set)
  write fun s => s.updateSet set fun u => { u with cachedPages := u.cachedPages ++ [page] }
  unlock (.localitySetCacheMutex set)

/-- the order in which a page to replace is looked for -/
def LocalitySet.replacementOrder (u : LocalitySet) : List Nat :=
  if u.replacementPolicy = .MRU then u.cachedPages.reverse else u.cachedPages

def firstUnpinned : List Nat → Run (Option Nat)
  | [] => pure none
  | page :: pages => do
    let refCount ← getRefCount page
    if refCount = 0 then pure (some page) else firstUnpinned pages

def selectPageForReplacement (set : Nat) : Run (Option Nat) := do
  let u ← getSet set
  firstUnpinned u.replacementOrder

def collectUnpinned (isLast : Nat → Bool) (retPages : List Nat) : List Nat → Run (List Nat)
  | [] => pure retPages
  | page :: pages => do
    let refCount ← getRefCount page
    if refCount = 0 then
      if isLast (retPages.length + 1) then pure (retPages ++ [page])
      else collectUnpinned isLast (retPages ++ [page]) pages
    else collectUnpinned isLast retPages pages

def LocalitySet.isLast (costs : Costs) (u : LocalitySet) (numPages : Nat) : Bool :=
  if u.operationType = .Write then true
  else if u.replacementPolicy = .MRU then numPages = 1
  else costs.enough numPages u.cachedPages.length

/-- no page: a null pointer -/
def selectPagesForReplacement (costs : Costs) (set : Nat) : Run (Option (List Nat)) := do
  let u ← getSet set
  let retPages ← collectUnpinned (u.isLast costs) [] u.replacementOrder
  pure (if retPages = [] then none else some retPages)

/-! ## Evicting one page -/

def removePage (key : CacheKey) : Run Unit := do
  lock .cacheMutex
  write fun s =>
    match s.cache.find? fun e => e.1 = key with
    | some (_, some page) =>
      { s with
        cache := s.cache.filter fun e => e.1 ≠ key
        size := s.size - (((s.pages[page]?).map (·.rawSize)).getD 0 + 512) }
    | _ => s
  unlock .cacheMutex

def freeUnpinned (page : Nat) (key : CacheKey) : Run Unit := do
  flushLock
  write fun s => s.updatePage page fun p => { p with hasBytes := false }
  removePage key
  flushUnlock

def flushOrFree (page : Nat) (key : CacheKey) (tryFlushOrNot : Bool) (p : PDBPage) : Run Unit :=
  if tryFlushOrNot && p.dirty && !p.inFlush && p.key.isFlushed then do
    write fun s => s.updatePage page fun p => { p with inFlush := true, inEviction := true }
    addPageToTail page
  else if p.inFlush then
    write fun s => s.updatePage page fun p => { p with inEviction := true }
  else freeUnpinned page key

def evictPage (key : CacheKey) (tryFlushOrNot : Bool) : Run Bool := do
  let entry ← get fun s => s.shared.find key
  match entry with
  | none => pure false
  | some none => Prog.stop
  | some (some page) => do
    let refCount ← getRefCount page
    if 0 < refCount then pure false
    else do
      write fun s => s.updatePage page fun p => { p with pinned := false }
      let p ← getPDBPage page
      flushOrFree page key tryFlushOrNot p
      pure true

/-- the set no longer has the page -/
def removeCachedPage (page set : Nat) : Run Unit := do
  eraseCachedPage page set
  let strategy ← get PageCache.strategy
  onlyIf (strategy = .UnifiedDBMIN) <| write fun s => s.updateSet set fun u =>
    { u with numCachedPages := u.numCachedPages - 1 }

def removeFromSet (page : Nat) : Option Nat → Run Unit
  | none => pure ()
  | some set => removeCachedPage page set

/-- `evictPage` of a page that is given by its pointer -/
def evictPagePtr (page : Nat) (set : Option Nat) : Run Bool := do
  let p ← getPDBPage page
  let ret ← evictPage p.key true
  onlyIf ret (removeFromSet page set)
  pure ret

def evictPageForDBMIN (page set : Nat) : Run Bool := evictPagePtr page (some set)

/-- with the number of pages that were evicted -/
def evictPagesOf (set : Option Nat) : List Nat → Run Nat
  | [] => pure 0
  | page :: pages => do
    let ret ← evictPagePtr page set
    let numEvicted ← evictPagesOf set pages
    pure (if ret then numEvicted + 1 else numEvicted)

end Eviction
end Netsdb
