import Netsdb.Storage.PageLife

/-!
# The scan of a set (`UserSet::getIterators` and the iterators)

A scan has one iterator over the table of dirty pages, if that is not empty, and one over each
partition that has pages.  Meanwhile the flush consumers are at work.

* `SetCachePageIterator`, `PartitionPageIterator`  the iterators, each with the pages it has returned;
* `Fetch`           a call of `getPage` that an iterator is in the middle of;
* `SetScan.step`    one step of one thread: of a flush consumer, of `getIterators`, of an iterator.

The iterator of the table points at an entry, known by its page id: a table keeps the order of its
entries when one is taken out.
-/

set_option linter.unusedSectionVars false

namespace Netsdb

/-- a call of `getPage`, and the id of the page it returns, `none` for a null pointer -/
inductive Fetch
  | lookup (pageId : Nat) (place : Option (Nat × Nat))
  | load (partitionId pageSeqInPartition : Nat)
  | got (page : Option Nat)
deriving DecidableEq

structure SetCachePageIterator where
  /-- `none`: the end -/
  iter : Option Nat
  fetch : Option Fetch
  returned : List Nat
deriving DecidableEq

structure PartitionPageIterator where
  partitionId : Nat
  numPages : Nat
  numIteratedPages : Nat
  fetch : Option Fetch
  returned : List Nat
deriving DecidableEq

/-- where `getIterators` is -/
inductive ScanPlace
  | begun
  /-- behind `cleanDirtyPageSet` -/
  | cleaned
  /-- with the lock of the table, before this partition -/
  | counting (partitionId : Nat)
  /-- it has returned -/
  | scanning
deriving DecidableEq

/-- the steps of the flush consumers -/
inductive FlushOp
  | popPageFromHead (partitionId : Nat)
  | appendPage (partitionId : Nat) (fails : Bool)
  | removePageFromDirtyPageSet (partitionId : Nat)
  | freeFlushed (partitionId : Nat)
  | flushUnlock (partitionId : Nat)

inductive ScanOp
  | flush (op : FlushOp)
  | setPinned (isPinned : Bool)
  | cleanDirtyPageSet
  | lockDirtyPageSet
  | countPartition
  | unlockDirtyPageSet
  /-- the iterator of the table; the page is in the cache, or is to be fetched -/
  | next
  | fetch
  /-- the entry of a page that was fetched is taken out of the table -/
  | eraseFetched
  /-- the iterator of a partition, by its position among these iterators -/
  | nextOnDisk (i : Nat)
  | fetchOnDisk (i : Nat)

structure SetScan (C : Type*) where
  server : PangeaStorageServer C
  set : SetKey
  place : ScanPlace
  cacheIter : Option SetCachePageIterator
  fileIters : List PartitionPageIterator

namespace UserSet
variable {C : Type*}

def cleanDirtyPageSet (u : UserSet C) : UserSet C :=
  { u with dirtyPagesInPageCache := u.dirtyPagesInPageCache.filter fun e => e.2.inCache }

def eraseDirtyPage (u : UserSet C) (pageId : Nat) : UserSet C :=
  { u with dirtyPagesInPageCache := u.dirtyPagesInPageCache.filter fun e => e.1 ≠ pageId }

/-- the entries of the table from one on -/
def entriesFrom (u : UserSet C) : Option Nat → List (Nat × FileSearchKey)
  | none => []
  | some pageId => u.dirtyPagesInPageCache.dropWhile fun e => e.1 ≠ pageId

/-- `++iter` -/
def nextEntry (u : UserSet C) (iter : Option Nat) : Option Nat :=
  ((u.entriesFrom iter).tail.head?).map (·.1)

end UserSet

namespace PangeaStorageServer
variable {C : Type*} [Inhabited C]

def flushStep (s : PangeaStorageServer C) : FlushOp → Option (PangeaStorageServer C)
  | .popPageFromHead partitionId => s.popPageFromHead partitionId
  | .appendPage partitionId fails => s.appendPage partitionId fails
  | .removePageFromDirtyPageSet partitionId => s.removePageFromDirtyPageSet partitionId
  | .freeFlushed partitionId => s.freeFlushed partitionId
  | .flushUnlock partitionId => s.flushUnlock partitionId

/-- the page whose entry in the table of the set the step changes -/
def removesFrom (s : PangeaStorageServer C) (set : SetKey) : FlushOp → Option Nat
  | .removePageFromDirtyPageSet partitionId =>
    match s.flushConsumers[partitionId]? with
    | some (some (page, .appended _)) =>
      (s.pages[page]?).bind fun p => if p.key.toSetKey = set then some p.key.pageId else none
    | _ => none
  | _ => none

/-- the page that the cache has for a key, as the id it carries -/
def cachedId (s : PangeaStorageServer C) (key : CacheKey) : Option Nat :=
  ((s.cache key).bind fun page => s.pages[page]?).map fun p => p.key.pageId

/-- one step of `getPage` -/
def fetchStep (s : PangeaStorageServer C) (set : SetKey) :
    Fetch → Option (PangeaStorageServer C × Fetch)
  | .lookup pageId place =>
    let key : CacheKey := ⟨set, pageId⟩
    (s.getPage key place).map fun s' =>
      (s',
        if (s.cache key).isSome then .got (s.cachedId key)
        else
          match place.orElse fun _ => (s.sets set).bind fun u => u.file.pageIndex pageId with
          | some (partitionId, seq) => .load partitionId seq
          | none => .got none)
  | .load partitionId seq =>
    (s.loadPage set partitionId seq).map fun s' =>
      (s', .got (((s.sets set).bind fun u => u.file.load partitionId seq).map (·.1)))
  | .got _ => none

end PangeaStorageServer

namespace SetScan
variable {C : Type*}

/-- the table of the set is locked -/
def tableLocked (x : SetScan C) : Bool :=
  match x.place with
  | .counting _ => true
  | _ => false

def userSet (x : SetScan C) : Option (UserSet C) := x.server.sets x.set

def updateUserSet (x : SetScan C) (u : UserSet C) : SetScan C :=
  { x with server := x.server.updateSet x.set u }

variable [Inhabited C]

/-- `none`: the entry that the iterator points at is gone -/
def next (x : SetScan C) (it : SetCachePageIterator) : Option (SetScan C) :=
  match it.fetch, it.iter, x.server.unlocked with
  | none, some pageId, true =>
    x.userSet.bind fun u =>
      match u.entriesFrom it.iter with
      | [] => none
      | (_, k) :: _ =>
        if k.inCache then
          (x.server.getPage1 ⟨x.set, pageId⟩).map fun server =>
            { x with
              server
              cacheIter := some { it with
                iter := u.nextEntry it.iter
                returned := it.returned ++ (x.server.cachedId ⟨x.set, pageId⟩).toList } }
        else some { x with cacheIter := some { it with fetch := some (.lookup pageId k.place) } }
  | _, _, _ => none

def eraseFetched (x : SetScan C) (it : SetCachePageIterator) : Option (SetScan C) :=
  match it.fetch, it.iter with
  | some (.got page), some pageId =>
    x.userSet.map fun u =>
      { x.updateUserSet (u.eraseDirtyPage pageId) with
        cacheIter := some {
          iter := u.nextEntry it.iter, fetch := none, returned := it.returned ++ page.toList } }
  | _, _ => none

def nextOnDisk (x : SetScan C) (i : Nat) (it : PartitionPageIterator) : Option (SetScan C) :=
  if it.fetch = none ∧ it.numIteratedPages < it.numPages then
    x.userSet.bind fun u => (u.file.load it.partitionId it.numIteratedPages).map fun curPage =>
      { x with
        fileIters := x.fileIters.set i { it with
          fetch := some (.lookup curPage.1 (some (it.partitionId, it.numIteratedPages))) } }
  else none

def fetchOnDisk (x : SetScan C) (i : Nat) (it : PartitionPageIterator) : Option (SetScan C) :=
  it.fetch.bind fun f => (x.server.fetchStep x.set f).map fun (server, f') =>
    { x with
      server
      fileIters := x.fileIters.set i <|
        match f' with
        | .got page =>
          { it with
            numIteratedPages := it.numIteratedPages + 1, fetch := none
            returned := it.returned ++ page.toList }
        | _ => { it with fetch := some f' } }

/-- `none`: not possible in this state -/
def step (x : SetScan C) : ScanOp → Option (SetScan C)
  | .flush op =>
    if x.tableLocked && (x.server.removesFrom x.set op).isSome then none
    else (x.server.flushStep op).map fun server => { x with server }
  | .setPinned isPinned =>
    if x.tableLocked then none
    else x.userSet.map fun u => x.updateUserSet { u with isPinned }
  | .cleanDirtyPageSet =>
    if x.place = .begun then
      x.userSet.map fun u => { x.updateUserSet u.cleanDirtyPageSet with place := .cleaned }
    else none
  | .lockDirtyPageSet =>
    if x.place = .cleaned then
      x.userSet.map fun u =>
        { x with
          place := .counting 0
          cacheIter := u.dirtyPagesInPageCache.head?.map fun e =>
            { iter := some e.1, fetch := none, returned := [] } }
    else none
  | .countPartition =>
    match x.place with
    | .counting partitionId =>
      x.userSet.bind fun u => (u.file.partitions[partitionId]?).map fun pages =>
        { x with
          place := .counting (partitionId + 1)
          fileIters :=
            if 0 < pages.length then
              x.fileIters ++ [{
                partitionId, numPages := pages.length, numIteratedPages := 0, fetch := none
                returned := [] }]
            else x.fileIters }
    | _ => none
  | .unlockDirtyPageSet =>
    match x.place, x.userSet with
    | .counting partitionId, some u =>
      if partitionId = u.file.partitions.length then some { x with place := .scanning } else none
    | _, _ => none
  | .next => if x.place = .scanning then x.cacheIter.bind x.next else none
  | .fetch =>
    x.cacheIter.bind fun it => it.fetch.bind fun f => (x.server.fetchStep x.set f).map fun r =>
      { x with server := r.1, cacheIter := some { it with fetch := some r.2 } }
  | .eraseFetched => x.cacheIter.bind x.eraseFetched
  | .nextOnDisk i =>
    if x.place = .scanning then (x.fileIters[i]?).bind fun it => x.nextOnDisk i it else none
  | .fetchOnDisk i => (x.fileIters[i]?).bind fun it => x.fetchOnDisk i it

/-- the pages that the scan has returned, over all iterators -/
def returned (x : SetScan C) : List Nat :=
  (x.cacheIter.elim [] (·.returned)) ++ x.fileIters.flatMap (·.returned)

/-- no iterator has a next page -/
def Finished (x : SetScan C) : Prop :=
  x.place = .scanning ∧ (∀ it ∈ x.cacheIter, it.iter = none) ∧
    ∀ it ∈ x.fileIters, it.fetch = none ∧ it.numIteratedPages = it.numPages

/-- the page belongs to the set -/
def HasPage (x : SetScan C) (pageId : Nat) : Prop :=
  ∃ u, x.userSet = some u ∧
    ((∃ k, (pageId, k) ∈ u.dirtyPagesInPageCache) ∨
      ∃ partitionId seq bytes, u.file.load partitionId seq = some (pageId, bytes))

end SetScan
end Netsdb
