import Netsdb.Storage.PartitionedFile
import Netsdb.Lib.Reach

/-!
# The page cache and the flush consumers (`PageCache.cc`, `PDBFlushConsumerWork.cc`)

* `DataFile`               the pages in the partitions of a file, and where each page is;
* `PangeaStorageServer`    the pages, the cache, the sets, the flush buffer and the threads that are
                           in the middle of something;
* `PangeaStorageServer.step`  one step of one thread: what it does between two operations on a lock.

A page is known by its address, its position in `pages`.  The read-write lock `evictionAndFlushLock`
is held for writing only inside of a step; a flush consumer holds it for reading from the append to
the end.  Page ids and positions in a partition stay below `2 ^ 32`.
-/

set_option linter.unusedSectionVars false

namespace Netsdb

structure CacheKey extends SetKey where
  pageId : Nat
deriving DecidableEq

/-- where a page is that was dirty: `place` is its partition and its position there, `none` the ids
`-1` -/
structure FileSearchKey where
  inCache : Bool
  place : Option (Nat × Nat)
deriving DecidableEq

/-! ## Files -/

/-- a partition is the list of its pages, each with its id; `pageIndex` is a map of the metadata -/
structure DataFile (C : Type*) where
  partitions : List (List (Nat × C))
  pageIndex : Nat → Option (Nat × Nat)

namespace DataFile
variable {C : Type*}

/-- the page at a place -/
def load (f : DataFile C) (partitionId pageSeqInPartition : Nat) : Option (Nat × C) :=
  (f.partitions[partitionId]?).bind fun pages => pages[pageSeqInPartition]?

/-- `insert` keeps an entry that is there -/
def addPageIndex (f : DataFile C) (pageId : Nat) (place : Nat × Nat) : DataFile C :=
  { f with
    pageIndex := fun i =>
      if i = pageId then (f.pageIndex i).orElse fun _ => some place else f.pageIndex i }

/-- `appendPage`, with the position of the page; `none`: there is no such partition -/
def appendPage (f : DataFile C) (partitionId pageId : Nat) (bytes : C) : Option (DataFile C × Nat) :=
  (f.partitions[partitionId]?).map fun pages =>
    ({ f with
        partitions := f.partitions.set partitionId (pages ++ [(pageId, bytes)]) }.addPageIndex pageId
      (partitionId, pages.length), pages.length)

end DataFile

/-! ## Pages and sets -/

/-- what has become of the one that called `addPage` -/
inductive Writer
  /-- before `addPageToDirtyPageSet` -/
  | adding
  | writing
  | unpinned
deriving DecidableEq

/-- `rawBytes` is the contents of the memory, `none` once it is freed; `writer` is not a field of the
program -/
structure PDBPage (C : Type*) where
  key : CacheKey
  rawBytes : Option C
  refCount : Nat
  dirty : Bool
  inFlush : Bool
  /-- not set before the page is queued -/
  inEviction : Bool
  writer : Writer
deriving DecidableEq

structure UserSet (C : Type*) where
  file : DataFile C
  dirtyPagesInPageCache : List (Nat × FileSearchKey)
  isPinned : Bool
  /-- the next page id -/
  seqId : Nat

namespace UserSet
variable {C : Type*}

def addPageToDirtyPageSet (u : UserSet C) (pageId : Nat) : UserSet C :=
  if u.dirtyPagesInPageCache.any (fun e => e.1 = pageId) then u
  else
    { u with
      dirtyPagesInPageCache :=
        u.dirtyPagesInPageCache ++ [(pageId, { inCache := true, place := none })] }

/-- in a pinned set the page is only marked as flushed -/
def removePageFromDirtyPageSet (u : UserSet C) (pageId : Nat) (place : Option (Nat × Nat)) :
    UserSet C :=
  if u.isPinned then
    { u with
      dirtyPagesInPageCache := u.dirtyPagesInPageCache.map fun e =>
        if e.1 = pageId then (pageId, { inCache := false, place }) else e }
  else
    { u with
      dirtyPagesInPageCache := u.dirtyPagesInPageCache.filter fun e => e.1 ≠ pageId }

end UserSet

/-- `evictPage` frees the dirty pages of two types of database 0 without a flush; the ids of databases
start with 1 -/
def CacheKey.isFlushed (key : CacheKey) : Bool :=
  (key.dbId ≠ 0 || key.typeId ≠ 1) && (key.dbId ≠ 0 || key.typeId ≠ 2)

/-- how far a flush consumer is with its page -/
inductive FlushStage
  | popped
  /-- the position in the file, `none` when the append failed -/
  | appended (ret : Option Nat)
  | removed
  | freed
deriving DecidableEq

structure PangeaStorageServer (C : Type*) where
  pages : List (PDBPage C)
  cache : CacheKey → Option Nat
  sets : SetKey → Option (UserSet C)
  flushBuffer : List Nat
  /-- one for each partition, with the page that it is busy with -/
  flushConsumers : List (Option (Nat × FlushStage))
  /-- the pages that some `evictPage` has found clean and is about to free -/
  evicting : List Nat
  /-- the pages that some `getPage` has not found and is about to load -/
  loading : List (SetKey × Nat × Nat)

/-- one step of one thread; a page is given by its address -/
inductive CacheOp (C : Type*)
  | getNewPage (set : SetKey)
  | addPageToDirtyPageSet (page : Nat)
  /-- by the one that added the page -/
  | write (page : Nat) (bytes : C)
  /-- by the one that added the page -/
  | unpin (page : Nat)
  /-- by one that got the page from `getPage` -/
  | decRefCount (page : Nat)
  /-- `place` is `none` when the ids `-1` are given -/
  | getPage (key : CacheKey) (place : Option (Nat × Nat))
  | loadPage (set : SetKey) (partitionId pageSeqInPartition : Nat)
  | getPage1 (key : CacheKey)
  | evictPage (key : CacheKey) (tryFlushOrNot : Bool)
  /-- the part of `evictPage` under the flush lock -/
  | freeEvicted (page : Nat)
  | setPinned (set : SetKey) (isPinned : Bool)
  | popPageFromHead (partitionId : Nat)
  | appendPage (partitionId : Nat) (fails : Bool)
  | removePageFromDirtyPageSet (partitionId : Nat)
  | freeFlushed (partitionId : Nat)
  | flushUnlock (partitionId : Nat)

namespace PangeaStorageServer
variable {C : Type*}

def updatePage (s : PangeaStorageServer C) (page : Nat) (f : PDBPage C → PDBPage C) :
    PangeaStorageServer C :=
  { s with pages := s.pages.modify page f }

def updateSet (s : PangeaStorageServer C) (set : SetKey) (u : UserSet C) : PangeaStorageServer C :=
  { s with sets := Function.update s.sets set (some u) }

def removePage (s : PangeaStorageServer C) (key : CacheKey) : PangeaStorageServer C :=
  { s with cache := Function.update s.cache key none }

/-- a page that is there already stays -/
def cachePage (s : PangeaStorageServer C) (key : CacheKey) (page : Nat) : PangeaStorageServer C :=
  if (s.cache key).isSome then s
  else { s with cache := Function.update s.cache key (some page) }

def setConsumer (s : PangeaStorageServer C) (partitionId : Nat) (c : Option (Nat × FlushStage)) :
    PangeaStorageServer C :=
  { s with flushConsumers := s.flushConsumers.set partitionId c }

/-- a consumer holds the lock from the append on -/
def holdsLock : Option (Nat × FlushStage) → Bool
  | none | some (_, .popped) => false
  | _ => true

/-- the lock can be had for writing -/
def unlocked (s : PangeaStorageServer C) : Bool := s.flushConsumers.all fun c => !holdsLock c

/-- an empty page, pinned and dirty -/
def newPage [Inhabited C] (key : CacheKey) : PDBPage C :=
  { key, rawBytes := some default, refCount := 1, dirty := true, inFlush := false
    inEviction := false, writer := .adding }

def loadedPage (key : CacheKey) (bytes : C) : PDBPage C :=
  { key, rawBytes := some bytes, refCount := 1, dirty := false, inFlush := false
    inEviction := false, writer := .unpinned }

/-! ## The cache -/

variable [Inhabited C]

/-- `UserSet::addPage` takes the next id; a page that is there already is not made again -/
def getNewPage (s : PangeaStorageServer C) (set : SetKey) : Option (PangeaStorageServer C) :=
  if s.unlocked then
    (s.sets set).map fun u =>
      let key : CacheKey := { set with pageId := u.seqId }
      let s := s.updateSet set { u with seqId := u.seqId + 1 }
      if (s.cache key).isSome then s
      else { s with pages := s.pages ++ [newPage key] }.cachePage key s.pages.length
  else none

/-- a hit, or the beginning of a load -/
def getPage (s : PangeaStorageServer C) (key : CacheKey) (place : Option (Nat × Nat)) :
    Option (PangeaStorageServer C) :=
  if s.unlocked then
    match s.cache key with
    | some page => some (s.updatePage page fun p => { p with refCount := p.refCount + 1 })
    | none =>
      match place.orElse fun _ => (s.sets key.toSetKey).bind fun u => u.file.pageIndex key.pageId with
      | some place => some { s with loading := s.loading ++ [(key.toSetKey, place)] }
      | none => some s
  else none

/-- the rest of a load; the id of the page is read from the file -/
def loadPage (s : PangeaStorageServer C) (set : SetKey) (partitionId pageSeqInPartition : Nat) :
    Option (PangeaStorageServer C) :=
  if (set, partitionId, pageSeqInPartition) ∈ s.loading then
    let s := { s with loading := s.loading.erase (set, partitionId, pageSeqInPartition) }
    match (s.sets set).bind fun u => u.file.load partitionId pageSeqInPartition with
    | none => some s
    | some (pageId, bytes) =>
      let key : CacheKey := { set with pageId }
      some ({ s with pages := s.pages ++ [loadedPage key bytes] }.cachePage key s.pages.length)
  else none

/-- the dirty pages come from here -/
def getPage1 (s : PangeaStorageServer C) (key : CacheKey) : Option (PangeaStorageServer C) :=
  if s.unlocked then
    match s.cache key with
    | some page => some (s.updatePage page fun p => { p with refCount := p.refCount + 1 })
    | none => some s
  else none

/-- up to the flush lock; a caller need not hold any lock -/
def evictPage (s : PangeaStorageServer C) (key : CacheKey) (tryFlushOrNot : Bool) :
    Option (PangeaStorageServer C) :=
  match s.cache key with
  | none => some s
  | some page =>
    (s.pages[page]?).map fun p =>
      if 0 < p.refCount then s
      else if tryFlushOrNot && p.dirty && !p.inFlush && p.key.isFlushed then
        { s.updatePage page fun p => { p with inFlush := true, inEviction := true } with
          flushBuffer := s.flushBuffer ++ [page] }
      else if p.inFlush then s.updatePage page fun p => { p with inEviction := true }
      else { s with evicting := s.evicting ++ [page] }

/-- `none`: freed before -/
def freeEvicted (s : PangeaStorageServer C) (page : Nat) : Option (PangeaStorageServer C) :=
  if page ∈ s.evicting then
    (s.pages[page]?).bind fun p =>
      p.rawBytes.map fun _ =>
        ({ s with evicting := s.evicting.erase page }.updatePage page fun p =>
          { p with rawBytes := none }).removePage p.key
  else none

/-! ## The flush consumers -/

def popPageFromHead (s : PangeaStorageServer C) (partitionId : Nat) :
    Option (PangeaStorageServer C) :=
  match s.flushConsumers[partitionId]?, s.flushBuffer with
  | some none, page :: flushBuffer =>
    some ({ s with flushBuffer }.setConsumer partitionId (some (page, .popped)))
  | _, _ => none

/-- the lock is taken, and the page is appended when its set exists -/
def appendPage (s : PangeaStorageServer C) (partitionId : Nat) (fails : Bool) :
    Option (PangeaStorageServer C) :=
  match s.flushConsumers[partitionId]? with
  | some (some (page, .popped)) =>
    (s.pages[page]?).map fun p =>
      match s.sets p.key.toSetKey, p.rawBytes with
      | some u, some bytes =>
        match if fails then none else u.file.appendPage partitionId p.key.pageId bytes with
        | some (file, ret) =>
          (s.updateSet p.key.toSetKey { u with file }).setConsumer partitionId
            (some (page, .appended (some ret)))
        | none => s.setConsumer partitionId (some (page, .appended none))
      | _, _ => s.setConsumer partitionId (some (page, .removed))
  | _ => none

/-- also when the append has failed -/
def removePageFromDirtyPageSet (s : PangeaStorageServer C) (partitionId : Nat) :
    Option (PangeaStorageServer C) :=
  match s.flushConsumers[partitionId]? with
  | some (some (page, .appended ret)) =>
    (s.pages[page]?).bind fun p =>
      (s.sets p.key.toSetKey).map fun u =>
        (s.updateSet p.key.toSetKey (u.removePageFromDirtyPageSet p.key.pageId
          (ret.map fun seq => (partitionId, seq)))).setConsumer partitionId (some (page, .removed))
  | _ => none

def freeFlushed (s : PangeaStorageServer C) (partitionId : Nat) : Option (PangeaStorageServer C) :=
  match s.flushConsumers[partitionId]? with
  | some (some (page, .removed)) =>
    (s.pages[page]?).map fun p =>
      (if p.rawBytes.isSome && p.refCount = 0 && p.inEviction then
        s.updatePage page fun p => { p with rawBytes := none }
      else s).setConsumer partitionId (some (page, .freed))
  | _ => none

/-- the page leaves the cache, its flags are cleared, and the lock is given back -/
def flushUnlock (s : PangeaStorageServer C) (partitionId : Nat) : Option (PangeaStorageServer C) :=
  match s.flushConsumers[partitionId]? with
  | some (some (page, .freed)) =>
    (s.pages[page]?).map fun p =>
      ((if p.refCount = 0 && p.inEviction then s.removePage p.key else s).updatePage page fun p =>
        { p with inFlush := false, dirty := false }).setConsumer partitionId none
  | _ => none

/-- `none`: not possible in this state -/
def step (s : PangeaStorageServer C) : CacheOp C → Option (PangeaStorageServer C)
  | .getNewPage set => s.getNewPage set
  | .addPageToDirtyPageSet page =>
    (s.pages[page]?).bind fun p =>
      if p.writer = .adding then
        (s.sets p.key.toSetKey).map fun u =>
          (s.updateSet p.key.toSetKey (u.addPageToDirtyPageSet p.key.pageId)).updatePage page
            fun p => { p with writer := .writing }
      else none
  | .write page bytes =>
    (s.pages[page]?).bind fun p =>
      if p.writer = .writing then
        some (s.updatePage page fun p => { p with rawBytes := some bytes })
      else none
  | .unpin page =>
    (s.pages[page]?).bind fun p =>
      if p.writer = .writing then
        some (s.updatePage page fun p =>
          { p with refCount := p.refCount - 1, writer := .unpinned })
      else none
  | .decRefCount page =>
    (s.pages[page]?).bind fun p =>
      if (if p.writer = .unpinned then 0 else 1) < p.refCount then
        some (s.updatePage page fun p => { p with refCount := p.refCount - 1 })
      else none
  | .getPage key place => s.getPage key place
  | .loadPage set partitionId pageSeqInPartition => s.loadPage set partitionId pageSeqInPartition
  | .getPage1 key => s.getPage1 key
  | .evictPage key tryFlushOrNot => s.evictPage key tryFlushOrNot
  | .freeEvicted page => s.freeEvicted page
  | .setPinned set isPinned =>
    (s.sets set).map fun u => s.updateSet set { u with isPinned }
  | .popPageFromHead partitionId => s.popPageFromHead partitionId
  | .appendPage partitionId fails => s.appendPage partitionId fails
  | .removePageFromDirtyPageSet partitionId => s.removePageFromDirtyPageSet partitionId
  | .freeFlushed partitionId => s.freeFlushed partitionId
  | .flushUnlock partitionId => s.flushUnlock partitionId

end PangeaStorageServer
end Netsdb
