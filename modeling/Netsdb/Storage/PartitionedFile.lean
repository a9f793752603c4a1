import Netsdb.Lib.Codec
import Netsdb.Lib.FiniteMap
import Netsdb.Lib.Reach

/-!
# The metadata of a partitioned file, and its form on disk

* `PartitionedFileMetaData`  what is known of the flushed and of the shared pages;
* `PartitionedFile.step`     what changes it in memory: pages appended and shared;
* `PartitionedFile.writeMeta`, `buildMetaDataFromMetaPartition`  the meta partition, out and in.

An `unordered_map` is a list of entries with distinct keys; the order in which an iterator visits
them is not known and is a parameter of the writer.
-/

namespace Netsdb

structure PageIndex where
  partitionId : UInt32
  pageSeqInPartition : UInt32
deriving DecidableEq

structure SetKey where
  dbId : UInt32
  typeId : UInt32
  setId : UInt32
deriving DecidableEq

/-- a file name, as its bytes -/
abbrev Path := List UInt8

structure PartitionMetaData where
  partitionId : UInt32
  numPages : UInt32
  path : Path
deriving DecidableEq

/-- a null pointer to a table of shared pages is the empty table: the first page added makes it -/
structure PartitionedFileMetaData where
  version : UInt16
  partitions : List PartitionMetaData
  pageSize : UInt64
  numFlushedPages : UInt32
  latestPageId : UInt32
  pageIndexes : List (UInt32 × PageIndex)
  pageIds : List (PageIndex × UInt32)
  /-- an `int`, as its 32 bits -/
  numSharedPages : UInt32
  sharedSetKey : SetKey
  sharedPageIndexes : List PageIndex
  sharedPageMaps : List (UInt32 × List (UInt32 × PageIndex))
deriving DecidableEq

namespace PartitionedFileMetaData

/-- the constructor; `latestPageId` and `sharedSetKey` are not initialised -/
def empty (latestPageId : UInt32) (sharedSetKey : SetKey) : PartitionedFileMetaData :=
  { version := 0, partitions := [], pageSize := 0, numFlushedPages := 0, latestPageId
    pageIndexes := [], pageIds := [], numSharedPages := 0, sharedSetKey
    sharedPageIndexes := [], sharedPageMaps := [] }

/-- `insert` of an `unordered_map` keeps an entry that is there -/
def addPageIndex (m : PartitionedFileMetaData) (pageId partitionId pageSeqInPartition : UInt32) :
    PartitionedFileMetaData :=
  let pageIndex : PageIndex := { partitionId, pageSeqInPartition }
  { m with
    pageIndexes := FiniteMap.enter m.pageIndexes pageId pageIndex
    pageIds := FiniteMap.enter m.pageIds pageIndex pageId }

def incNumFlushedPages (m : PartitionedFileMetaData) : PartitionedFileMetaData :=
  { m with numFlushedPages := m.numFlushedPages + 1 }

def addPartition (m : PartitionedFileMetaData) (partition : PartitionMetaData) :
    PartitionedFileMetaData :=
  { m with partitions := m.partitions ++ [partition] }

/-- `incNumPages` of a partition -/
def incNumPages (m : PartitionedFileMetaData) (partitionId : Nat) : PartitionedFileMetaData :=
  { m with
    partitions := m.partitions.modify partitionId fun p => { p with numPages := p.numPages + 1 } }

/-- `map[key] = value` of an `unordered_map` -/
def put {K V : Type} [BEq K] (l : List (K × V)) (k : K) (v : V) : List (K × V) :=
  FiniteMap.assign (FiniteMap.enter l k v) k v

/-- the shared pages of a partition -/
def sharedPageMap (m : PartitionedFileMetaData) (partitionId : UInt32) :
    List (UInt32 × PageIndex) :=
  (m.sharedPageMaps.lookup partitionId).getD []

def addSharedPageIndex (m : PartitionedFileMetaData)
    (pageId partitionId pageSeqInPartition : UInt32) : PartitionedFileMetaData :=
  let pageIndex : PageIndex := { partitionId, pageSeqInPartition }
  { m with
    sharedPageIndexes := m.sharedPageIndexes ++ [pageIndex]
    sharedPageMaps :=
      put m.sharedPageMaps partitionId (put (m.sharedPageMap partitionId) pageId pageIndex)
    numSharedPages := m.numSharedPages + 1 }

/-- equal in every field; a map is the collection of its entries -/
structure Same (m m' : PartitionedFileMetaData) : Prop where
  version : m'.version = m.version
  partitions : m'.partitions = m.partitions
  pageSize : m'.pageSize = m.pageSize
  numFlushedPages : m'.numFlushedPages = m.numFlushedPages
  latestPageId : m'.latestPageId = m.latestPageId
  pageIndexes : m'.pageIndexes.Perm m.pageIndexes
  pageIds : m'.pageIds.Perm m.pageIds
  numSharedPages : m'.numSharedPages = m.numSharedPages
  sharedSetKey : m'.sharedSetKey = m.sharedSetKey
  sharedPageIndexes : m'.sharedPageIndexes = m.sharedPageIndexes
  sharedPageMaps : ∀ partitionId, (m'.sharedPageMap partitionId).Perm (m.sharedPageMap partitionId)

end PartitionedFileMetaData

/-! ## The file in memory -/

structure PartitionedFile where
  dataPartitionPaths : List Path
  metaData : PartitionedFileMetaData
  /-- the file of the meta partition is open -/
  metaFile : Bool
  cleared : Bool
deriving DecidableEq

namespace PartitionedFile
open PartitionedFileMetaData

/-- the constructor, with the meta file opened; `sharedSetKey` is not initialised -/
def new (dataPartitionPaths : List Path) (pageSize : UInt64) (sharedSetKey : SetKey) :
    PartitionedFile :=
  { dataPartitionPaths
    metaData :=
      { empty (-1) sharedSetKey with
        pageSize
        partitions := dataPartitionPaths.mapIdx fun i path =>
          { partitionId := UInt32.ofNat i, numPages := 0, path } }
    metaFile := true
    cleared := false }

/-- what is done to a file; `appended` is false when the partition has no open handle or the write
fails, and the data of a page is not part of the metadata -/
inductive Op
  | appendPage (partitionId pageId : UInt32) (appended : Bool)
  | setSharedSet (sharedSet : SetKey)
  | addSharedPage (pageId partitionId pageSequentialID : UInt32)
  | clear

def latest (m : PartitionedFileMetaData) (pageId : UInt32) : UInt32 :=
  if pageId > m.latestPageId ∨ m.latestPageId = -1 then pageId else m.latestPageId

/-- what an append that succeeds leaves behind -/
def recordPage (m : PartitionedFileMetaData) (p : PartitionMetaData) (partitionId pageId : UInt32) :
    PartitionedFileMetaData :=
  let m := m.incNumFlushedPages
  let m := { m with latestPageId := latest m pageId }
  (m.addPageIndex pageId partitionId p.numPages).incNumPages partitionId.toNat

/-- `appendPage` and `appendPageDirect` change the metadata alike; a partition id that is not there
throws `out_of_range` -/
def appendPage (f : PartitionedFile) (partitionId pageId : UInt32) (appended : Bool) :
    Option PartitionedFile :=
  (f.metaData.partitions[partitionId.toNat]?).map fun p =>
    if f.cleared || !appended then f
    else { f with metaData := recordPage f.metaData p partitionId pageId }

def step (f : PartitionedFile) : Op → Option PartitionedFile
  | .appendPage partitionId pageId appended => f.appendPage partitionId pageId appended
  | .setSharedSet sharedSet =>
    some { f with metaData := { f.metaData with sharedSetKey := sharedSet } }
  | .addSharedPage pageId partitionId pageSequentialID =>
    some { f with
      metaData := f.metaData.addSharedPageIndex pageId partitionId pageSequentialID }
  | .clear => some { f with metaFile := false, cleared := true }

end PartitionedFile
end Netsdb
