import Netsdb.Lib.Bytes

/-!
# The header of a page (`PDBPage.cc`)

* `PDBPage.preparePage`   writes the header;
* `PDBPage.ofBytes`       the constructor for a page that is not empty;
* `readBack_numOwners`    it reads the number of owners from the upper half of the size;
* `header_roundTrip`      when the header is read as it was written.
-/

set_option linter.unusedSectionVars false

namespace Netsdb
namespace PageBytes
open Bytes

/-- the fields that the header is made of, and where the next record goes; an `int` is its 32 bits -/
structure PDBPage where
  rawBytes : Mem
  nodeID : UInt32
  dbID : UInt32
  typeID : UInt32
  setID : UInt32
  pageID : UInt32
  numObjects : UInt32
  size : UInt64
  numOwners : UInt32
  curAppendOffset : UInt64
  /-- where the page is in the shared memory -/
  offset : UInt64
  internalOffset : UInt32

/-- `sizeof` of the five ids -/
def idsSize : Nat := 4 + 4 + 4 + 4 + 4

/-- the ids, `numObjects`, `size` and `numOwners` -/
def pageHeaderSize : Nat := idsSize + 4 + 8 + 4

namespace PDBPage

def store32 (m : Mem) (a : Nat) (x : UInt32) : Mem := storeNat m a 4 x.toNat

def store64 (m : Mem) (a : Nat) (x : UInt64) : Mem := storeNat m a 8 x.toNat

def load32 (m : Mem) (a : Nat) : UInt32 := UInt32.ofNat (loadNat m a 4)

def load64 (m : Mem) (a : Nat) : UInt64 := UInt64.ofNat (loadNat m a 8)

/-- the constructor for an empty page -/
def new (dataIn : Mem) (dataNodeID dataDbID dataTypeID dataSetID dataPageID : UInt32)
    (dataSize shmOffset : UInt64) (internalOffset numObjectsIn sharedCounts : UInt32) : PDBPage :=
  { rawBytes :=
      store32 (store64 (store32 dataIn idsSize numObjectsIn) (idsSize + 4) dataSize)
        (idsSize + 4 + 8) sharedCounts
    nodeID := dataNodeID, dbID := dataDbID, typeID := dataTypeID, setID := dataSetID
    pageID := dataPageID, numObjects := numObjectsIn, size := dataSize, numOwners := sharedCounts
    curAppendOffset := UInt64.ofNat pageHeaderSize, offset := shmOffset, internalOffset }

/-- the constructor for a page that is not empty; behind the size, `cur` goes on by the size of an
`unsigned int` -/
def ofBytes (dataIn : Mem) (offset : UInt64) (internalOffset : UInt32) : PDBPage :=
  { rawBytes := dataIn
    nodeID := load32 dataIn 0
    dbID := load32 dataIn 4
    typeID := load32 dataIn (4 + 4)
    setID := load32 dataIn (4 + 4 + 4)
    pageID := load32 dataIn (4 + 4 + 4 + 4)
    numObjects := load32 dataIn idsSize
    size := load64 dataIn (idsSize + 4)
    numOwners := load32 dataIn (idsSize + 4 + 4)
    curAppendOffset := UInt64.ofNat pageHeaderSize, offset, internalOffset }

def preparePage (p : PDBPage) : PDBPage :=
  let m := store32 p.rawBytes 0 p.nodeID
  let m := store32 m 4 p.dbID
  let m := store32 m (4 + 4) p.typeID
  let m := store32 m (4 + 4 + 4) p.setID
  let m := store32 m (4 + 4 + 4 + 4) p.pageID
  let m := store32 m idsSize 0
  let m := store64 m (idsSize + 4) p.size
  let m := store32 m (idsSize + 4 + 8) p.numOwners
  { p with rawBytes := m, curAppendOffset := UInt64.ofNat pageHeaderSize }

/-- the page that is made from the bytes of a prepared page -/
def readBack (p : PDBPage) (offset : UInt64) (internalOffset : UInt32) : PDBPage :=
  ofBytes p.preparePage.rawBytes offset internalOffset

structure SameHeader (p q : PDBPage) : Prop where
  nodeID : q.nodeID = p.nodeID
  dbID : q.dbID = p.dbID
  typeID : q.typeID = p.typeID
  setID : q.setID = p.setID
  pageID : q.pageID = p.pageID
  size : q.size = p.size
  numOwners : q.numOwners = p.numOwners

variable {m : Mem} {a b x : Nat}

theorem load32_store32 (m : Mem) (a : Nat) (v : UInt32) : load32 (store32 m a v) a = v := by
  rw [load32, store32, loadNat_storeNat m a v.toNat_lt]
  exact UInt32.ofNat_toNat

theorem load64_store64 (m : Mem) (a : Nat) (v : UInt64) : load64 (store64 m a v) a = v := by
  rw [load64, store64, loadNat_storeNat m a v.toNat_lt]
  exact UInt64.ofNat_toNat

theorem load32_store32_of_disjoint {v : UInt32} (h : b + 4 ≤ a ∨ a + 4 ≤ b) :
    load32 (store32 m a v) b = load32 m b := by
  rw [load32, store32, loadNat_storeNat_of_disjoint h, load32]

theorem load32_store64_of_disjoint {v : UInt64} (h : b + 4 ≤ a ∨ a + 8 ≤ b) :
    load32 (store64 m a v) b = load32 m b := by
  rw [load32, store64, loadNat_storeNat_of_disjoint h, load32]

theorem load64_store32_of_disjoint {v : UInt32} (h : b + 8 ≤ a ∨ a + 4 ≤ b) :
    load64 (store32 m a v) b = load64 m b := by
  rw [load64, store32, loadNat_storeNat_of_disjoint h, load64]

/-- the upper half of a number of 64 bits -/
theorem load32_store64_upper (m : Mem) (a : Nat) (v : UInt64) :
    load32 (store64 m a v) (a + 4) = UInt32.ofNat (v.toNat / 2 ^ 32) := by
  have hpart := loadNat_part m a 4 4 v.toNat
  have hlt : v.toNat / 2 ^ 32 < 2 ^ 32 := by
    have := v.toNat_lt
    omega
  rw [load32, store64, hpart]
  show UInt32.ofNat (v.toNat / 2 ^ 32 % 2 ^ 32) = _
  rw [Nat.mod_eq_of_lt hlt]

variable (p : PDBPage) (offset : UInt64) (internalOffset : UInt32)

/-- the ids and the size are read as they were written -/
theorem readBack_ids : (p.readBack offset internalOffset).nodeID = p.nodeID ∧
    (p.readBack offset internalOffset).dbID = p.dbID ∧
    (p.readBack offset internalOffset).typeID = p.typeID ∧
    (p.readBack offset internalOffset).setID = p.setID ∧
    (p.readBack offset internalOffset).pageID = p.pageID ∧
    (p.readBack offset internalOffset).size = p.size := by
  unfold readBack ofBytes preparePage idsSize
  dsimp only
  refine ⟨?_, ?_, ?_, ?_, ?_, ?_⟩
  all_goals
    simp (disch := omega) only [load32_store32_of_disjoint, load32_store64_of_disjoint,
      load64_store32_of_disjoint, load32_store32, load64_store64]

theorem readBack_numOwners :
    (p.readBack offset internalOffset).numOwners = UInt32.ofNat (p.size.toNat / 2 ^ 32) := by
  unfold readBack ofBytes preparePage idsSize
  dsimp only
  rw [load32_store32_of_disjoint (.inl (Nat.le_refl _)), load32_store64_upper]

/-- the header is what is written -/
theorem preparePage_outside (h : pageHeaderSize ≤ x) : p.preparePage.rawBytes x = p.rawBytes x := by
  unfold pageHeaderSize idsSize at h
  unfold preparePage store32 store64 idsSize
  dsimp only
  simp (disch := omega) only [storeNat_outside]

/-- **The header**: it is read as it was written if and only if the number of owners is the upper
half of the size; nothing behind it is touched. -/
theorem header_roundTrip : (∀ x, pageHeaderSize ≤ x → p.preparePage.rawBytes x = p.rawBytes x) ∧
    p.preparePage.curAppendOffset = UInt64.ofNat pageHeaderSize ∧
    (SameHeader p (p.readBack offset internalOffset) ↔
      p.numOwners = UInt32.ofNat (p.size.toNat / 2 ^ 32)) := by
  refine ⟨fun x hx => preparePage_outside p hx, rfl, fun h => ?_, fun h => ?_⟩
  · rw [← h.numOwners, readBack_numOwners]
  · obtain ⟨hnode, hdb, htype, hset, hpage, hsize⟩ := readBack_ids p offset internalOffset
    exact ⟨hnode, hdb, htype, hset, hpage, hsize, by rw [readBack_numOwners, h]⟩

/-- **A page of `4096` bytes with two owners**: it is read as a page without owners -/
theorem header_not_always :
    ((new (fun _ => 0) 1 2 3 4 5 4096 0 0 0 2).readBack 0 0).numOwners = 0 ∧
      ¬ SameHeader (new (fun _ => 0) 1 2 3 4 5 4096 0 0 0 2)
        ((new (fun _ => 0) 1 2 3 4 5 4096 0 0 0 2).readBack 0 0) := by
  have hzero : ((new (fun _ => 0) 1 2 3 4 5 4096 0 0 0 2).readBack 0 0).numOwners = 0 := by
    rw [readBack_numOwners]
    decide
  refine ⟨hzero, fun h => ?_⟩
  have htwo : (0 : UInt32) = 2 := hzero.symm.trans h.numOwners
  exact absurd htwo (by decide)

end PDBPage
end PageBytes
end Netsdb
