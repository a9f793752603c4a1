import Mathlib.Logic.Function.Basic
import Netsdb.ObjectModel.Allocator

/-!
# The index of shared blocks (`FFMatrixBlockIndex.h`, `SharedFFMatrixBlockSet.h`)

Tensor blocks that several sets have in common are stored once, in a shared set.  The index maps a
block and a set that shares it to the metadata that the block has in that set.

* `getSetKey`, `insertIndex`, `getTargetMetadata`   as in the source;
* `own`                  what a set has put into the index;
* `HasOwnKey`            no other set uses the key of the set, and the key is an `int`;
* `getTargetMetadata_load`  then the set finds what it has put there.

The two `Map`s of the index are functions.
-/

namespace Netsdb

structure FFMatrixMeta where
  blockRowIndex : Int
  blockColIndex : Int
  totalRows : Int
  totalCols : Int
deriving DecidableEq, Repr

/-- a set that shares blocks: `DatabaseID`, `UserTypeID` and `SetID` -/
structure SharingSet where
  dbId : Nat
  typeId : Nat
  setId : Nat
deriving DecidableEq, Repr

abbrev FFMatrixBlockIndex := Nat → Option (Int → Option FFMatrixMeta)

namespace FFMatrixBlockIndex

/-- a `size_t` -/
def getSetKey (set : SharingSet) : Nat :=
  (set.typeId + set.setId * 100000 + set.dbId * 100000000) % 2 ^ 64

/-- `insertIndex(int setKey, …)`; the key of the outer `Map` is a `size_t` -/
def insertKey (indexes : FFMatrixBlockIndex) (setKey blockKey : Int) (targetBlockMeta : FFMatrixMeta) :
    FFMatrixBlockIndex :=
  let metaMap := (indexes (sizeT setKey)).getD fun _ => none
  Function.update indexes (sizeT setKey)
    (some (Function.update metaMap blockKey (some targetBlockMeta)))

/-- `insertIndex` of the shared set, which hands its key over as an `int` -/
def insertIndex (indexes : FFMatrixBlockIndex) (set : SharingSet) (blockKey : Int)
    (targetBlockMeta : FFMatrixMeta) : FFMatrixBlockIndex :=
  indexes.insertKey (i32 (getSetKey set)) blockKey targetBlockMeta

/-- `none`: `nullptr` -/
def getTargetMetadata (indexes : FFMatrixBlockIndex) (set : SharingSet) (blockKey : Int) :
    Option FFMatrixMeta :=
  (indexes (getSetKey set)).bind fun metaMap => metaMap blockKey

/-! ## the contents -/

/-- an insertion -/
structure Entry where
  set : SharingSet
  blockKey : Int
  target : FFMatrixMeta

/-- the index after the insertions, first one first -/
def load (entries : List Entry) : FFMatrixBlockIndex :=
  entries.foldl (fun indexes e => indexes.insertIndex e.set e.blockKey e.target) fun _ => none

/-- the metadata that the set itself has put into the index for a block, last -/
def own (entries : List Entry) (set : SharingSet) (blockKey : Int) : Option FFMatrixMeta :=
  entries.foldl (fun found e => if e.set = set ∧ e.blockKey = blockKey then some e.target else found)
    none

/-- the key fits into an `int`, and the keys of the other sets are not mistaken for it -/
structure HasOwnKey (entries : List Entry) (set : SharingSet) : Prop where
  lt : getSetKey set < 2 ^ 31
  unique : ∀ e ∈ entries, sizeT (i32 (getSetKey e.set)) = getSetKey set → e.set = set

variable {indexes : FFMatrixBlockIndex} {set : SharingSet} {entries : List Entry} {e : Entry}
  {blockKey : Int}

theorem sizeT_i32 {n : Nat} (h : n < 2 ^ 31) : sizeT (i32 n) = n := by
  unfold i32 sizeT
  omega

theorem getTargetMetadata_insert_self (h : getSetKey set < 2 ^ 31) (k : Int) (m : FFMatrixMeta) :
    (indexes.insertIndex set k m).getTargetMetadata set blockKey =
      if k = blockKey then some m else indexes.getTargetMetadata set blockKey := by
  rw [insertIndex, insertKey, sizeT_i32 h, getTargetMetadata, Function.update_self, Option.bind_some]
  by_cases hk : k = blockKey
  · subst hk
    rw [Function.update_self, if_pos rfl]
  · rw [Function.update_of_ne (fun e => hk e.symm), if_neg hk, getTargetMetadata]
    cases indexes (getSetKey set) <;> rfl

theorem getTargetMetadata_insert_other {set' : SharingSet}
    (h : sizeT (i32 (getSetKey set')) ≠ getSetKey set) (k : Int) (m : FFMatrixMeta) :
    (indexes.insertIndex set' k m).getTargetMetadata set blockKey =
      indexes.getTargetMetadata set blockKey := by
  rw [insertIndex, insertKey, getTargetMetadata, Function.update_of_ne h.symm, getTargetMetadata]

/-- **A set that has its key to itself finds what it has put into the index.** -/
theorem getTargetMetadata_load (h : HasOwnKey entries set) (blockKey : Int) :
    (load entries).getTargetMetadata set blockKey = own entries set blockKey := by
  have hfold : ∀ (l : List Entry) (indexes : FFMatrixBlockIndex), (∀ e ∈ l, e ∈ entries) →
      (l.foldl (fun indexes e => indexes.insertIndex e.set e.blockKey e.target)
        indexes).getTargetMetadata set blockKey =
      l.foldl (fun found e => if e.set = set ∧ e.blockKey = blockKey then some e.target else found)
        (indexes.getTargetMetadata set blockKey) := by
    intro l
    induction l with
    | nil => exact fun _ _ => rfl
    | cons e l ih =>
      intro indexes hl
      rw [List.foldl_cons, List.foldl_cons, ih _ fun e' he' => hl e' (List.mem_cons_of_mem e he')]
      congr 1
      by_cases hs : e.set = set
      · rw [hs, getTargetMetadata_insert_self h.lt]
        simp
      · rw [getTargetMetadata_insert_other fun hk => hs (h.unique e (hl e List.mem_cons_self) hk),
          if_neg fun hc => hs hc.1]
  exact hfold entries _ fun _ he => he

end FFMatrixBlockIndex
end Netsdb
