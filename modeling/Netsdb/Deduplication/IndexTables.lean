import Mathlib.Data.List.Induction
import Netsdb.BuiltIn.MapRemove
import Netsdb.Deduplication.FFMatrixBlockIndex

/-!
# The index of shared blocks on its hash tables

The index is a `Map` from set keys to `Map`s from block keys to metadata; `removeIndex` takes block
keys out of them with `setUnused`.

* `insertIndex`, `removeIndex`, `getTargetMetadata`   as in the source;
* `latest`         the metadata that was put in last for a set and a block, and not taken out since;
* `IndexTables.look`   what the tables hold for a set key and a block key;
* `IndexTables.Allows` the condition on a call: the set has its key for itself, and the block that goes
                   is on the way to no other one;
* `answers_iff`    the sets find what `latest` says throughout a run just if every call meets it.
-/

set_option linter.unusedSectionVars false

namespace Netsdb

/-- `newHash` -/
def newHash (x : UInt32) : UInt32 :=
  let x := ((x >>> 16) ^^^ x) * 0x45d9f3b
  let x := ((x >>> 16) ^^^ x) * 0x45d9f3b
  (x >>> 16) ^^^ x

/-- an `int` -/
structure BlockKey where
  val : Int
deriving DecidableEq, Inhabited, Repr

/-- `specialHash` -/
instance : Hashable BlockKey := ⟨fun k => (newHash (UInt32.ofNat (sizeT k.val))).toUInt64⟩

namespace PDBMap
variable {K V : Type*} [DecidableEq K] [Hashable K] [Inhabited K] [Inhabited V]

/-- `m[k]`, for a key that is there; `none`: the call does not return -/
def value (m : PDBMap K V) (k : K) : Option V :=
  match m.index (fun _ => false) k with
  | .ret m' slot => some (m'.myArray.data slot).value
  | _ => none

theorem value_eq {m : PDBMap K V} {k : K} {v : V} (h : m.find? k = some v) : m.value k = some v := by
  obtain ⟨slot, hret, -, -, hv⟩ := index_found h fun _ => false
  rw [value, hret]
  exact congrArg some hv

end PDBMap

/-- `none`: the handle is `nullptr` -/
abbrev MetaMap := PDBMap BlockKey (Option FFMatrixMeta)

/-- the sizes of the two tables; a table of two slots gets the memory it asks for -/
structure IndexLayouts where
  outer : ArrayLayout
  inner : ArrayLayout
  outer_fits : PairArray.TableFits outer 2
  inner_fits : PairArray.TableFits inner 2

structure IndexTables where
  layouts : IndexLayouts
  indexes : PDBMap ℕ (Option MetaMap)

inductive IndexOp
  | insert (set : SharingSet) (blockKey : BlockKey) (targetBlockMeta : FFMatrixMeta)
  | remove (set : SharingSet) (blockKey : BlockKey)
deriving DecidableEq, Repr

namespace IndexTables
open FFMatrixBlockIndex (getSetKey)

/-- the constructor -/
def create (l : IndexLayouts) : Option IndexTables := (PDBMap.create l.outer 2).map fun m => ⟨l, m⟩

/-- `(*indexes)[setKey]` is a handle, and `f` changes the map behind it; `none`: a call does not return,
or the handle is null -/
def change (indexes : PDBMap ℕ (Option MetaMap)) (setKey : ℕ) (f : MetaMap → Option MetaMap) :
    Option (PDBMap ℕ (Option MetaMap)) :=
  match indexes.index (fun _ => false) setKey with
  | .ret indexes slot =>
    (indexes.myArray.data slot).value.bind fun metaMap =>
      (f metaMap).map fun metaMap => indexes.setValue slot (some metaMap)
  | _ => none

/-- `FFMatrixBlockIndex::insertIndex`; the key of the outer map is a `size_t` -/
def insertKey (t : IndexTables) (setKey : Int) (blockKey : BlockKey) (targetBlockMeta : FFMatrixMeta) :
    Option (IndexTables × Bool) :=
  if t.indexes.count (sizeT setKey) = 0 then do
    let metaMap ← PDBMap.create t.layouts.inner 2
    let indexes ← t.indexes.put (sizeT setKey) (some metaMap)
    let indexes ← change indexes (sizeT setKey) fun metaMap =>
      metaMap.put blockKey (some targetBlockMeta)
    return (⟨t.layouts, indexes⟩, true)
  else if 0 < t.indexes.count (sizeT setKey) then do
    let indexes ← change t.indexes (sizeT setKey) fun metaMap =>
      metaMap.put blockKey (some targetBlockMeta)
    return (⟨t.layouts, indexes⟩, true)
  else return (t, false)

/-- `FFMatrixBlockIndex::removeIndex` -/
def removeKey (t : IndexTables) (setKey : Int) (blockKey : BlockKey) : Option (IndexTables × Bool) :=
  if 0 < t.indexes.count (sizeT setKey) then do
    let indexes ← change t.indexes (sizeT setKey) fun metaMap => some (metaMap.setUnused blockKey)
    return (⟨t.layouts, indexes⟩, true)
  else return (t, false)

/-- the shared set hands its key over as an `int` -/
def insertIndex (t : IndexTables) (set : SharingSet) (blockKey : BlockKey)
    (targetBlockMeta : FFMatrixMeta) : Option (IndexTables × Bool) :=
  t.insertKey (i32 (getSetKey set)) blockKey targetBlockMeta

def removeIndex (t : IndexTables) (set : SharingSet) (blockKey : BlockKey) :
    Option (IndexTables × Bool) := t.removeKey (i32 (getSetKey set)) blockKey

/-- `some none`: the result is `nullptr` -/
def getTargetMetadata (t : IndexTables) (set : SharingSet) (blockKey : BlockKey) :
    Option (Option FFMatrixMeta) :=
  let setKey := getSetKey set
  if 0 < t.indexes.count setKey then do
    let metaMap ← t.indexes.value setKey
    let metaMap ← metaMap
    if 0 < metaMap.count blockKey then metaMap.value blockKey else return none
  else return none

/-! ## runs -/

def step (t : IndexTables) : IndexOp → Option IndexTables
  | .insert set blockKey targetBlockMeta => (t.insertIndex set blockKey targetBlockMeta).map Prod.fst
  | .remove set blockKey => (t.removeIndex set blockKey).map Prod.fst

/-- the calls in their order, on a new index; no allocation fails -/
def run (l : IndexLayouts) (ops : List IndexOp) : Option IndexTables :=
  (create l).bind fun t => ops.foldlM step t

end IndexTables

namespace IndexOp

def set : IndexOp → SharingSet
  | .insert set _ _ => set
  | .remove set _ => set

def blockKey : IndexOp → BlockKey
  | .insert _ blockKey _ => blockKey
  | .remove _ blockKey => blockKey

/-- what the index is to hold behind the call -/
def target : IndexOp → Option FFMatrixMeta
  | .insert _ _ targetBlockMeta => some targetBlockMeta
  | .remove _ _ => none

/-- the metadata of the last insertion for the set and the block, if no removal followed -/
def latest (ops : List IndexOp) (set : SharingSet) (blockKey : BlockKey) : Option FFMatrixMeta :=
  ops.foldl (fun found op => if op.set = set ∧ op.blockKey = blockKey then op.target else found) none

theorem latest_concat (ops : List IndexOp) (op : IndexOp) (set : SharingSet) (blockKey : BlockKey) :
    latest (ops ++ [op]) set blockKey =
      if op.set = set ∧ op.blockKey = blockKey then op.target else latest ops set blockKey := by
  rw [latest, List.foldl_append]
  rfl

end IndexOp

namespace IndexTables
open FFMatrixBlockIndex (getSetKey)

variable {t t' : IndexTables} {l : IndexLayouts} {key : ℕ} {b : BlockKey} {metaMap : MetaMap}
  {set : SharingSet}

/-- what the index answers to the sets -/
def Answers (D : Set SharingSet) (t : IndexTables)
    (f : SharingSet → BlockKey → Option FFMatrixMeta) : Prop :=
  ∀ set ∈ D, ∀ b, t.getTargetMetadata set b = some (f set b)

/-! ## the tables -/

/-- the inner map of a set key -/
def mapAt (t : IndexTables) (key : ℕ) : Option MetaMap := (t.indexes.find? key).join

/-- what the tables hold -/
def look (t : IndexTables) (key : ℕ) (b : BlockKey) : Option FFMatrixMeta :=
  (t.mapAt key).bind fun metaMap => (metaMap.find? b).join

/-- an inner map: no handle in it is null -/
structure FullMap (metaMap : MetaMap) : Prop where
  worn : metaMap.Worn
  full : ∀ b v, metaMap.find? b = some v → v ≠ none

/-- the tables -/
structure Wf (t : IndexTables) : Prop where
  worn : t.indexes.Worn
  full : ∀ key v, t.indexes.find? key = some v → ∃ metaMap, v = some metaMap ∧ FullMap metaMap

theorem Wf.mapAt (h : t.Wf) (key : ℕ) : t.indexes.find? key = (t.mapAt key).map some := by
  unfold IndexTables.mapAt
  cases hf : t.indexes.find? key with
  | none => rfl
  | some v =>
    obtain ⟨metaMap, rfl, -⟩ := h.full key v hf
    rfl

theorem Wf.fullMap (h : t.Wf) (hm : t.mapAt key = some metaMap) : FullMap metaMap := by
  have hf := h.mapAt key
  rw [hm] at hf
  obtain ⟨metaMap', he, hfull⟩ := h.full key _ hf
  exact Option.some.inj he ▸ hfull

theorem FullMap.find? (h : FullMap metaMap) (b : BlockKey) :
    metaMap.find? b = none ↔ (metaMap.find? b).join = none := by
  cases hf : metaMap.find? b with
  | none => exact ⟨fun _ => rfl, fun _ => rfl⟩
  | some v =>
    refine ⟨nofun, fun hj => ?_⟩
    exact absurd hj (h.full b v hf)

/-- **A query reads the tables.** -/
theorem getTargetMetadata_eq (hm : ∀ key, t.indexes.find? key = (t.mapAt key).map some)
    (set : SharingSet) (b : BlockKey) :
    t.getTargetMetadata set b = some (t.look (getSetKey set) b) := by
  have hpos : ∀ {K V : Type} [DecidableEq K] [Hashable K] [Inhabited K] [Inhabited V] (m : PDBMap K V)
      (k : K), 0 < m.count k ↔ m.find? k ≠ none := fun m k =>
    Nat.pos_iff_ne_zero.trans (not_congr PDBMap.count_eq_zero)
  have hfind := hm (getSetKey set)
  unfold getTargetMetadata look
  dsimp only
  cases hmap : t.mapAt (getSetKey set) with
  | none =>
    rw [hmap] at hfind
    rw [if_neg fun hc => (hpos _ _).mp hc hfind]
    rfl
  | some metaMap =>
    rw [hmap] at hfind
    rw [if_pos ((hpos _ _).mpr (by rw [hfind]; nofun)), PDBMap.value_eq hfind]
    show (if 0 < metaMap.count b then metaMap.value b else some none) = some (metaMap.find? b).join
    cases hb : metaMap.find? b with
    | none => rw [if_neg fun hc => (hpos _ _).mp hc hb]; rfl
    | some v => rw [if_pos ((hpos _ _).mpr (by rw [hb]; nofun)), PDBMap.value_eq hb]; rfl

/-! ## the calls -/

section
variable {indexes : PDBMap ℕ (Option MetaMap)} {f : MetaMap → Option MetaMap} {metaMap' : MetaMap}

theorem change_spec (h : indexes.Worn) (hm : indexes.find? key = some (some metaMap))
    (hf : f metaMap = some metaMap') : ∃ indexes', change indexes key f = some indexes' ∧
      indexes'.Worn ∧ indexes'.find? = Function.update indexes.find? key (some (some metaMap')) := by
  obtain ⟨slot, hret, hs, hu, hv⟩ := PDBMap.index_found hm fun _ => false
  obtain ⟨hw, hput⟩ := PDBMap.setValue_worn h hs hu (some metaMap')
  refine ⟨indexes.setValue slot (some metaMap'), ?_, hw, hput⟩
  rw [change, hret]
  dsimp only
  rw [hv, Option.bind_some, hf]
  rfl

theorem change_none (hm : indexes.find? key = some (some metaMap)) (hf : f metaMap = none) :
    change indexes key f = none := by
  obtain ⟨slot, hret, -, -, hv⟩ := PDBMap.index_found hm fun _ => false
  rw [change, hret]
  dsimp only
  rw [hv, Option.bind_some, hf]
  rfl

/-- metadata is put into an inner map -/
theorem change_put (h : indexes.Worn) (hm : indexes.find? key = some (some metaMap))
    (hfull : FullMap metaMap) (hc : metaMap.CanPut b) (target : FFMatrixMeta) :
    ∃ indexes' metaMap', change indexes key (fun metaMap => metaMap.put b (some target)) =
        some indexes' ∧ indexes'.Worn ∧
      indexes'.find? = Function.update indexes.find? key (some (some metaMap')) ∧ FullMap metaMap' ∧
      metaMap'.find? = Function.update metaMap.find? b (some (some target)) := by
  obtain ⟨metaMap', hput, hw, hfind⟩ := PDBMap.put_spec hfull.worn hc (some target)
  obtain ⟨indexes', hrun, hw', hfind'⟩ := change_spec h hm
    (f := fun metaMap => metaMap.put b (some target)) hput
  refine ⟨indexes', metaMap', hrun, hw', hfind', ⟨hw, fun b' v hv => ?_⟩, hfind⟩
  rw [hfind] at hv
  by_cases e : b' = b
  · rw [e, Function.update_self] at hv
    rw [← Option.some.inj hv]
    nofun
  · rw [Function.update_of_ne e] at hv
    exact hfull.full b' v hv

end

theorem mapAt_update (h : t'.indexes.find? =
    Function.update t.indexes.find? key (some (some metaMap))) :
    t'.mapAt = Function.update t.mapAt key (some metaMap) := by
  funext x
  unfold mapAt
  rw [h]
  by_cases e : x = key
  · rw [e, Function.update_self, Function.update_self]
    rfl
  · rw [Function.update_of_ne e, Function.update_of_ne e]

/-- an inner map is replaced -/
theorem look_update (h : t'.indexes.find? =
    Function.update t.indexes.find? key (some (some metaMap))) :
    t'.look = Function.update t.look key fun b => (metaMap.find? b).join := by
  funext x b
  rw [look, mapAt_update h]
  by_cases e : x = key
  · rw [e, Function.update_self, Function.update_self]
    rfl
  · rw [Function.update_of_ne e, Function.update_of_ne e]
    rfl

theorem look_of_mapAt (h : t.mapAt key = some metaMap) :
    t.look key = fun b => (metaMap.find? b).join := by
  funext b
  rw [look, h]
  rfl

theorem Wf.update (h : t.Wf) (hw : t'.indexes.Worn) (hfull : FullMap metaMap)
    (hf : t'.indexes.find? = Function.update t.indexes.find? key (some (some metaMap))) : t'.Wf := by
  refine ⟨hw, fun x v hv => ?_⟩
  rw [hf] at hv
  by_cases e : x = key
  · rw [e, Function.update_self] at hv
    exact ⟨metaMap, (Option.some.inj hv).symm, hfull⟩
  · rw [Function.update_of_ne e] at hv
    exact h.full x v hv

theorem join_update (f : BlockKey → Option (Option FFMatrixMeta)) (b : BlockKey)
    (v : Option (Option FFMatrixMeta)) : (fun x => (Function.update f b v x).join) =
      Function.update (fun x => (f x).join) b v.join := by
  funext x
  by_cases e : x = b
  · rw [e, Function.update_self, Function.update_self]
  · rw [Function.update_of_ne e, Function.update_of_ne e]

/-- the tables that `insertIndex` needs can be made -/
def CanInsert (t : IndexTables) (key : ℕ) (b : BlockKey) : Prop :=
  t.indexes.CanPut key ∧ ∀ metaMap ∈ t.mapAt key, metaMap.CanPut b

instance (t : IndexTables) (key : ℕ) (b : BlockKey) : Decidable (t.CanInsert key b) :=
  inferInstanceAs (Decidable (_ ∧ ∀ metaMap ∈ t.mapAt key, metaMap.CanPut b))

theorem exists_metaMap (l : IndexLayouts) :
    ∃ metaMap : MetaMap, PDBMap.create l.inner 2 = some metaMap ∧ FullMap metaMap ∧
      metaMap.find? = (fun _ => none) ∧ ∀ b, metaMap.CanPut b := by
  obtain ⟨metaMap, hc, -⟩ := PDBMap.create_spec (K := BlockKey) (V := Option FFMatrixMeta)
    (Nat.le_refl 2) l.inner_fits
  obtain ⟨hw, hf⟩ := PDBMap.create_worn hc
  refine ⟨metaMap, hc, ⟨hw, fun b v hv => ?_⟩, hf, PDBMap.canPut_create hc⟩
  rw [hf] at hv
  cases hv

/-- **`insertIndex`.** -/
theorem insertKey_spec (setKey : Int) (h : t.Wf) (hc : t.CanInsert (sizeT setKey) b)
    (target : FFMatrixMeta) : ∃ t', t.insertKey setKey b target = some (t', true) ∧ t'.Wf ∧
      t'.look = Function.update t.look (sizeT setKey)
        (Function.update (t.look (sizeT setKey)) b (some target)) := by
  have hfind := h.mapAt (sizeT setKey)
  cases hmap : t.mapAt (sizeT setKey) with
  | none =>
    rw [hmap] at hfind
    obtain ⟨metaMap, hnew, hfull, hempty, hcan⟩ := exists_metaMap t.layouts
    obtain ⟨indexes₁, hput, hw₁, hf₁⟩ := PDBMap.put_spec h.worn hc.1 (some metaMap)
    obtain ⟨indexes₂, metaMap₂, hrun, hw₂, hf₂, hfull₂, hput₂⟩ := change_put hw₁
      (by rw [hf₁, Function.update_self]) hfull (hcan b) target
    rw [hf₁, Function.update_idem] at hf₂
    refine ⟨⟨t.layouts, indexes₂⟩, ?_, h.update hw₂ hfull₂ hf₂, ?_⟩
    · rw [insertKey, if_pos (PDBMap.count_eq_zero.mpr hfind), hnew]
      show (t.indexes.put _ _).bind _ = _
      rw [hput]
      show (change indexes₁ _ _).bind _ = _
      rw [hrun]
      rfl
    · have hnone : t.look (sizeT setKey) = fun _ => none := by
        funext x
        rw [look, hmap]
        rfl
      have hlook : (⟨t.layouts, indexes₂⟩ : IndexTables).look = _ := look_update hf₂
      rw [hlook, hput₂, join_update, hempty, hnone]
      rfl
  | some metaMap =>
    rw [hmap] at hfind
    obtain ⟨indexes₂, metaMap₂, hrun, hw₂, hf₂, hfull₂, hput₂⟩ := change_put h.worn hfind
      (h.fullMap hmap) (hc.2 metaMap hmap) target
    have hcount : t.indexes.count (sizeT setKey) ≠ 0 := fun hz => by
      rw [PDBMap.count_eq_zero, hfind] at hz
      cases hz
    refine ⟨⟨t.layouts, indexes₂⟩, ?_, h.update hw₂ hfull₂ hf₂, ?_⟩
    · rw [insertKey, if_neg hcount, if_pos (Nat.pos_of_ne_zero hcount), hrun]
      rfl
    · have hlook : (⟨t.layouts, indexes₂⟩ : IndexTables).look = _ := look_update hf₂
      rw [hlook, hput₂, join_update, look_of_mapAt hmap]
      rfl

theorem insertKey_none {setKey : Int} (h : t.Wf) (hc : ¬ t.CanInsert (sizeT setKey) b)
    (target : FFMatrixMeta) : t.insertKey setKey b target = none := by
  have hfind := h.mapAt (sizeT setKey)
  cases hmap : t.mapAt (sizeT setKey) with
  | none =>
    rw [hmap] at hfind
    have hno : ¬ t.indexes.CanPut (sizeT setKey) := fun hput => hc ⟨hput, by rw [hmap]; nofun⟩
    obtain ⟨metaMap, hnew, -⟩ := exists_metaMap t.layouts
    rw [insertKey, if_pos (PDBMap.count_eq_zero.mpr hfind), hnew]
    show (t.indexes.put _ _).bind _ = _
    rw [PDBMap.put_none h.worn hno]
    rfl
  | some metaMap =>
    rw [hmap] at hfind
    have hcount : t.indexes.count (sizeT setKey) ≠ 0 := fun hz => by
      rw [PDBMap.count_eq_zero, hfind] at hz
      cases hz
    have hno : ¬ metaMap.CanPut b := by
      refine fun hput => hc ⟨fun hd => absurd hd.1 hcount, fun metaMap' hm => ?_⟩
      rw [hmap] at hm
      exact Option.some.inj hm ▸ hput
    rw [insertKey, if_neg hcount, if_pos (Nat.pos_of_ne_zero hcount),
      change_none hfind (PDBMap.put_none (h.fullMap hmap).worn hno (some target))]
    rfl

theorem removeKey_absent {setKey : Int} (h : t.Wf) (hmap : t.mapAt (sizeT setKey) = none) :
    t.removeKey setKey b = some (t, false) := by
  have hfind := h.mapAt (sizeT setKey)
  rw [hmap] at hfind
  rw [removeKey, PDBMap.count_eq_zero.mpr hfind, if_neg (Nat.lt_irrefl 0)]
  rfl

/-- `removeIndex`, when there is an inner map -/
theorem removeKey_found {setKey : Int} (h : t.Wf) (hmap : t.mapAt (sizeT setKey) = some metaMap) :
    ∃ t', t.removeKey setKey b = some (t', true) ∧ t'.indexes.Worn ∧ t'.indexes.find? =
      Function.update t.indexes.find? (sizeT setKey) (some (some (metaMap.setUnused b))) := by
  have hfind := h.mapAt (sizeT setKey)
  rw [hmap] at hfind
  have hcount : t.indexes.count (sizeT setKey) ≠ 0 := fun hz => by
    rw [PDBMap.count_eq_zero, hfind] at hz
    cases hz
  obtain ⟨indexes, hrun, hw, hf⟩ := change_spec h.worn hfind
    (f := fun metaMap => some (metaMap.setUnused b)) rfl
  refine ⟨⟨t.layouts, indexes⟩, ?_, hw, hf⟩
  rw [removeKey, if_pos (Nat.pos_of_ne_zero hcount), hrun]
  rfl

/-- the slot of the block is on the way to no other block -/
def CanRemove (t : IndexTables) (key : ℕ) (b : BlockKey) : Prop :=
  ∀ metaMap ∈ t.mapAt key, ∀ slot ∈ metaMap.myArray.findSlot b, metaMap.myArray.Used slot →
    metaMap.myArray.Loose slot

instance (t : IndexTables) (key : ℕ) (b : BlockKey) : Decidable (t.CanRemove key b) :=
  inferInstanceAs (Decidable (∀ metaMap ∈ t.mapAt key, ∀ slot ∈ metaMap.myArray.findSlot b,
    metaMap.myArray.Used slot → metaMap.myArray.Loose slot))

theorem canRemove_of_none (h : t.Wf) (hnone : t.look key b = none) : t.CanRemove key b := by
  intro metaMap hmap slot hs hu
  rw [look_of_mapAt hmap] at hnone
  have hf := PairArray.find?_of_slot hs hu
  rw [show metaMap.myArray.find? b = none from ((h.fullMap hmap).find? b).mpr hnone] at hf
  cases hf

/-- **`removeIndex`** of a block whose slot can be given back. -/
theorem removeKey_spec (setKey : Int) (h : t.Wf) (hc : t.CanRemove (sizeT setKey) b) :
    ∃ t' r, t.removeKey setKey b = some (t', r) ∧ t'.Wf ∧
      t'.look = Function.update t.look (sizeT setKey)
        (Function.update (t.look (sizeT setKey)) b none) := by
  cases hmap : t.mapAt (sizeT setKey) with
  | none =>
    have hnone : t.look (sizeT setKey) = fun _ => none := by
      funext x
      rw [look, hmap]
      rfl
    refine ⟨t, false, removeKey_absent h hmap, h, ?_⟩
    rw [hnone, Function.update_eq_self_iff.mpr rfl, ← hnone, Function.update_eq_self]
  | some metaMap =>
    have hfull := h.fullMap hmap
    obtain ⟨t', hrun, hw, hf⟩ := removeKey_found (b := b) h hmap
    -- the inner map without the block
    obtain ⟨hw', hfind⟩ : (metaMap.setUnused b).Worn ∧
        (metaMap.setUnused b).find? = Function.update metaMap.find? b none := by
      cases hb : metaMap.find? b with
      | none =>
        have hsame : metaMap.setUnused b = metaMap :=
          congrArg PDBMap.mk (PairArray.setUnused_absent hb)
        rw [hsame, ← hb, Function.update_eq_self]
        exact ⟨hfull.worn, rfl⟩
      | some v =>
        obtain ⟨slot, hs, hu, -⟩ := PairArray.find?_slot hb
        exact PairArray.setUnused_loose hfull.worn hs hu (hc metaMap hmap slot hs hu)
    have hfull' : FullMap (metaMap.setUnused b) := by
      refine ⟨hw', fun x v hv => ?_⟩
      rw [hfind] at hv
      by_cases e : x = b
      · rw [e, Function.update_self] at hv
        cases hv
      · rw [Function.update_of_ne e] at hv
        exact hfull.full x v hv
    refine ⟨t', true, hrun, h.update hw hfull' hf, ?_⟩
    rw [look_update hf, hfind, join_update, look_of_mapAt hmap]
    rfl

/-- when the slot of a block is on the way to another one, that one is lost -/
theorem removeKey_lost {setKey : Int} (h : t.Wf) (hc : ¬ t.CanRemove (sizeT setKey) b) :
    ∃ t' b', t.removeKey setKey b = some (t', true) ∧ b' ≠ b ∧ t.look (sizeT setKey) b' ≠ none ∧
      t'.look (sizeT setKey) b' = none ∧
      ∀ key, t'.indexes.find? key = (t'.mapAt key).map some := by
  unfold CanRemove at hc
  push Not at hc
  obtain ⟨metaMap, hmap, slot, hs, hu, hl⟩ := hc
  have hfull := h.fullMap hmap
  obtain ⟨t', hrun, hw, hf⟩ := removeKey_found (b := b) h hmap
  obtain ⟨b', hne, hthere, hgone⟩ := PairArray.setUnused_lost hfull.worn hs hu hl
  refine ⟨t', b', hrun, hne, ?_, ?_, fun x => ?_⟩
  · rw [look_of_mapAt hmap]
    exact fun hj => hthere ((hfull.find? b').mpr hj)
  · rw [look_update hf, Function.update_self]
    show (Option.join ((metaMap.myArray.setUnused b).find? b')) = none
    rw [hgone]
    rfl
  · rw [hf, mapAt_update hf]
    by_cases e : x = sizeT setKey
    · rw [e, Function.update_self, Function.update_self]
      rfl
    · rw [Function.update_of_ne e, Function.update_of_ne e]
      exact h.mapAt x

/-! ## the sets -/

section
variable {D : Set SharingSet} {f : SharingSet → BlockKey → Option FFMatrixMeta} {op : IndexOp}

/-- the conversion to `int` and back leaves the key of the set -/
def KeepsKey (set : SharingSet) : Prop := sizeT (i32 (getSetKey set)) = getSetKey set

instance (set : SharingSet) : Decidable (KeepsKey set) := inferInstanceAs (Decidable (_ = _))

/-- and none of the sets `D` has the same key -/
def HasKey (D : Set SharingSet) (set : SharingSet) : Prop :=
  KeepsKey set ∧ ∀ set' ∈ D, getSetKey set' = getSetKey set → set' = set

/-- the condition on a call: a removal of a block that is not in the table it is looked for in is
harmless -/
def Allows (D : Set SharingSet) (t : IndexTables) : IndexOp → Prop
  | .insert set b _ => HasKey D set ∧ t.CanInsert (getSetKey set) b
  | .remove set b => t.look (sizeT (i32 (getSetKey set))) b ≠ none →
    KeepsKey set ∧ t.CanRemove (getSetKey set) b

/-- the answers behind a call -/
def record (f : SharingSet → BlockKey → Option FFMatrixMeta) (op : IndexOp) (set : SharingSet)
    (b : BlockKey) : Option FFMatrixMeta :=
  if op.set = set ∧ op.blockKey = b then op.target else f set b

theorem latest_concat (ops : List IndexOp) (op : IndexOp) :
    IndexOp.latest (ops ++ [op]) = record (IndexOp.latest ops) op := by
  funext set b
  exact IndexOp.latest_concat ops op set b

/-- the tables hold for the sets `D` what `f` says, and nothing else -/
structure Holds (D : Set SharingSet) (t : IndexTables)
    (f : SharingSet → BlockKey → Option FFMatrixMeta) : Prop where
  wf : t.Wf
  agree : ∀ set ∈ D, ∀ b, t.look (getSetKey set) b = f set b
  owned : ∀ key b, t.look key b ≠ none → ∃ set ∈ D, getSetKey set = key ∧ f set b ≠ none
  apart : ∀ set b, f set b ≠ none → HasKey D set

theorem Holds.answers (h : Holds D t f) : Answers D t f := fun set hs b => by
  rw [getTargetMetadata_eq h.wf.mapAt, h.agree set hs]

/-- what is taken out or put in under the key of a set is the set's own -/
theorem Holds.write (h : Holds D t f) (hw : t'.Wf) (hop : op.set ∈ D)
    (hlook : t'.look = Function.update t.look (getSetKey op.set)
      (Function.update (t.look (getSetKey op.set)) op.blockKey op.target))
    (hk : op.target ≠ none ∨ t.look (getSetKey op.set) op.blockKey ≠ none → HasKey D op.set) :
    Holds D t' (record f op) := by
  have hself : t'.look (getSetKey op.set) op.blockKey = op.target := by
    rw [hlook, Function.update_self, Function.update_self]
  have hother : ∀ key b, ¬ (key = getSetKey op.set ∧ b = op.blockKey) →
      t'.look key b = t.look key b := by
    intro key b hne
    rw [hlook]
    by_cases e : key = getSetKey op.set
    · subst e
      rw [Function.update_self, Function.update_of_ne fun hb => hne ⟨rfl, hb⟩]
    · rw [Function.update_of_ne e]
  refine ⟨hw, fun set hs b => ?_, fun key b hb => ?_, fun set b hb => ?_⟩
  · unfold record
    split
    · next e => rw [← e.1, ← e.2, hself]
    · next e =>
      by_cases hkey : getSetKey set = getSetKey op.set ∧ b = op.blockKey
      · -- another set with the same key: the slot was empty and stays so
        obtain ⟨hkey, rfl⟩ := hkey
        have hne : set ≠ op.set := fun hh => e ⟨hh.symm, rfl⟩
        have hnot : ¬ HasKey D op.set := fun hh => hne (hh.2 set hs hkey)
        obtain ⟨htarget, hlook₀⟩ := not_or.mp fun hh => hnot (hk hh)
        rw [hkey, hself, ← h.agree set hs, hkey, not_not.mp htarget, not_not.mp hlook₀]
      · rw [hother _ _ hkey, h.agree set hs]
  · by_cases hkey : key = getSetKey op.set ∧ b = op.blockKey
    · obtain ⟨rfl, rfl⟩ := hkey
      refine ⟨op.set, hop, rfl, ?_⟩
      rw [record, if_pos ⟨rfl, rfl⟩, ← hself]
      exact hb
    · rw [hother _ _ hkey] at hb
      obtain ⟨set, hs, rfl, hf⟩ := h.owned key b hb
      refine ⟨set, hs, rfl, ?_⟩
      rw [record, if_neg fun e => hkey ⟨by rw [e.1], e.2.symm⟩]
      exact hf
  · unfold record at hb
    split at hb
    · next e => exact e.1 ▸ hk (.inl hb)
    · exact h.apart set b hb

/-- the tables of another index hold the same -/
theorem Holds.congr (h : Holds D t f) (hw : t'.Wf) (hlook : t'.look = t.look) : Holds D t' f := by
  refine ⟨hw, fun set hs b => ?_, fun key b hb => ?_, h.apart⟩
  · rw [hlook, h.agree set hs]
  · rw [hlook] at hb
    exact h.owned key b hb

/-- **A call that is allowed.** -/
theorem Holds.step (h : Holds D t f) (hop : op.set ∈ D) (ha : t.Allows D op) :
    ∃ t', t.step op = some t' ∧ Holds D t' (record f op) := by
  cases op with
  | insert set b target =>
    obtain ⟨hkey, hcan⟩ := ha
    have hkeeps : sizeT (i32 (getSetKey set)) = getSetKey set := hkey.1
    obtain ⟨t', hrun, hw, hlook⟩ := insertKey_spec (i32 (getSetKey set)) h.wf (b := b)
      (by rw [hkeeps]; exact hcan) target
    rw [hkeeps] at hlook
    refine ⟨t', ?_, h.write hw hop hlook fun _ => hkey⟩
    rw [IndexTables.step, insertIndex, hrun]
    rfl
  | remove set b =>
    by_cases hthere : t.look (sizeT (i32 (getSetKey set))) b = none
    · -- nothing is taken out, and the set has put nothing in
      obtain ⟨t', r, hrun, hw, hlook⟩ := removeKey_spec (i32 (getSetKey set)) h.wf
        (canRemove_of_none h.wf hthere)
      have hsame : t'.look = t.look := by
        rw [hlook, ← hthere, Function.update_eq_self, Function.update_eq_self]
      have hrecord : record f (.remove set b) = f := by
        funext set' b'
        unfold record
        split
        · next e =>
          obtain ⟨rfl, rfl⟩ := e
          by_contra hne
          have hkeeps : sizeT (i32 (getSetKey set)) = getSetKey set := (h.apart set b (Ne.symm hne)).1
          rw [hkeeps, h.agree set hop] at hthere
          exact hne hthere.symm
        · rfl
      refine ⟨t', ?_, by rw [hrecord]; exact h.congr hw hsame⟩
      rw [IndexTables.step, removeIndex, hrun]
      rfl
    · obtain ⟨hkeeps, hcan⟩ := ha hthere
      have hkeeps' : sizeT (i32 (getSetKey set)) = getSetKey set := hkeeps
      obtain ⟨t', r, hrun, hw, hlook⟩ := removeKey_spec (i32 (getSetKey set)) h.wf (b := b)
        (by rw [hkeeps']; exact hcan)
      rw [hkeeps'] at hlook hthere
      refine ⟨t', ?_, h.write hw hop hlook fun _ => ?_⟩
      · rw [IndexTables.step, removeIndex, hrun]
        rfl
      · obtain ⟨set', hs', hkey, hf⟩ := h.owned _ _ hthere
        have hhas := h.apart set' b hf
        rw [hhas.2 set hop hkey.symm]
        exact hhas

/-- **A call that is not allowed**: it does not return, or a set is answered wrong behind it. -/
theorem Holds.step_not (h : Holds D t f) (hop : op.set ∈ D) (ha : ¬ t.Allows D op)
    (hrun : t.step op = some t') : ¬ Answers D t' (record f op) := by
  intro hans
  cases op with
  | insert set b target =>
    have hcan : t.CanInsert (sizeT (i32 (getSetKey set))) b := by
      by_contra hno
      rw [IndexTables.step, insertIndex, insertKey_none h.wf hno] at hrun
      cases hrun
    obtain ⟨t₁, hrun₁, hw, hlook⟩ := insertKey_spec _ h.wf hcan target
    rw [IndexTables.step, insertIndex, hrun₁] at hrun
    obtain rfl : t₁ = t' := Option.some.inj hrun
    have hanswer : ∀ set' ∈ D, t₁.look (getSetKey set') b = record f (.insert set b target) set' b :=
      fun set' hs' => Option.some.inj ((getTargetMetadata_eq hw.mapAt set' b).symm.trans (hans set' hs' b))
    by_cases hkeeps : sizeT (i32 (getSetKey set)) = getSetKey set
    · rw [hkeeps] at hlook hcan
      have hshared : ¬ HasKey D set := fun hkey => ha ⟨hkey, hcan⟩
      obtain ⟨set', hs', hkey, hne⟩ : ∃ set' ∈ D, getSetKey set' = getSetKey set ∧ set' ≠ set := by
        by_contra hno
        push Not at hno
        exact hshared ⟨hkeeps, hno⟩
      -- the other set finds the metadata
      have h' := hanswer set' hs'
      have hnone : f set' b = none := by
        by_contra hf
        exact hne ((h.apart set' b hf).2 set hop hkey.symm).symm
      rw [hkey, hlook, Function.update_self, Function.update_self, record,
        if_neg fun e => hne e.1.symm, hnone] at h'
      cases h'
    · -- the set itself does not find it
      have h' := hanswer set hop
      have hnone : f set b = none := by
        by_contra hf
        exact hkeeps (h.apart set b hf).1
      rw [hlook, Function.update_of_ne fun e => hkeeps e.symm, h.agree set hop, hnone, record,
        if_pos ⟨rfl, rfl⟩] at h'
      cases h'
  | remove set b =>
    obtain ⟨hthere, hno⟩ := Classical.not_imp.mp ha
    by_cases hcan : t.CanRemove (sizeT (i32 (getSetKey set))) b
    · -- the block of another set is taken out
      have hkeeps : ¬ KeepsKey set := by
        intro hk
        have hk' : sizeT (i32 (getSetKey set)) = getSetKey set := hk
        rw [hk'] at hcan
        exact hno ⟨hk, hcan⟩
      obtain ⟨t₁, r, hrun₁, hw, hlook⟩ := removeKey_spec _ h.wf hcan
      rw [IndexTables.step, removeIndex, hrun₁] at hrun
      obtain rfl : t₁ = t' := Option.some.inj hrun
      obtain ⟨set', hs', hkey, hf⟩ := h.owned _ _ hthere
      have hne : set ≠ set' := by
        rintro rfl
        exact hkeeps (h.apart set b hf).1
      have h' : t₁.look (getSetKey set') b = record f (.remove set b) set' b :=
        Option.some.inj ((getTargetMetadata_eq hw.mapAt set' b).symm.trans (hans set' hs' b))
      rw [hkey, hlook, Function.update_self, Function.update_self, record, if_neg fun e => hne e.1] at h'
      exact hf h'.symm
    · -- another block is lost
      obtain ⟨t₁, b', hrun₁, hne, hthere', hgone, hmap⟩ := removeKey_lost h.wf hcan
      rw [IndexTables.step, removeIndex, hrun₁] at hrun
      obtain rfl : t₁ = t' := Option.some.inj hrun
      obtain ⟨set', hs', hkey, hf⟩ := h.owned _ _ hthere'
      have h' : t₁.look (getSetKey set') b' = record f (.remove set b) set' b' :=
        Option.some.inj ((getTargetMetadata_eq hmap set' b').symm.trans (hans set' hs' b'))
      rw [hkey, hgone, record, if_neg fun e => hne e.2.symm] at h'
      exact hf h'.symm

theorem exists_create (l : IndexLayouts) :
    ∃ t, create l = some t ∧ Holds D t fun _ _ => none := by
  obtain ⟨indexes, hc, -⟩ := PDBMap.create_spec (K := ℕ) (V := Option MetaMap) (Nat.le_refl 2)
    l.outer_fits
  obtain ⟨hw, hf⟩ := PDBMap.create_worn hc
  have hlook : (⟨l, indexes⟩ : IndexTables).look = fun _ _ => none := by
    funext key b
    rw [look, mapAt, hf]
    rfl
  refine ⟨⟨l, indexes⟩, by rw [create, hc]; rfl, ⟨hw, fun key v hv => ?_⟩, fun set _ b => ?_,
    fun key b hb => ?_, fun set b hb => absurd rfl hb⟩
  · rw [hf] at hv
    cases hv
  · rw [hlook]
  · rw [hlook] at hb
    exact absurd rfl hb

theorem run_concat (l : IndexLayouts) (ops : List IndexOp) (op : IndexOp) :
    run l (ops ++ [op]) = (run l ops).bind fun t => t.step op := by
  unfold run
  cases create l with
  | none => rfl
  | some t =>
    show (ops ++ [op]).foldlM IndexTables.step t = (ops.foldlM IndexTables.step t).bind _
    rw [List.foldlM_append]
    show (ops.foldlM IndexTables.step t).bind _ = _
    congr 1
    funext t'
    rw [List.foldlM_cons]
    show (t'.step op).bind _ = _
    exact Option.bind_fun_some _

/-- along a run of allowed calls -/
theorem holds_of_allowed {ops : List IndexOp} (hops : ∀ op ∈ ops, op.set ∈ D)
    (ha : ∀ pre op, pre ++ [op] <+: ops → ∀ t, run l pre = some t →
      Holds D t (IndexOp.latest pre) → t.Allows D op) (pre : List IndexOp) (hpre : pre <+: ops) :
    ∃ t, run l pre = some t ∧ Holds D t (IndexOp.latest pre) := by
  induction pre using List.reverseRec with
  | nil =>
    obtain ⟨t, hc, ht⟩ := exists_create (D := D) l
    exact ⟨t, by rw [run, hc]; rfl, ht⟩
  | append_singleton pre op ih =>
    obtain ⟨t, hrun, ht⟩ := ih ((List.prefix_append pre [op]).trans hpre)
    have hop : op.set ∈ D := hops op (hpre.subset (List.mem_append_right _ List.mem_cons_self))
    obtain ⟨t', hstep, ht'⟩ := ht.step hop (ha pre op hpre t hrun ht)
    refine ⟨t', ?_, latest_concat pre op ▸ ht'⟩
    rw [run_concat, hrun]
    exact hstep

/-- **The sets find what they have put in throughout a run just if every call is allowed.** -/
theorem answers_iff (l : IndexLayouts) (D : Set SharingSet) (ops : List IndexOp)
    (hops : ∀ op ∈ ops, op.set ∈ D) :
    (∀ pre, pre <+: ops → ∃ t, run l pre = some t ∧ Answers D t (IndexOp.latest pre)) ↔
      ∀ pre op, pre ++ [op] <+: ops → ∀ t, run l pre = some t → t.Allows D op := by
  constructor
  · intro hall
    have hstep : ∀ pre op, pre ++ [op] <+: ops → ∀ t, run l pre = some t →
        Holds D t (IndexOp.latest pre) → t.Allows D op := by
      intro pre op hpre t hrun ht
      by_contra hno
      obtain ⟨t', hrun', hans⟩ := hall (pre ++ [op]) hpre
      have hop : op.set ∈ D := hops op (hpre.subset (List.mem_append_right _ List.mem_cons_self))
      rw [run_concat, hrun] at hrun'
      exact ht.step_not hop hno hrun' (latest_concat pre op ▸ hans)
    intro pre op hpre t hrun
    obtain ⟨t', hrun', ht⟩ := holds_of_allowed hops hstep pre
      ((List.prefix_append pre [op]).trans hpre)
    rw [hrun] at hrun'
    cases hrun'
    exact hstep pre op hpre t hrun ht
  · intro ha pre hpre
    obtain ⟨t, hrun, ht⟩ := holds_of_allowed hops (fun pre op hp t hrun _ => ha pre op hp t hrun) pre hpre
    exact ⟨t, hrun, ht.answers⟩

end

/-- a `size_t` or an `int`, padding and a handle behind the hash -/
def smallLayouts : IndexLayouts :=
  ⟨⟨32, 60, 8, by decide⟩, ⟨32, 60, 8, by decide⟩, by decide, by decide⟩

def ask (ops : List IndexOp) (set : SharingSet) (b : BlockKey) : Option (Option FFMatrixMeta) :=
  (run smallLayouts ops).bind fun t => t.getTargetMetadata set b

/-- one set puts a block in and takes it out -/
theorem answers_iff_one : ∃ t, run smallLayouts [.insert ⟨1, 2, 3⟩ ⟨2⟩ ⟨0, 0, 8, 8⟩,
      .remove ⟨1, 2, 3⟩ ⟨2⟩] = some t ∧ t.getTargetMetadata ⟨1, 2, 3⟩ ⟨2⟩ = some none := by
  have hallowed : ∀ pre op, pre ++ [op] <+: [IndexOp.insert ⟨1, 2, 3⟩ ⟨2⟩ ⟨0, 0, 8, 8⟩,
      .remove ⟨1, 2, 3⟩ ⟨2⟩] → ∀ t, run smallLayouts pre = some t → t.Allows {⟨1, 2, 3⟩} op := by
    have hfirst : ∀ t ∈ run smallLayouts [], t.CanInsert (getSetKey ⟨1, 2, 3⟩) ⟨2⟩ := by
      decide +kernel
    have hsecond : ∀ t ∈ run smallLayouts [.insert ⟨1, 2, 3⟩ ⟨2⟩ ⟨0, 0, 8, 8⟩],
        KeepsKey ⟨1, 2, 3⟩ ∧ t.CanRemove (getSetKey ⟨1, 2, 3⟩) ⟨2⟩ := by decide +kernel
    intro pre op hpre t hrun
    match pre, hpre with
    | [], hpre =>
      obtain ⟨rfl, -⟩ := List.cons_prefix_cons.mp hpre
      exact ⟨⟨by decide, fun set' hs _ => hs⟩, hfirst t hrun⟩
    | [x], hpre =>
      obtain ⟨hx, hpre⟩ := List.cons_prefix_cons.mp hpre
      obtain ⟨rfl, -⟩ := List.cons_prefix_cons.mp hpre
      rw [hx] at hrun
      exact fun _ => hsecond t hrun
    | x :: y :: pre, hpre =>
      have hlen := hpre.length_le
      simp at hlen
  obtain ⟨t, hrun, hans⟩ := (answers_iff smallLayouts {⟨1, 2, 3⟩} _ (by simp [IndexOp.set])).mpr
    hallowed _ (List.prefix_refl _)
  exact ⟨t, hrun, hans ⟨1, 2, 3⟩ rfl ⟨2⟩⟩

/-- a block is lost when the one before it is removed; a set is answered with the metadata of another
one; a set does not find its own -/
theorem answers_not_always :
    ask [.insert ⟨1, 2, 3⟩ ⟨2⟩ ⟨0, 0, 8, 8⟩, .insert ⟨1, 2, 3⟩ ⟨3⟩ ⟨0, 1, 8, 8⟩,
        .remove ⟨1, 2, 3⟩ ⟨2⟩] ⟨1, 2, 3⟩ ⟨3⟩ = some none ∧
      ask [.insert ⟨1, 2, 0⟩ ⟨2⟩ ⟨0, 0, 8, 8⟩] ⟨0, 2, 1000⟩ ⟨2⟩ = some (some ⟨0, 0, 8, 8⟩) ∧
      ask [.insert ⟨22, 2, 3⟩ ⟨2⟩ ⟨0, 0, 8, 8⟩] ⟨22, 2, 3⟩ ⟨2⟩ = some none ∧
      ¬ ∀ (l : IndexLayouts) (ops : List IndexOp), ∃ t, run l ops = some t ∧
        ∀ set b, t.getTargetMetadata set b = some (IndexOp.latest ops set b) := by
  refine ⟨by decide +kernel, by decide +kernel, by decide +kernel, fun h => ?_⟩
  obtain ⟨t, hrun, hans⟩ := h smallLayouts [.insert ⟨1, 2, 3⟩ ⟨2⟩ ⟨0, 0, 8, 8⟩,
    .insert ⟨1, 2, 3⟩ ⟨3⟩ ⟨0, 1, 8, 8⟩, .remove ⟨1, 2, 3⟩ ⟨2⟩]
  have hask : ask [.insert ⟨1, 2, 3⟩ ⟨2⟩ ⟨0, 0, 8, 8⟩, .insert ⟨1, 2, 3⟩ ⟨3⟩ ⟨0, 1, 8, 8⟩,
      .remove ⟨1, 2, 3⟩ ⟨2⟩] ⟨1, 2, 3⟩ ⟨3⟩ = some none := by decide +kernel
  rw [ask, hrun, Option.bind_some, hans] at hask
  exact absurd hask (by decide)

end IndexTables
end Netsdb
