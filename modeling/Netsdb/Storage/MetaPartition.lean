import Netsdb.Storage.PartitionedFile
import Mathlib.Algebra.Order.BigOperators.Group.List

/-!
# The meta partition: what is written is what is read back

* `Tidy`            the invariant of a file to which only new pages have been appended;
* `step_tidy`       every such append keeps it;
* `roundTrip_of_reach`  a tidy file is read back as it was written.

A shared page takes 12 bytes and is given 8, and is counted twice when it is read back; a page that
is appended twice is counted twice and indexed once.
-/

set_option linter.unusedSectionVars false

namespace Netsdb.PartitionedFile
open Codec PartitionedFileMetaData

/-! ## Writing -/

/-- the order in which the iterators of the maps visit the entries -/
structure Order where
  iter : {α : Type} → List α → List α
  perm : ∀ {α : Type} (l : List α), (iter l).Perm l

/-- the order of insertion -/
def Order.inserted : Order := ⟨fun l => l, fun l => .refl l⟩

/-- `metaSize`, a `size_t` -/
def metaSize (f : PartitionedFile) : Nat :=
  (4 + 2 + 8 + 4 + 4 + 4 + (f.dataPartitionPaths.map fun path => 4 + 4 + 8 + (path.length + 1)).sum
    + (4 + 4 + 4) * f.metaData.numFlushedPages.toNat + (4 + 4 + 4 + 4)
    + (4 + 4) * f.metaData.numSharedPages.toNat) % 2 ^ 64

/-- the file type, its first value being that of a sequence file -/
def partitionedFileType : Nat := 1

def writePartition (p : PartitionMetaData) (i : Nat) (path : Path) : List UInt8 :=
  le 4 i ++ (le 4 p.numPages.toNat ++ (le 8 (path.length + 1) ++ (path ++ [0])))

/-- the entry of a page, flushed or shared -/
def writePage (e : UInt32 × PageIndex) : List UInt8 :=
  le 4 e.1.toNat ++ (le 4 e.2.partitionId.toNat ++ le 4 e.2.pageSeqInPartition.toNat)

/-- everything stored through `cur`, in order -/
def stored (o : Order) (f : PartitionedFile) : Option (List UInt8) := do
  let m := f.metaData
  let partitions ← f.dataPartitionPaths.zipIdx.mapM fun pi =>
    (m.partitions[pi.2]?).map fun p => writePartition p pi.2 pi.1
  return le 4 partitionedFileType ++ (le 2 m.version.toNat ++ (le 8 m.pageSize.toNat ++
    (le 4 m.numFlushedPages.toNat ++ (le 4 m.latestPageId.toNat ++
    (le 4 f.dataPartitionPaths.length ++ (partitions.flatten ++
    ((o.iter m.pageIndexes).flatMap writePage ++
    (le 4 m.sharedSetKey.dbId.toNat ++ (le 4 m.sharedSetKey.typeId.toNat ++
    (le 4 m.sharedSetKey.setId.toNat ++ (le 4 m.numSharedPages.toNat ++
    (o.iter m.sharedPageMaps).flatMap fun s => (o.iter s.2).flatMap writePage)))))))))))

/-- what a call of `writeMeta` comes to: `-1` returned, an exception, a store behind the end of the
buffer, or the file it has written -/
inductive WriteMeta
  | refused
  | outOfRange
  | overflow
  | file (bytes : List UInt8)
deriving DecidableEq

/-- the buffer is zero where nothing is stored -/
def writeMeta (o : Order) (f : PartitionedFile) : WriteMeta :=
  if !f.metaFile || f.cleared then .refused
  else
    match f.stored o with
    | none => .outOfRange
    | some bytes =>
      if bytes.length ≤ f.metaSize then
        .file (le 8 f.metaSize ++ (bytes ++ List.replicate (f.metaSize - bytes.length) 0))
      else .overflow

/-! ## Reading -/

def readU32 : Reader UInt32 := number 4 >>= fun n => pure (UInt32.ofNat n)

def readU16 : Reader UInt16 := number 2 >>= fun n => pure (UInt16.ofNat n)

def readU64 : Reader UInt64 := number 8 >>= fun n => pure (UInt64.ofNat n)

def readPartition (s : PartitionedFileMetaData × List Path) :
    Reader (PartitionedFileMetaData × List Path) := do
  let partitionId ← readU32
  let numPages ← readU32
  let pathLen ← number 8
  let path ← cstr
  skip pathLen
  return (s.1.addPartition { partitionId, numPages, path }, s.2 ++ [path])

/-- the entry of a page, given to `add` -/
def readPage (add : PartitionedFileMetaData → UInt32 → UInt32 → UInt32 → PartitionedFileMetaData)
    (m : PartitionedFileMetaData) : Reader PartitionedFileMetaData := do
  let pageId ← readU32
  let partitionId ← readU32
  let pageSeqInPartition ← readU32
  return add m pageId partitionId pageSeqInPartition

/-- the walk over the buffer; the metadata is made before it, with what is not initialised as it
happens to be -/
def parseMeta (m : PartitionedFileMetaData) : Reader (PartitionedFileMetaData × List Path) := do
  let _ ← number 4
  let version ← readU16
  let pageSize ← readU64
  let numFlushedPages ← readU32
  let latestPageId ← readU32
  let numPartitions ← readU32
  let s ← repeatRead readPartition numPartitions.toNat
    ({ m with version, pageSize, numFlushedPages, latestPageId }, [])
  let m ← repeatRead (readPage addPageIndex) numFlushedPages.toNat s.1
  let dbId ← readU32
  let typeId ← readU32
  let setId ← readU32
  let numSharedPages ← readU32
  let m ← repeatRead (readPage addSharedPageIndex) numSharedPages.toNat
    { m with sharedSetKey := { dbId, typeId, setId }, numSharedPages }
  return (m, s.2)

/-- the metadata and the paths of a file that was made without them; `none`: the process exits, or
reads behind the end of its buffer -/
def buildMetaDataFromMetaPartition (m : PartitionedFileMetaData) (file : List UInt8) :
    Option (PartitionedFileMetaData × List Path) := do
  let (size, data) ← number 8 file
  let buf := data.take size
  if buf.length < size then none
  else
    let (s, _) ← parseMeta m buf
    return s

/-- **What the two functions are for**: nothing is stored behind the end of the buffer, and a new
file made from what was written has the metadata and the paths of this one. -/
def RoundTrip (o : Order) (f : PartitionedFile) : Prop :=
  match f.writeMeta o with
  | .refused => True
  | .outOfRange => False
  | .overflow => False
  | .file bytes => ∀ latestPageId sharedSetKey, ∃ m,
      buildMetaDataFromMetaPartition (empty latestPageId sharedSetKey) bytes
        = some (m, f.dataPartitionPaths) ∧ f.metaData.Same m

/-! ## What one reader reads back -/

theorem reads_u32 (x : UInt32) : Reads readU32 (le 4 x.toNat) x := by
  have h : Reads readU32 (le 4 x.toNat) (UInt32.ofNat x.toNat) := (reads_number x.toNat_lt).map
  rwa [UInt32.ofNat_toNat] at h

theorem reads_u16 (x : UInt16) : Reads readU16 (le 2 x.toNat) x := by
  have h : Reads readU16 (le 2 x.toNat) (UInt16.ofNat x.toNat) := (reads_number x.toNat_lt).map
  rwa [UInt16.ofNat_toNat] at h

theorem reads_u64 (x : UInt64) : Reads readU64 (le 8 x.toNat) x := by
  have h : Reads readU64 (le 8 x.toNat) (UInt64.ofNat x.toNat) := (reads_number x.toNat_lt).map
  rwa [UInt64.ofNat_toNat] at h

/-- a count below `2 ^ 32` -/
theorem reads_u32_nat {n : Nat} (h : n < 2 ^ 32) : Reads readU32 (le 4 n) (UInt32.ofNat n) :=
  (reads_number h).map

theorem reads_partition {p : PartitionMetaData} {i : Nat} (hi : i < 2 ^ 32)
    (hid : p.partitionId = UInt32.ofNat i) (hnul : 0 ∉ p.path) (hlen : p.path.length + 1 < 2 ^ 64)
    (s : PartitionedFileMetaData × List Path) :
    Reads (readPartition s) (writePartition p i p.path) (s.1.addPartition p, s.2 ++ [p.path]) := by
  refine (reads_u32_nat hi).bind ?_
  refine (reads_u32 p.numPages).bind ?_
  refine (reads_number hlen).bind ?_
  rw [← hid]
  exact reads_cstr_skip (fun path => (s.1.addPartition { p with path }, s.2 ++ [path])) hnul rfl

theorem reads_page
    (add : PartitionedFileMetaData → UInt32 → UInt32 → UInt32 → PartitionedFileMetaData)
    (e : UInt32 × PageIndex) (m : PartitionedFileMetaData) :
    Reads (readPage add m) (writePage e) (add m e.1 e.2.partitionId e.2.pageSeqInPartition) := by
  refine (reads_u32 e.1).bind ?_
  refine (reads_u32 e.2.partitionId).bind ?_
  exact (reads_u32 e.2.pageSeqInPartition).map

/-! ## What the loops rebuild -/

theorem foldl_partition (l : List (PartitionMetaData × Nat)) (m : PartitionedFileMetaData)
    (paths : List Path) :
    l.foldl (fun s q => (s.1.addPartition q.1, s.2 ++ [q.1.path])) (m, paths)
      = ({ m with partitions := m.partitions ++ l.map (·.1) }, paths ++ l.map (·.1.path)) := by
  induction l generalizing m paths with
  | nil => simp
  | cons q l ih =>
    rw [List.foldl_cons, ih]
    simp [addPartition]

/-- the entry of a page in the inverse of the page index -/
def inverse (e : UInt32 × PageIndex) : PageIndex × UInt32 := (e.2, e.1)

theorem foldl_page (l : List (UInt32 × PageIndex)) (m : PartitionedFileMetaData)
    (h : FiniteMap.Distinct (m.pageIndexes ++ l))
    (h' : FiniteMap.Distinct (m.pageIds ++ l.map inverse)) :
    l.foldl (fun m e => m.addPageIndex e.1 e.2.partitionId e.2.pageSeqInPartition) m
      = { m with
          pageIndexes := m.pageIndexes ++ l, pageIds := m.pageIds ++ l.map inverse } := by
  induction l generalizing m with
  | nil => simp
  | cons e l ih =>
    have h1 : ¬ FiniteMap.Has m.pageIndexes e.1 := h.not_has
    have h2 : ¬ FiniteMap.Has m.pageIds e.2 := FiniteMap.Distinct.not_has (e := inverse e) h'
    have he : m.addPageIndex e.1 e.2.partitionId e.2.pageSeqInPartition
        = { m with
            pageIndexes := m.pageIndexes ++ [e], pageIds := m.pageIds ++ [inverse e] } := by
      show { m with
        pageIndexes := FiniteMap.enter m.pageIndexes e.1 e.2
        pageIds := FiniteMap.enter m.pageIds e.2 e.1 } = _
      rw [FiniteMap.enter, FiniteMap.enter, if_neg h1, if_neg h2]
      rfl
    rw [List.foldl_cons, he, ih]
    · simp
    · simpa using h
    · simpa using h'

/-! ## The invariant -/

/-- what is true of a file on `paths` to which only new pages have been appended -/
structure Tidy (paths : List Path) (f : PartitionedFile) : Prop where
  samePaths : f.dataPartitionPaths = paths
  partitions : f.metaData.partitions.map (·.path) = paths
  partitionIds : ∀ i p, f.metaData.partitions[i]? = some p → p.partitionId = UInt32.ofNat i
  flushed : f.metaData.numFlushedPages.toNat = f.metaData.pageIndexes.length
  distinct : FiniteMap.Distinct f.metaData.pageIndexes
  inverse : f.metaData.pageIds = f.metaData.pageIndexes.map inverse
  /-- a page stands before the end of its partition -/
  before : ∀ e ∈ f.metaData.pageIndexes, ∀ p,
    f.metaData.partitions[e.2.partitionId.toNat]? = some p →
      e.2.pageSeqInPartition.toNat < p.numPages.toNat
  /-- no partition has more pages than the file -/
  fewer : ∀ p ∈ f.metaData.partitions, p.numPages.toNat ≤ f.metaData.numFlushedPages.toNat
  notShared : f.metaData.numSharedPages = 0 ∧ f.metaData.sharedPageIndexes = [] ∧
    f.metaData.sharedPageMaps = []
  inverseDistinct : FiniteMap.Distinct f.metaData.pageIds

/-- only new pages are appended, and fewer than `2 ^ 32` of them; no page is shared -/
def AppendsNew (f : PartitionedFile) : Op → Prop
  | .appendPage _ pageId appended => appended = true →
    ¬ FiniteMap.Has f.metaData.pageIndexes pageId ∧
      f.metaData.numFlushedPages.toNat + 1 < 2 ^ 32
  | .addSharedPage _ _ _ => False
  | .setSharedSet _ => True
  | .clear => True

instance (f : PartitionedFile) : (op : Op) → Decidable (AppendsNew f op)
  | .appendPage _ pageId appended => inferInstanceAs (Decidable (appended = true →
      ¬ FiniteMap.Has f.metaData.pageIndexes pageId ∧
        f.metaData.numFlushedPages.toNat + 1 < 2 ^ 32))
  | .addSharedPage _ _ _ => inferInstanceAs (Decidable False)
  | .setSharedSet _ => inferInstanceAs (Decidable True)
  | .clear => inferInstanceAs (Decidable True)

theorem new_tidy (paths : List Path) (pageSize : UInt64) (key : SetKey) :
    Tidy paths (new paths pageSize key) where
  samePaths := rfl
  partitions := by
    apply List.ext_getElem?
    intro i
    simp only [new, List.getElem?_map, List.getElem?_mapIdx, Option.map_map]
    exact congrFun Option.map_id paths[i]?
  partitionIds := by
    intro i p hp
    simp only [new, List.getElem?_mapIdx, Option.map_eq_some_iff] at hp
    obtain ⟨path, -, rfl⟩ := hp
    rfl
  flushed := rfl
  distinct := .nil
  inverse := rfl
  before := fun e he => absurd he List.not_mem_nil
  fewer := by
    intro p hp
    simp only [new, List.mem_mapIdx] at hp
    obtain ⟨i, hi, rfl⟩ := hp
    exact Nat.zero_le _
  notShared := ⟨rfl, rfl, rfl⟩
  inverseDistinct := .nil

/-- adding one without wrapping around -/
theorem toNat_add_one {x : UInt32} (h : x.toNat + 1 < 2 ^ 32) : (x + 1).toNat = x.toNat + 1 := by
  rw [UInt32.toNat_add]
  exact Nat.mod_eq_of_lt h

section
variable {paths : List Path} {f : PartitionedFile} {p : PartitionMetaData}
  {partitionId pageId : UInt32}

/-- where a new page goes, there is no page yet -/
theorem Tidy.free (h : Tidy paths f) (hp : f.metaData.partitions[partitionId.toNat]? = some p) :
    ¬ FiniteMap.Has f.metaData.pageIds
      ({ partitionId, pageSeqInPartition := p.numPages } : PageIndex) := by
  rintro ⟨x, hx, hk⟩
  rw [h.inverse] at hx
  obtain ⟨e, he, rfl⟩ := List.mem_map.mp hx
  have hk' : e.2 = { partitionId, pageSeqInPartition := p.numPages } := eq_of_beq hk
  have hlt := h.before e he p (by rw [hk']; exact hp)
  rw [hk'] at hlt
  exact lt_irrefl _ hlt

theorem recordPage_tidy (h : Tidy paths f)
    (hp : f.metaData.partitions[partitionId.toNat]? = some p)
    (hnew : ¬ FiniteMap.Has f.metaData.pageIndexes pageId)
    (hfew : f.metaData.numFlushedPages.toNat + 1 < 2 ^ 32) :
    Tidy paths { f with metaData := recordPage f.metaData p partitionId pageId } := by
  have hpn : (p.numPages + 1).toNat = p.numPages.toNat + 1 :=
    toNat_add_one (Nat.lt_of_le_of_lt
      (Nat.add_le_add_right (h.fewer p (List.mem_of_getElem? hp)) 1) hfew)
  have hfl := toNat_add_one hfew
  have hout := h.free hp
  -- the entry comes in behind the others, in both maps
  have hix : (recordPage f.metaData p partitionId pageId).pageIndexes = f.metaData.pageIndexes
      ++ [(pageId, { partitionId, pageSeqInPartition := p.numPages })] := if_neg hnew
  have hid : (recordPage f.metaData p partitionId pageId).pageIds = f.metaData.pageIds
      ++ [({ partitionId, pageSeqInPartition := p.numPages }, pageId)] := if_neg hout
  have hpart : ∀ i, (recordPage f.metaData p partitionId pageId).partitions[i]? =
      (f.metaData.partitions[i]?).map fun q =>
        if partitionId.toNat = i then { q with numPages := q.numPages + 1 } else q := by
    intro i
    show (f.metaData.partitions.modify _ _)[i]? = _
    rw [List.getElem?_modify]
    split <;> simp
  refine ⟨h.samePaths, ?_, ?_, ?_, ?_, ?_, ?_, ?_, h.notShared, ?_⟩
  · rw [← h.partitions]
    apply List.ext_getElem?
    intro i
    rw [List.getElem?_map, List.getElem?_map, hpart, Option.map_map]
    congr 1
    funext q
    simp only [Function.comp_apply]
    split <;> rfl
  · intro i q hq
    obtain ⟨q', hq', rfl⟩ := Option.map_eq_some_iff.mp ((hpart i).symm.trans hq)
    have hi := h.partitionIds i q' hq'
    split <;> exact hi
  · show (f.metaData.numFlushedPages + 1).toNat = _
    rw [hix, hfl, List.length_append, h.flushed]
    rfl
  · have hd := h.distinct.enter pageId { partitionId, pageSeqInPartition := p.numPages }
    exact hd
  · rw [hix, hid, h.inverse, List.map_append]
    rfl
  · intro e he q hq
    rw [hix] at he
    obtain ⟨q', hq', rfl⟩ := Option.map_eq_some_iff.mp ((hpart _).symm.trans hq)
    rcases List.mem_append.mp he with he | he
    · have hb := h.before e he q' hq'
      split
      · next hs =>
        rw [← hs, hp] at hq'
        cases hq'
        show _ < (p.numPages + 1).toNat
        omega
      · exact hb
    · rw [List.mem_singleton.mp he] at hq' ⊢
      rw [hp] at hq'
      cases hq'
      rw [if_pos rfl]
      show p.numPages.toNat < (p.numPages + 1).toNat
      omega
  · intro q hq
    obtain ⟨i, hi⟩ := List.mem_iff_getElem?.mp hq
    obtain ⟨q', hq', rfl⟩ := Option.map_eq_some_iff.mp ((hpart i).symm.trans hi)
    have hq'' := h.fewer q' (List.mem_of_getElem? hq')
    show _ ≤ (f.metaData.numFlushedPages + 1).toNat
    split
    · next hs =>
      rw [← hs, hp] at hq'
      cases hq'
      show (p.numPages + 1).toNat ≤ _
      omega
    · omega
  · exact h.inverseDistinct.enter { partitionId, pageSeqInPartition := p.numPages } pageId

theorem step_tidy {op : Op} {f' : PartitionedFile} (h : Tidy paths f) (hc : AppendsNew f op)
    (hs : f.step op = some f') : Tidy paths f' := by
  cases op with
  | appendPage partitionId pageId appended =>
    obtain ⟨p, hp, rfl⟩ := Option.map_eq_some_iff.mp hs
    split
    · exact h
    · next happ =>
      have happ' : appended = true := by
        cases appended
        · exact absurd (by simp) happ
        · rfl
      obtain ⟨hnew, hfew⟩ := hc happ'
      exact recordPage_tidy h hp hnew hfew
  | setSharedSet sharedSet =>
    cases hs
    exact ⟨h.samePaths, h.partitions, h.partitionIds, h.flushed, h.distinct, h.inverse, h.before,
      h.fewer, h.notShared, h.inverseDistinct⟩
  | addSharedPage pageId partitionId pageSequentialID => exact hc.elim
  | clear =>
    cases hs
    exact ⟨h.samePaths, h.partitions, h.partitionIds, h.flushed, h.distinct, h.inverse, h.before,
      h.fewer, h.notShared, h.inverseDistinct⟩

end

/-! ## The round trip -/

/-- what a list of paths in memory is like: strings for `open`, so without a zero byte -/
structure Openable (paths : List Path) : Prop where
  noNul : ∀ path ∈ paths, 0 ∉ path
  few : paths.length < 2 ^ 32
  short : (paths.map List.length).sum < 2 ^ 63

theorem mapM_writePartition {partitions : List PartitionMetaData} (l pre : List PartitionMetaData)
    (h : pre ++ l = partitions) :
    ((l.map (·.path)).zipIdx pre.length).mapM
        (fun pi => (partitions[pi.2]?).map fun p => writePartition p pi.2 pi.1)
      = some ((l.zipIdx pre.length).map fun q => writePartition q.1 q.2 q.1.path) := by
  induction l generalizing pre with
  | nil => rfl
  | cons p l ih =>
    have hp : partitions[pre.length]? = some p := by
      rw [← h]
      simp
    have hih := ih (pre ++ [p]) (by rw [List.append_assoc]; exact h)
    rw [List.length_append, List.length_singleton] at hih
    rw [List.map_cons, List.zipIdx_cons, List.mapM_cons, hp, hih]
    rfl

section
variable {paths : List Path} {f : PartitionedFile} (o : Order)

/-- the bytes of a tidy file -/
def layout (f : PartitionedFile) : List UInt8 :=
  let m := f.metaData
  le 4 partitionedFileType ++ (le 2 m.version.toNat ++ (le 8 m.pageSize.toNat ++
    (le 4 m.numFlushedPages.toNat ++ (le 4 m.latestPageId.toNat ++
    (le 4 m.partitions.length ++
    (m.partitions.zipIdx.flatMap (fun q => writePartition q.1 q.2 q.1.path) ++
    ((o.iter m.pageIndexes).flatMap writePage ++
    (le 4 m.sharedSetKey.dbId.toNat ++ (le 4 m.sharedSetKey.typeId.toNat ++
    (le 4 m.sharedSetKey.setId.toNat ++ le 4 0))))))))))

theorem Tidy.stored_eq (h : Tidy paths f) : f.stored o = some (layout o f) := by
  obtain ⟨hn, -, hm⟩ := h.notShared
  have hiter : o.iter f.metaData.sharedPageMaps = [] := by
    rw [hm]
    exact List.perm_nil.mp (o.perm [])
  have hmap := mapM_writePartition f.metaData.partitions [] (List.nil_append _)
  rw [List.length_nil] at hmap
  have hp : f.dataPartitionPaths = f.metaData.partitions.map (·.path) :=
    h.samePaths.trans h.partitions.symm
  unfold stored layout
  dsimp only
  rw [hp, hiter, hn, hmap, List.length_map]
  show some _ = some _
  rw [List.flatMap_nil, List.append_nil]
  rfl

theorem length_writePartition (p : PartitionMetaData) (i : Nat) (path : Path) :
    (writePartition p i path).length = 4 + 4 + 8 + (path.length + 1) := by
  simp only [writePartition, List.length_append, length_le, List.length_singleton]
  omega

theorem length_writePage (e : UInt32 × PageIndex) : (writePage e).length = 12 := by
  simp only [writePage, List.length_append, length_le]

theorem length_partitions (l : List PartitionMetaData) (n : Nat) :
    ((l.zipIdx n).flatMap fun q => writePartition q.1 q.2 q.1.path).length
      = ((l.map (·.path)).map fun path => 4 + 4 + 8 + (path.length + 1)).sum := by
  induction l generalizing n with
  | nil => rfl
  | cons p l ih =>
    rw [List.zipIdx_cons, List.flatMap_cons, List.length_append, ih, length_writePartition]
    rfl

theorem sum_pathSize (paths : List Path) :
    (paths.map fun path => 4 + 4 + 8 + (path.length + 1)).sum
      = 17 * paths.length + (paths.map List.length).sum := by
  induction paths with
  | nil => rfl
  | cons path paths ih =>
    simp only [List.map_cons, List.sum_cons, List.length_cons, ih]
    omega

/-- the buffer is exactly as large as what is stored in it -/
theorem Tidy.length_layout (h : Tidy paths f) (hpaths : Openable paths) :
    (layout o f).length = f.metaSize ∧ f.metaSize < 2 ^ 64 := by
  have hpages : ((o.iter f.metaData.pageIndexes).flatMap writePage).length
      = 12 * f.metaData.numFlushedPages.toNat := by
    rw [length_flatMap_const _ fun e _ => length_writePage e, (o.perm _).length_eq, h.flushed]
  have hsum := sum_pathSize paths
  have hlt := f.metaData.numFlushedPages.toNat_lt
  have hfew := hpaths.few
  have hshort := hpaths.short
  have hlay : (layout o f).length = 26 + (17 * paths.length + (paths.map List.length).sum) +
      12 * f.metaData.numFlushedPages.toNat + 16 := by
    simp only [layout, List.length_append, length_le, length_partitions, hpages, h.partitions,
      hsum]
    omega
  have hsize : f.metaSize = 26 + (17 * paths.length + (paths.map List.length).sum) +
      12 * f.metaData.numFlushedPages.toNat + 16 := by
    unfold metaSize
    rw [h.samePaths, hsum, h.notShared.1]
    show (_ + _ + 8 * 0) % _ = _
    rw [Nat.mod_eq_of_lt (by omega)]
  exact ⟨hlay.trans hsize.symm, by omega⟩

/-- what is read back: the entries of the maps come in the order in which they were written -/
def readBack (f : PartitionedFile) : PartitionedFileMetaData :=
  { f.metaData with
    pageIndexes := o.iter f.metaData.pageIndexes
    pageIds := (o.iter f.metaData.pageIndexes).map PartitionedFile.inverse }

theorem Tidy.reads_partitions (h : Tidy paths f) (hpaths : Openable paths)
    (m : PartitionedFileMetaData) :
    Reads (repeatRead readPartition f.metaData.partitions.length (m, []))
      (f.metaData.partitions.zipIdx.flatMap fun q => writePartition q.1 q.2 q.1.path)
      ({ m with partitions := m.partitions ++ f.metaData.partitions }, paths) := by
  have hlen : paths.length = f.metaData.partitions.length := by
    rw [← h.partitions, List.length_map]
  have hread : ∀ q ∈ f.metaData.partitions.zipIdx, ∀ s,
      Reads (readPartition s) (writePartition q.1 q.2 q.1.path)
        (s.1.addPartition q.1, s.2 ++ [q.1.path]) := by
    intro q hq s
    have hi : f.metaData.partitions[q.2]? = some q.1 := List.mem_zipIdx_iff_getElem?.mp hq
    have hmem : q.1.path ∈ paths := by
      rw [← h.partitions]
      exact List.mem_map_of_mem (List.mem_of_getElem? hi)
    have hlt : q.2 < f.metaData.partitions.length := (List.getElem?_eq_some_iff.mp hi).1
    have hle : q.1.path.length ≤ (paths.map List.length).sum :=
      List.le_sum_of_mem (List.mem_map_of_mem hmem)
    have hfew := hpaths.few
    have hshort := hpaths.short
    exact reads_partition (by omega) (h.partitionIds _ _ hi) (hpaths.noNul _ hmem) (by omega) s
  have hloop := Reads.repeatRead f.metaData.partitions.zipIdx (m, []) hread
  rw [List.length_zipIdx, foldl_partition, List.nil_append] at hloop
  have h1 : f.metaData.partitions.zipIdx.map (·.1) = f.metaData.partitions :=
    List.zipIdx_map_fst 0 _
  have h2 : f.metaData.partitions.zipIdx.map (·.1.path) = paths := by
    rw [← h.partitions]
    conv_rhs => rw [← h1, List.map_map]
    rfl
  rwa [h1, h2] at hloop

theorem Tidy.reads_pages (h : Tidy paths f) (m : PartitionedFileMetaData)
    (hm : m.pageIndexes = [] ∧ m.pageIds = []) :
    Reads (repeatRead (readPage addPageIndex) f.metaData.numFlushedPages.toNat m)
      ((o.iter f.metaData.pageIndexes).flatMap writePage)
      { m with
        pageIndexes := o.iter f.metaData.pageIndexes
        pageIds := (o.iter f.metaData.pageIndexes).map PartitionedFile.inverse } := by
  have hperm := o.perm f.metaData.pageIndexes
  have hloop := Reads.repeatRead (o.iter f.metaData.pageIndexes) m
    fun e _ => reads_page addPageIndex e
  have hd : FiniteMap.Distinct (o.iter f.metaData.pageIndexes) := h.distinct.perm hperm.symm
  have hd' : FiniteMap.Distinct ((o.iter f.metaData.pageIndexes).map PartitionedFile.inverse) := by
    have hi := h.inverseDistinct
    rw [h.inverse] at hi
    exact hi.perm (hperm.symm.map _)
  rw [hperm.length_eq, ← h.flushed, foldl_page _ m (by rw [hm.1]; exact hd)
    (by rw [hm.2]; exact hd'), hm.1, hm.2] at hloop
  exact hloop

theorem Tidy.reads_layout (h : Tidy paths f) (hpaths : Openable paths) (latestPageId : UInt32)
    (key : SetKey) :
    Reads (parseMeta (empty latestPageId key)) (layout o f) (readBack o f, paths) := by
  have hlen : f.metaData.partitions.length < 2 ^ 32 := by
    have hfew := hpaths.few
    rwa [← h.partitions, List.length_map] at hfew
  have hcount : (UInt32.ofNat f.metaData.partitions.length).toNat = f.metaData.partitions.length :=
    Nat.mod_eq_of_lt hlen
  refine (reads_number (by decide)).bind ?_
  refine (reads_u16 f.metaData.version).bind ?_
  refine (reads_u64 f.metaData.pageSize).bind ?_
  refine (reads_u32 f.metaData.numFlushedPages).bind ?_
  refine (reads_u32 f.metaData.latestPageId).bind ?_
  refine (reads_u32_nat hlen).bind ?_
  rw [hcount]
  refine (h.reads_partitions hpaths _).bind ?_
  refine (h.reads_pages o _ ⟨rfl, rfl⟩).bind ?_
  refine (reads_u32 f.metaData.sharedSetKey.dbId).bind ?_
  refine (reads_u32 f.metaData.sharedSetKey.typeId).bind ?_
  refine (reads_u32 f.metaData.sharedSetKey.setId).bind ?_
  -- no shared page follows its count
  obtain ⟨hn, hs, hm⟩ := h.notShared
  have hback : readBack o f = { readBack o f with
      numSharedPages := 0, sharedPageIndexes := [], sharedPageMaps := [] } := by
    rw [← hn, ← hs, ← hm]
    rfl
  rw [hback, ← List.append_nil (le 4 0)]
  refine (reads_u32 0).bind ?_
  exact Reads.pure _

theorem Tidy.same_readBack (h : Tidy paths f) : f.metaData.Same (readBack o f) where
  version := rfl
  partitions := rfl
  pageSize := rfl
  numFlushedPages := rfl
  latestPageId := rfl
  pageIndexes := o.perm _
  pageIds := by
    rw [h.inverse]
    exact (o.perm _).map _
  numSharedPages := rfl
  sharedSetKey := rfl
  sharedPageIndexes := rfl
  sharedPageMaps := fun _ => .refl _

theorem Tidy.roundTrip (h : Tidy paths f) (hpaths : Openable paths) : RoundTrip o f := by
  obtain ⟨hlen, hsize⟩ := h.length_layout o hpaths
  unfold RoundTrip writeMeta
  split_ifs
  · trivial
  · rw [h.stored_eq o]
    dsimp only
    rw [if_pos hlen.le, hlen, Nat.sub_self]
    intro latestPageId key
    refine ⟨readBack o f, ?_, h.same_readBack o⟩
    have hnum : number 8 (le 8 f.metaSize ++ (layout o f ++ List.replicate 0 0))
        = some (f.metaSize, layout o f ++ []) := reads_number hsize _
    have htake : (layout o f ++ []).take f.metaSize = layout o f ++ [] := by
      rw [List.append_nil]
      exact List.take_of_length_le hlen.le
    unfold buildMetaDataFromMetaPartition
    rw [hnum]
    show (if ((layout o f ++ []).take f.metaSize).length < f.metaSize then none
      else (parseMeta _ ((layout o f ++ []).take f.metaSize)).bind fun s => some s.1) = _
    rw [htake, h.reads_layout o hpaths latestPageId key [], if_neg (by simp [hlen]), h.samePaths]
    rfl

end

/-- **The round trip of the meta partition.**  While no page is shared, no page is appended twice and
fewer than `2 ^ 32` are appended, the buffer holds what is written to it and reading it back gives
the metadata again. -/
theorem roundTrip_of_reach {paths : List Path} (hpaths : Openable paths) (pageSize : UInt64)
    (sharedSetKey : SetKey) (o : Order) {f : PartitionedFile}
    (h : Machine.Reach step AppendsNew (new paths pageSize sharedSetKey) f) : RoundTrip o f := by
  have htidy : Tidy paths f :=
    h.inv (new_tidy paths pageSize sharedSetKey) fun _ _ _ ht hc hs => step_tidy ht hc hs
  exact htidy.roundTrip o hpaths

/-- two partitions, three pages -/
theorem roundTrip_three : Openable [[97], [98, 99]] ∧
    ∃ f, Machine.Reach step AppendsNew (new [[97], [98, 99]] 4096 ⟨1, 2, 3⟩) f ∧
      f.metaData.numFlushedPages = 3 ∧ RoundTrip Order.inserted f := by
  have hpaths : Openable [[97], [98, 99]] := ⟨by decide, by decide, by decide⟩
  obtain ⟨f, hf, hthree⟩ : ∃ f, Machine.run (Machine.guarded step AppendsNew)
      (new [[97], [98, 99]] 4096 ⟨1, 2, 3⟩)
      [.appendPage 0 5 true, .appendPage 1 2 true, .appendPage 0 9 true] = some f ∧
      f.metaData.numFlushedPages = 3 := ⟨_, rfl, rfl⟩
  have hreach := Machine.Reach.of_run _ hf
  exact ⟨hpaths, f, hreach, hthree,
    roundTrip_of_reach hpaths 4096 ⟨1, 2, 3⟩ Order.inserted hreach⟩

/-- **A file with a shared page does not come back**: what is written of one shared page does not fit into the buffer. -/
theorem roundTrip_not_always :
    ¬ ∀ (paths : List Path) (pageSize : UInt64) (sharedSetKey : SetKey) (o : Order)
      (f : PartitionedFile), Openable paths →
      Machine.Reach step (fun _ _ => True) (new paths pageSize sharedSetKey) f → RoundTrip o f := by
  intro hall
  have hpaths : Openable [[97]] := ⟨by decide, by decide, by decide⟩
  obtain ⟨f, hf, hover⟩ : ∃ f, Machine.run (Machine.guarded step fun _ _ => True)
      (new [[97]] 4096 ⟨1, 2, 3⟩) [.addSharedPage 4 0 0] = some f ∧
      writeMeta Order.inserted f = .overflow := ⟨_, rfl, by decide⟩
  have h := hall [[97]] 4096 ⟨1, 2, 3⟩ Order.inserted f hpaths (Machine.Reach.of_run _ hf)
  unfold RoundTrip at h
  rw [hover] at h
  exact h

end Netsdb.PartitionedFile
