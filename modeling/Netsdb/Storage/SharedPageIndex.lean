import Netsdb.Storage.PartitionedFile
import Netsdb.Lib.Stepwise
import Netsdb.Lib.Table

/-!
# The shared pages of a partitioned file

The shared pages are in a vector of places, in one map for each partition, and in a count.

* `removeSharedPageIndex`   a shared page out;
* `SharedOp.spec`           what an addition and a removal mean for the pages themselves;
* `Describes`               the vector, the maps and the count are of the same pages;
* `SharedOp.Harmless`       an addition of a new page, and a removal with nothing to remove;
* `describes_iff`           all three describe the pages along a run just if every call of it is one of
                            these.
-/

set_option linter.unusedSectionVars false

namespace Netsdb
namespace PartitionedFileMetaData

/-! ## Removal -/

/-- the loop: `r` is behind the erased element, and `r++` passes one more by; it must not go past the
end -/
def eraseShared (place : PageIndex) : List PageIndex → Option (List PageIndex)
  | [] => some []
  | [r] => if r = place then none else some [r]
  | r :: next :: l =>
    if r = place then (eraseShared place l).map (next :: ·)
    else (eraseShared place (next :: l)).map (r :: ·)

/-- both tables are null until a page is added, and the loop never leaves the vector empty.
`sharedPageMaps[partitionId]` counts from the one outer map the pointer is to -/
def removeSharedPageIndex (m : PartitionedFileMetaData)
    (pageId partitionId pageSeqInPartition : UInt32) : Option PartitionedFileMetaData :=
  if m.sharedPageIndexes = [] then some m
  else
    match eraseShared { partitionId, pageSeqInPartition } m.sharedPageIndexes with
    | none => none
    | some sharedPageIndexes =>
      if partitionId = 0 then
        some { m with
          sharedPageIndexes
          sharedPageMaps := Table.without m.sharedPageMaps pageId }
      else none

theorem eraseShared_absent {place : PageIndex} : ∀ {l : List PageIndex}, place ∉ l →
    eraseShared place l = some l
  | [], _ => rfl
  | [r], h => if_neg fun heq : r = place => h (List.mem_singleton.mpr heq.symm)
  | r :: next :: l, h => by
    refine (if_neg fun heq : r = place => h (List.mem_cons.mpr (.inl heq.symm))).trans ?_
    rw [eraseShared_absent fun hm => h (List.mem_cons_of_mem _ hm)]
    rfl

theorem eraseShared_length_le {place : PageIndex} : ∀ {l l' : List PageIndex},
    eraseShared place l = some l' → l'.length ≤ l.length
  | [], _, h => by
    cases h
    exact Nat.le_refl _
  | [r], l', h => by
    simp only [eraseShared] at h
    split at h
    · cases h
    · cases h
      exact Nat.le_refl _
  | r :: next :: l, l', h => by
    simp only [eraseShared] at h
    split at h
    · obtain ⟨rest, hrest, rfl⟩ := Option.map_eq_some_iff.mp h
      have hle := eraseShared_length_le hrest
      simp only [List.length_cons]
      omega
    · obtain ⟨rest, hrest, rfl⟩ := Option.map_eq_some_iff.mp h
      exact Nat.succ_le_succ (eraseShared_length_le hrest)

/-- something is erased -/
theorem eraseShared_length_lt {place : PageIndex} : ∀ {l l' : List PageIndex}, place ∈ l →
    eraseShared place l = some l' → l'.length < l.length
  | [], _, hm, _ => nomatch hm
  | [r], l', hm, h => by
    rw [eraseShared, if_pos (List.mem_singleton.mp hm).symm] at h
    cases h
  | r :: next :: l, l', hm, h => by
    simp only [eraseShared] at h
    split at h
    · obtain ⟨rest, hrest, rfl⟩ := Option.map_eq_some_iff.mp h
      have hle := eraseShared_length_le hrest
      simp only [List.length_cons]
      omega
    · next hne =>
      obtain ⟨rest, hrest, rfl⟩ := Option.map_eq_some_iff.mp h
      rcases List.mem_cons.mp hm with heq | hm
      · exact absurd heq.symm hne
      · exact Nat.succ_lt_succ (eraseShared_length_lt hm hrest)

/-- a removal that goes through -/
theorem removeSharedPageIndex_cases {m m' : PartitionedFileMetaData}
    {pageId partitionId pageSeqInPartition : UInt32} (hne : m.sharedPageIndexes ≠ [])
    (h : m.removeSharedPageIndex pageId partitionId pageSeqInPartition = some m') :
    partitionId = 0 ∧ ∃ l, eraseShared { partitionId, pageSeqInPartition } m.sharedPageIndexes = some l ∧
      m' = { m with sharedPageIndexes := l, sharedPageMaps := Table.without m.sharedPageMaps pageId } := by
  rw [removeSharedPageIndex, if_neg hne] at h
  split at h
  · cases h
  · next l hl =>
    split at h
    · next h0 =>
      cases h
      exact ⟨h0, l, hl, rfl⟩
    · cases h

/-! ## Look-ups -/

section
variable {V : Type} (l : List (UInt32 × V)) (k k' : UInt32) (v : V)

theorem lookup_assign : (FiniteMap.assign l k v).lookup k' =
    if k' = k then (l.lookup k).map fun _ => v else l.lookup k' := by
  induction l with
  | nil => split <;> rfl
  | cons e l ih =>
    rw [FiniteMap.assign_cons]
    by_cases he : e.1 = k
    · rw [if_pos (beq_iff_eq.mpr he), Table.lookup_cons, ih, Table.lookup_cons, Table.lookup_cons, he,
        if_pos rfl]
      split <;> rfl
    · rw [if_neg fun hb => he (eq_of_beq hb), Table.lookup_cons, ih, Table.lookup_cons,
        Table.lookup_cons, if_neg fun hk : k = e.1 => he hk.symm]
      by_cases hk : k' = e.1
      · rw [if_pos hk, if_pos hk, if_neg fun heq => he (hk.symm.trans heq)]
      · rw [if_neg hk, if_neg hk]

theorem lookup_put : (put l k v).lookup k' = if k' = k then some v else l.lookup k' := by
  rw [put, lookup_assign]
  unfold FiniteMap.enter
  split
  · split
    · next hhas =>
      obtain ⟨e, he, hk⟩ := hhas
      cases hl : l.lookup k with
      | none => exact absurd (eq_of_beq hk) (Table.lookup_eq_none.mp hl e he)
      | some w => rfl
    · rw [List.lookup_append]
      show ((l.lookup k).or _).map _ = _
      rw [Table.lookup_cons, if_pos rfl]
      cases l.lookup k <;> rfl
  · next hne =>
    split
    · rfl
    · rw [List.lookup_append, Table.lookup_cons, if_neg hne]
      cases l.lookup k' <;> rfl

end

theorem sharedPageMap_put (m : PartitionedFileMetaData) (pageId partitionId seq p : UInt32) :
    (m.addSharedPageIndex pageId partitionId seq).sharedPageMap p =
      if p = partitionId then
        put (m.sharedPageMap partitionId) pageId { partitionId, pageSeqInPartition := seq }
      else m.sharedPageMap p := by
  show (List.lookup p (put _ _ _)).getD [] = _
  rw [lookup_put]
  split <;> rfl

/-! ## The pages -/

structure SharedPage where
  partitionId : UInt32
  pageId : UInt32
deriving DecidableEq

/-- every shared page, with its `pageSeqInPartition` -/
abbrev SharedPages := List (SharedPage × UInt32)

inductive SharedOp
  | add (pageId partitionId pageSeqInPartition : UInt32)
  | remove (pageId partitionId pageSeqInPartition : UInt32)

/-- a removal is of the page that has been added with the same place -/
def SharedOp.spec (b : SharedPages) : SharedOp → SharedPages
  | add pageId partitionId seq => Table.put b ⟨partitionId, pageId⟩ seq
  | remove pageId partitionId seq => b.filter fun e => e ≠ (⟨partitionId, pageId⟩, seq)

def SharedOp.run (m : PartitionedFileMetaData) : SharedOp → Option PartitionedFileMetaData
  | add pageId partitionId seq => some (m.addSharedPageIndex pageId partitionId seq)
  | remove pageId partitionId seq => m.removeSharedPageIndex pageId partitionId seq

def placeOf (e : SharedPage × UInt32) : PageIndex :=
  { partitionId := e.1.partitionId, pageSeqInPartition := e.2 }

/-- each page is listed once, is in the map of its partition and in no other, and is counted -/
structure Describes (m : PartitionedFileMetaData) (b : SharedPages) : Prop where
  indexes : m.sharedPageIndexes.Perm (b.map placeOf)
  maps : ∀ partitionId pageId, (m.sharedPageMap partitionId).lookup pageId =
    (b.lookup ⟨partitionId, pageId⟩).map fun seq => placeOf (⟨partitionId, pageId⟩, seq)
  count : m.numSharedPages.toBitVec.toInt = b.length

/-- a page that is not there comes in while the count has room, or a removal finds no table, or nothing:
not in the vector and, as key of the outer map, not in that -/
def SharedOp.Harmless (m : PartitionedFileMetaData) : SharedOp → Prop
  | add pageId partitionId _ =>
    (m.sharedPageMap partitionId).lookup pageId = none ∧ m.sharedPageIndexes.length + 1 < 2 ^ 31
  | remove pageId partitionId seq =>
    m.sharedPageIndexes = [] ∨
      partitionId = 0 ∧ { partitionId, pageSeqInPartition := seq } ∉ m.sharedPageIndexes ∧
        m.sharedPageMaps.lookup pageId = none

structure Sharing (m : PartitionedFileMetaData) (b : SharedPages) : Prop extends Describes m b where
  keyed : Table.Keyed b
  /-- a partition with a map has a page in it -/
  used : ∀ partitionId, m.sharedPageMaps.lookup partitionId ≠ none →
    ∃ pageId, b.lookup ⟨partitionId, pageId⟩ ≠ none

/-! ## One call -/

section
variable {m m' : PartitionedFileMetaData} {b : SharedPages} {pageId partitionId seq : UInt32}

theorem Describes.length (h : Describes m b) : m.sharedPageIndexes.length = b.length := by
  rw [h.indexes.length_eq, List.length_map]

theorem Describes.lookup_none (h : Describes m b) :
    (m.sharedPageMap partitionId).lookup pageId = none ↔ b.lookup ⟨partitionId, pageId⟩ = none := by
  rw [h.maps, Option.map_eq_none_iff]

theorem Describes.place_mem (h : Describes m b) (hm : (⟨partitionId, pageId⟩, seq) ∈ b) :
    { partitionId, pageSeqInPartition := seq } ∈ m.sharedPageIndexes :=
  h.indexes.mem_iff.mpr (List.mem_map.mpr ⟨_, hm, rfl⟩)

theorem spec_remove_absent (hn : (⟨partitionId, pageId⟩, seq) ∉ b) :
    (SharedOp.remove pageId partitionId seq).spec b = b :=
  List.filter_eq_self.mpr fun e he => decide_eq_true fun heq : e = _ => hn (heq ▸ he)

theorem without_absent {V : Type} {l : List (SharedPage × V)} {k : SharedPage}
    (hn : l.lookup k = none) : Table.without l k = l :=
  List.filter_eq_self.mpr fun e he => decide_eq_true (Table.lookup_eq_none.mp hn e he)

/-- the count goes up by one unless it is the largest `int` -/
theorem count_succ {c : UInt32} {n : ℕ} (h : c.toBitVec.toInt = n) :
    (c + 1).toBitVec.toInt = ((n + 1 : ℕ) : ℤ) ↔ n + 1 < 2 ^ 31 := by
  have hlt := c.toBitVec.isLt
  rw [BitVec.toInt_eq_toNat_cond] at h ⊢
  rw [UInt32.toBitVec_add, BitVec.toNat_add]
  have hone : (UInt32.toBitVec 1).toNat = 1 := rfl
  rw [hone]
  split at h <;> split <;> omega

theorem Sharing.add (h : Sharing m b)
    (hnew : (m.sharedPageMap partitionId).lookup pageId = none)
    (hroom : m.sharedPageIndexes.length + 1 < 2 ^ 31) :
    Sharing (m.addSharedPageIndex pageId partitionId seq)
      ((SharedOp.add pageId partitionId seq).spec b) := by
  have hb := h.lookup_none.mp hnew
  have hspec : (SharedOp.add pageId partitionId seq).spec b = (⟨partitionId, pageId⟩, seq) :: b := by
    show (_, seq) :: Table.without b _ = _
    rw [without_absent hb]
  refine ⟨⟨?_, ?_, ?_⟩, h.keyed.put _ _, ?_⟩
  · rw [hspec]
    exact List.perm_append_comm.trans (h.indexes.cons _)
  · intro p page
    rw [sharedPageMap_put, hspec, Table.lookup_cons]
    by_cases hp : p = partitionId
    · subst hp
      rw [if_pos rfl, lookup_put]
      by_cases hpage : page = pageId
      · subst hpage
        rw [if_pos rfl, if_pos rfl]
        rfl
      · rw [if_neg hpage, if_neg fun heq => hpage (SharedPage.mk.inj heq).2, h.maps]
    · rw [if_neg hp, if_neg fun heq => hp (SharedPage.mk.inj heq).1, h.maps]
  · rw [hspec]
    exact (count_succ h.count).mpr (h.length ▸ hroom)
  · intro p hp
    change List.lookup p (put _ _ _) ≠ none at hp
    rw [lookup_put] at hp
    rw [hspec]
    by_cases heq : p = partitionId
    · refine ⟨pageId, ?_⟩
      rw [heq, Table.lookup_cons, if_pos rfl]
      exact Option.some_ne_none _
    · rw [if_neg heq] at hp
      obtain ⟨page, hpage⟩ := h.used p hp
      refine ⟨page, ?_⟩
      rwa [Table.lookup_cons, if_neg fun he => heq (SharedPage.mk.inj he).1]

/-- a page that is there is listed twice, and the count may overflow -/
theorem Sharing.not_add (h : Sharing m b)
    (hno : ¬ (SharedOp.add pageId partitionId seq).Harmless m) :
    ¬ Describes (m.addSharedPageIndex pageId partitionId seq)
      ((SharedOp.add pageId partitionId seq).spec b) := by
  intro hd
  have hlen : m.sharedPageIndexes.length + 1 = (Table.without b ⟨partitionId, pageId⟩).length + 1 := by
    have hl := hd.length
    rwa [show (m.addSharedPageIndex pageId partitionId seq).sharedPageIndexes =
      m.sharedPageIndexes ++ [_] from rfl, List.length_append] at hl
  by_cases hnew : (m.sharedPageMap partitionId).lookup pageId = none
  · refine hno ⟨hnew, ?_⟩
    have hcount := hd.count
    rw [h.length]
    refine (count_succ h.count).mp (hcount.trans ?_)
    show (((Table.without b ⟨partitionId, pageId⟩).length + 1 : ℕ) : ℤ) = _
    rw [← hlen, h.length]
  · have hb : b.lookup ⟨partitionId, pageId⟩ ≠ none := fun hb => hnew (h.lookup_none.mpr hb)
    obtain ⟨e, he, hk⟩ := List.mem_map.mp (Table.mem_keys.mpr hb)
    have hlt : (Table.without b ⟨partitionId, pageId⟩).length < b.length :=
      List.length_filter_lt_length_iff_exists.mpr ⟨e, he, by simpa using hk⟩
    rw [h.length] at hlen
    omega

theorem Sharing.remove (h : Sharing m b)
    (hharm : (SharedOp.remove pageId partitionId seq).Harmless m) :
    m.removeSharedPageIndex pageId partitionId seq = some m ∧
      (SharedOp.remove pageId partitionId seq).spec b = b := by
  rcases hharm with hnil | ⟨h0, habsent, hmap⟩
  · refine ⟨if_pos hnil, ?_⟩
    have hb : b = [] := by
      rw [← List.length_eq_zero_iff, ← h.length, hnil]
      rfl
    rw [hb]
    rfl
  · refine ⟨?_, spec_remove_absent fun hm => habsent (h.place_mem hm)⟩
    have hmaps : Table.without m.sharedPageMaps pageId = m.sharedPageMaps :=
      List.filter_eq_self.mpr fun e he => decide_eq_true (Table.lookup_eq_none.mp hmap e he)
    rw [removeSharedPageIndex, eraseShared_absent habsent, hmaps, h0]
    split <;> rfl

/-- what is removed is still counted, and a map of another partition is lost -/
theorem Sharing.not_remove (h : Sharing m b)
    (hno : ¬ (SharedOp.remove pageId partitionId seq).Harmless m)
    (hrun : m.removeSharedPageIndex pageId partitionId seq = some m') :
    ¬ Describes m' ((SharedOp.remove pageId partitionId seq).spec b) := by
  intro hd
  have hne : m.sharedPageIndexes ≠ [] := fun hnil => hno (.inl hnil)
  obtain ⟨h0, l, hl, rfl⟩ := removeSharedPageIndex_cases hne hrun
  have hin : (⟨partitionId, pageId⟩, seq) ∉ b := by
    intro hm
    have hlt : ((SharedOp.remove pageId partitionId seq).spec b).length < b.length :=
      List.length_filter_lt_length_iff_exists.mpr ⟨_, hm, by simp⟩
    have hcount : m.numSharedPages.toBitVec.toInt = _ := hd.count
    rw [h.count] at hcount
    omega
  rw [spec_remove_absent hin] at hd
  by_cases hplace : { partitionId, pageSeqInPartition := seq } ∈ m.sharedPageIndexes
  · have hlt := eraseShared_length_lt hplace hl
    have hlen : l.length = b.length := hd.length
    rw [h.length] at hlt
    omega
  · have hmap : m.sharedPageMaps.lookup pageId ≠ none := fun hn => hno (.inr ⟨h0, hplace, hn⟩)
    obtain ⟨page, hpage⟩ := h.used pageId hmap
    refine hpage (hd.lookup_none.mp ?_)
    show List.lookup page ((List.lookup pageId (Table.without _ pageId)).getD []) = none
    rw [Table.lookup_without, if_pos rfl]
    rfl

end

/-! ## Runs -/

theorem sharing_stepwise :
    Stepwise SharedOp.run SharedOp.spec Sharing Describes SharedOp.Harmless fun _ => True where
  agrees h := h.toDescribes
  allows := by
    rintro m b (⟨pageId, partitionId, seq⟩ | ⟨pageId, partitionId, seq⟩) - h hharm
    · exact ⟨_, rfl, h.add hharm.1 hharm.2⟩
    · obtain ⟨hrun, hspec⟩ := h.remove hharm
      exact ⟨m, hrun, hspec.symm ▸ h⟩
  not_allows := by
    rintro m b (⟨pageId, partitionId, seq⟩ | ⟨pageId, partitionId, seq⟩) m' - h hno hrun
    · cases hrun
      exact h.not_add hno
    · exact h.not_remove hno hrun

/-- no page is shared yet -/
def notShared (m : PartitionedFileMetaData) : PartitionedFileMetaData :=
  { m with numSharedPages := 0, sharedPageIndexes := [], sharedPageMaps := [] }

theorem sharing_notShared (m : PartitionedFileMetaData) : Sharing m.notShared [] where
  indexes := .nil
  maps _ _ := rfl
  count := rfl
  keyed := List.nodup_nil
  used _ h := absurd rfl h

/-- **The vector, the maps and the count describe the same pages along a run just if no call of it adds
a page that is there, overflows the count, or removes anything.** -/
theorem describes_iff (m : PartitionedFileMetaData) (ops : List SharedOp) :
    (∀ pre, pre <+: ops → ∃ m', pre.foldlM SharedOp.run m.notShared = some m' ∧
        Describes m' (pre.foldl SharedOp.spec [])) ↔
      ∀ pre op, pre ++ [op] <+: ops → ∀ m', pre.foldlM SharedOp.run m.notShared = some m' →
        op.Harmless m' :=
  sharing_stepwise.iff (sharing_notShared m) fun _ _ => trivial

/-- two pages shared, and one of them taken back: it is still in the map, and still counted -/
theorem describes_not_always :
    ¬ ∃ m', [SharedOp.add 5 0 7, .add 6 0 8, .remove 5 0 7].foldlM SharedOp.run
        (empty (-1) ⟨0, 0, 0⟩).notShared = some m' ∧
      Describes m' ([SharedOp.add 5 0 7, .add 6 0 8, .remove 5 0 7].foldl SharedOp.spec []) := by
  rintro ⟨m', hrun, hd⟩
  cases hrun
  exact absurd hd.count (by decide)

end PartitionedFileMetaData
end Netsdb
