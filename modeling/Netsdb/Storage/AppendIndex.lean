import Netsdb.Storage.MetaPartition
import Mathlib.Data.Finset.Card
import Mathlib.Data.Finset.Range
import Mathlib.Data.List.Nodup

/-!
# The index of the pages that have been appended

* `PartitionedFile.appends`   a sequence of calls of `appendPage`;
* `PartitionedFile.recorded`  the calls that append a page;
* `AppendIndex`               what the metadata says of them;
* `appends_index`             pages whose ids are distinct, and none of them the sentinel.
-/

set_option linter.unusedSectionVars false

namespace Netsdb
namespace PartitionedFile
open PartitionedFileMetaData

/-- a call of `appendPage`; `appended`: the partition has an open handle, there is a page, and it is
written -/
structure AppendCall where
  partitionId : UInt32
  pageId : UInt32
  appended : Bool
deriving DecidableEq

/-- an exception leaves the file as it was -/
def appendCall (f : PartitionedFile) (c : AppendCall) : PartitionedFile :=
  (f.appendPage c.partitionId c.pageId c.appended).getD f

def appends : PartitionedFile → List AppendCall → PartitionedFile
  | f, [] => f
  | f, c :: cs => appends (f.appendCall c) cs

/-- the page is appended to one of `numPartitions` partitions -/
def AppendCall.succeeds (numPartitions : Nat) (c : AppendCall) : Bool :=
  c.appended && decide (c.partitionId.toNat < numPartitions)

def recorded (numPartitions : Nat) (cs : List AppendCall) : List AppendCall :=
  cs.filter (·.succeeds numPartitions)

/-- the pages of a partition, in the order in which they were appended -/
def pagesOf (history : List AppendCall) (partitionId : UInt32) : List UInt32 :=
  (history.filter (·.partitionId = partitionId)).map (·.pageId)

/-- what the metadata says of the pages that have been appended -/
structure AppendIndex (m : PartitionedFileMetaData) (history : List AppendCall) : Prop where
  functions : FiniteMap.Distinct m.pageIndexes ∧ FiniteMap.Distinct m.pageIds
  inverse : ∀ pageId index, m.pageIndexes.lookup pageId = some index ↔
    m.pageIds.lookup index = some pageId
  entries : m.numFlushedPages.toNat = m.pageIndexes.length
  flushed : m.numFlushedPages.toNat = (m.partitions.map (·.numPages.toNat)).sum
  numPages : ∀ (partitionId : UInt32) p, m.partitions[partitionId.toNat]? = some p →
    p.numPages.toNat = (pagesOf history partitionId).length
  sequence : ∀ partitionId s : UInt32, m.pageIds.lookup { partitionId, pageSeqInPartition := s } =
    (pagesOf history partitionId)[s.toNat]?
  latest_le : ∀ c ∈ history, c.pageId ≤ m.latestPageId
  latest_mem : history ≠ [] → ∃ c ∈ history, c.pageId = m.latestPageId
  latest_none : m.latestPageId = -1 ↔ history = []

section
variable {paths : List Path} {f : PartitionedFile} {p : PartitionMetaData} {c : AppendCall}
  {history : List AppendCall}

/-- the calls that do not append -/
theorem appendCall_fails (h : c.succeeds f.metaData.partitions.length = false ∨ f.cleared = true) :
    f.appendCall c = f := by
  unfold appendCall appendPage
  cases hp : f.metaData.partitions[c.partitionId.toNat]? with
  | none => rfl
  | some p =>
    rw [Option.map_some, Option.getD_some, if_pos]
    have hlt := (List.getElem?_eq_some_iff.mp hp).1
    rcases h with h | h
    · rw [AppendCall.succeeds, decide_eq_true hlt, Bool.and_true] at h
      rw [h, Bool.not_false, Bool.or_true]
    · rw [h, Bool.true_or]

theorem appendCall_succeeds (h : c.succeeds f.metaData.partitions.length = true)
    (hc : f.cleared = false) : ∃ p, f.metaData.partitions[c.partitionId.toNat]? = some p ∧
      f.appendCall c = { f with metaData := recordPage f.metaData p c.partitionId c.pageId } := by
  rw [AppendCall.succeeds, Bool.and_eq_true, decide_eq_true_eq] at h
  obtain ⟨happ, hlt⟩ := h
  refine ⟨f.metaData.partitions[c.partitionId.toNat], List.getElem?_eq_getElem hlt, ?_⟩
  rw [appendCall, appendPage, List.getElem?_eq_getElem hlt, Option.map_some, Option.getD_some,
    happ, hc, if_neg (by decide)]

/-- the sum of the page counts, with one page more -/
theorem sum_modify {l : List PartitionMetaData} : ∀ {i : Nat} {p : PartitionMetaData},
    l[i]? = some p → (p.numPages + 1).toNat = p.numPages.toNat + 1 →
    ((l.modify i fun q => { q with numPages := q.numPages + 1 }).map (·.numPages.toNat)).sum =
      (l.map (·.numPages.toNat)).sum + 1 := by
  induction l with
  | nil =>
    intro i p hp _
    cases hp
  | cons q l ih =>
    intro i p hp hone
    cases i with
    | zero =>
      cases hp
      show (q.numPages + 1).toNat + (l.map (·.numPages.toNat)).sum = _
      rw [List.map_cons, List.sum_cons, hone, Nat.add_right_comm]
    | succ i =>
      have hrest := ih (i := i) hp hone
      show q.numPages.toNat + (List.map _ (l.modify i _)).sum = _
      rw [hrest, List.map_cons, List.sum_cons, Nat.add_assoc]

theorem lookup_iff_mem {K V : Type} [BEq K] [LawfulBEq K] {l : List (K × V)}
    (h : FiniteMap.Distinct l) {k : K} {v : V} : l.lookup k = some v ↔ (k, v) ∈ l := by
  rw [List.lookup_eq_some_iff]
  constructor
  · rintro ⟨l₁, l₂, rfl, -⟩
    exact List.mem_append_right _ List.mem_cons_self
  · intro hm
    obtain ⟨l₁, l₂, rfl⟩ := List.append_of_mem hm
    refine ⟨l₁, l₂, rfl, fun x hx => ?_⟩
    have hne := (List.pairwise_append.mp h).2.2 x hx (k, v) List.mem_cons_self
    rw [bne, BEq.comm, hne]
    rfl

theorem Tidy.inverse_iff (h : Tidy paths f) (pageId : UInt32) (index : PageIndex) :
    f.metaData.pageIndexes.lookup pageId = some index ↔
      f.metaData.pageIds.lookup index = some pageId := by
  rw [lookup_iff_mem h.distinct, lookup_iff_mem h.inverseDistinct, h.inverse]
  constructor
  · exact fun hm => List.mem_map.mpr ⟨_, hm, rfl⟩
  · intro hm
    obtain ⟨e, he, heq⟩ := List.mem_map.mp hm
    obtain ⟨rfl, rfl⟩ := Prod.mk.inj heq
    exact he

theorem pagesOf_append (history : List AppendCall) (c : AppendCall) (partitionId : UInt32) :
    pagesOf (history ++ [c]) partitionId =
      pagesOf history partitionId ++ if c.partitionId = partitionId then [c.pageId] else [] := by
  rw [pagesOf, List.filter_append, List.map_append]
  by_cases h : c.partitionId = partitionId
  · rw [if_pos h, List.filter_cons_of_pos (by simpa using h)]
    rfl
  · rw [if_neg h, List.filter_cons_of_neg (by simpa using h)]
    rfl

theorem mem_of_mem_pagesOf {partitionId pageId : UInt32} (h : pageId ∈ pagesOf history partitionId) :
    ∃ c ∈ history, c.pageId = pageId := by
  obtain ⟨c, hc, rfl⟩ := List.mem_map.mp h
  exact ⟨c, (List.mem_filter.mp hc).1, rfl⟩

/-- every page in the index has been appended -/
theorem AppendIndex.mem_history {m : PartitionedFileMetaData} (h : AppendIndex m history)
    {e : UInt32 × PageIndex} (he : e ∈ m.pageIndexes) : ∃ c ∈ history, c.pageId = e.1 := by
  have hlook := (h.inverse e.1 e.2).mp ((lookup_iff_mem h.functions.1).mpr he)
  have hseq := h.sequence e.2.partitionId e.2.pageSeqInPartition
  rw [show ({ partitionId := e.2.partitionId, pageSeqInPartition := e.2.pageSeqInPartition } :
    PageIndex) = e.2 from rfl, hlook] at hseq
  exact mem_of_mem_pagesOf (List.mem_of_getElem? hseq.symm)

/-- with a page more than the index has, and the sentinel, there are at most `2 ^ 32` ids -/
theorem count_lt {l : List (UInt32 × PageIndex)} (hd : FiniteMap.Distinct l) {pageId : UInt32}
    (hnew : ∀ e ∈ l, e.1 ≠ pageId) (hsent : ∀ e ∈ l, e.1 ≠ -1) (hid : pageId ≠ -1) :
    l.length + 1 < 2 ^ 32 := by
  have hkeys : (l.map Prod.fst).Nodup := by
    refine List.pairwise_map.mpr (hd.imp fun {a b} hab heq => ?_)
    rw [heq, beq_self_eq_true] at hab
    cases hab
  have hall : ((pageId :: (-1) :: l.map Prod.fst).map UInt32.toNat).Nodup := by
    refine List.Nodup.map (fun x y => UInt32.toNat_inj.mp)
      (List.nodup_cons.mpr ⟨?_, List.nodup_cons.mpr ⟨?_, hkeys⟩⟩)
    · intro hm
      rcases List.mem_cons.mp hm with hm | hm
      · exact hid hm
      · obtain ⟨e, he, heq⟩ := List.mem_map.mp hm
        exact hnew e he heq
    · intro hm
      obtain ⟨e, he, heq⟩ := List.mem_map.mp hm
      exact hsent e he heq
  have hsub : ((pageId :: (-1) :: l.map Prod.fst).map UInt32.toNat).toFinset ⊆
      Finset.range (2 ^ 32) := by
    intro n hn
    obtain ⟨x, -, rfl⟩ := List.mem_map.mp (List.mem_toFinset.mp hn)
    exact Finset.mem_range.mpr x.toNat_lt
  have hcard := Finset.card_le_card hsub
  rw [List.toFinset_card_of_nodup hall, Finset.card_range, List.length_map, List.length_cons,
    List.length_cons, List.length_map] at hcard
  omega

/-- **One page more.** -/
theorem recordPage_index (ht : Tidy paths f) (h : AppendIndex f.metaData history)
    (hp : f.metaData.partitions[c.partitionId.toNat]? = some p)
    (hnew : ∀ x ∈ history, x.pageId ≠ c.pageId) (hsent : ∀ x ∈ history, x.pageId ≠ -1)
    (hid : c.pageId ≠ -1) :
    Tidy paths { f with metaData := recordPage f.metaData p c.partitionId c.pageId } ∧
      AppendIndex (recordPage f.metaData p c.partitionId c.pageId) (history ++ [c]) := by
  have hhas : ¬ FiniteMap.Has f.metaData.pageIndexes c.pageId := by
    rintro ⟨e, he, hk⟩
    obtain ⟨x, hx, hxe⟩ := h.mem_history he
    exact hnew x hx (hxe.trans (eq_of_beq hk))
  have hfew : f.metaData.numFlushedPages.toNat + 1 < 2 ^ 32 := by
    rw [h.entries]
    refine count_lt h.functions.1 (fun e he heq => ?_) (fun e he heq => ?_) hid
    · exact hhas ⟨e, he, by rw [heq]; exact beq_self_eq_true _⟩
    · obtain ⟨x, hx, hxe⟩ := h.mem_history he
      exact hsent x hx (hxe.trans heq)
  have htidy := recordPage_tidy ht hp hhas hfew
  have hfree := ht.free hp
  have hpn : (p.numPages + 1).toNat = p.numPages.toNat + 1 :=
    toNat_add_one (Nat.lt_of_le_of_lt
      (Nat.add_le_add_right (ht.fewer p (List.mem_of_getElem? hp)) 1) hfew)
  have hids : (recordPage f.metaData p c.partitionId c.pageId).pageIds = f.metaData.pageIds ++
      [({ partitionId := c.partitionId, pageSeqInPartition := p.numPages }, c.pageId)] := if_neg hfree
  have hlen : p.numPages.toNat = (pagesOf history c.partitionId).length := h.numPages _ p hp
  refine ⟨htidy, ⟨htidy.distinct, htidy.inverseDistinct⟩, htidy.inverse_iff, htidy.flushed, ?_,
    fun partitionId q hq => ?_, fun partitionId s => ?_, fun x hx => ?_, fun _ => ?_, ?_⟩
  · show (f.metaData.numFlushedPages + 1).toNat = ((f.metaData.partitions.modify _ _).map _).sum
    rw [sum_modify hp hpn, toNat_add_one hfew, h.flushed]
  · have hq' : (f.metaData.partitions.modify c.partitionId.toNat fun q =>
        { q with numPages := q.numPages + 1 })[partitionId.toNat]? = some q := hq
    rw [pagesOf_append, List.length_append]
    by_cases he : c.partitionId = partitionId
    · subst he
      rw [List.getElem?_modify_eq, hp] at hq'
      cases hq'
      rw [if_pos rfl]
      exact hpn.trans (by rw [hlen]; rfl)
    · have hne : c.partitionId.toNat ≠ partitionId.toNat := fun hn => he (UInt32.toNat_inj.mp hn)
      rw [List.getElem?_modify_ne _ _ hne] at hq'
      rw [if_neg he]
      exact h.numPages partitionId q hq'
  · rw [hids, List.lookup_append, h.sequence, pagesOf_append]
    by_cases he : c.partitionId = partitionId
    · subst he
      rw [if_pos rfl, List.lookup_cons, List.lookup_nil]
      by_cases hs : s = p.numPages
      · subst hs
        rw [beq_self_eq_true, List.getElem?_eq_none (by omega), Option.none_or, hlen,
          List.getElem?_concat_length]
      · have hne : (({ partitionId := c.partitionId, pageSeqInPartition := s } : PageIndex) ==
            { partitionId := c.partitionId, pageSeqInPartition := p.numPages }) = false := by
          refine beq_eq_false_iff_ne.mpr fun heq => hs ?_
          exact congrArg PageIndex.pageSeqInPartition heq
        rw [hne, Option.or_none]
        have hsn : s.toNat ≠ (pagesOf history c.partitionId).length := fun heq =>
          hs (UInt32.toNat_inj.mp (heq.trans hlen.symm))
        rcases Nat.lt_or_gt_of_ne hsn with hlt | hgt
        · rw [List.getElem?_append_left hlt]
        · rw [List.getElem?_eq_none (by omega), List.getElem?_eq_none (by
            rw [List.length_append, List.length_singleton]
            omega)]
    · have hne : (({ partitionId, pageSeqInPartition := s } : PageIndex) ==
          { partitionId := c.partitionId, pageSeqInPartition := p.numPages }) = false := by
        refine beq_eq_false_iff_ne.mpr fun heq => he ?_
        exact (congrArg PageIndex.partitionId heq).symm
      rw [if_neg he, List.append_nil, List.lookup_cons, hne, List.lookup_nil, Option.or_none]
  · have hlat : f.metaData.latestPageId ≤ latest f.metaData c.pageId ∨ f.metaData.latestPageId = -1 := by
      unfold latest
      split_ifs with hc
      · rcases hc with hc | hc
        · exact .inl (UInt32.le_of_lt hc)
        · exact .inr hc
      · exact .inl (UInt32.le_refl _)
    show x.pageId ≤ latest f.metaData c.pageId
    rcases List.mem_append.mp hx with hx | hx
    · rcases hlat with hlat | hlat
      · exact UInt32.le_trans (h.latest_le x hx) hlat
      · rw [h.latest_none.mp hlat] at hx
        exact absurd hx List.not_mem_nil
    · rw [List.mem_singleton.mp hx, latest]
      split_ifs with hc
      · exact UInt32.le_refl _
      · exact UInt32.not_lt.mp fun hlt => hc (.inl hlt)
  · show ∃ x ∈ history ++ [c], x.pageId = latest f.metaData c.pageId
    unfold latest
    split_ifs with hc
    · exact ⟨c, by simp, rfl⟩
    · obtain ⟨x, hx, hxe⟩ := h.latest_mem fun hnil => hc (.inr (h.latest_none.mpr hnil))
      exact ⟨x, List.mem_append_left _ hx, hxe⟩
  · show latest f.metaData c.pageId = -1 ↔ _
    have hne : history ++ [c] ≠ [] := by simp
    refine ⟨fun heq => ?_, fun hnil => absurd hnil hne⟩
    unfold latest at heq
    split_ifs at heq with hc
    · exact absurd heq hid
    · exact absurd (.inr heq) hc

theorem new_index (paths : List Path) (pageSize : UInt64) (key : SetKey) :
    AppendIndex (new paths pageSize key).metaData [] where
  functions := ⟨.nil, .nil⟩
  inverse := by
    intro pageId index
    constructor
    · intro h
      cases h
    · intro h
      cases h
  entries := rfl
  flushed := by
    have hzero : (new paths pageSize key).metaData.partitions.map (·.numPages.toNat) =
        List.replicate paths.length 0 := by
      refine List.eq_replicate_iff.mpr ⟨by simp [new], fun n hn => ?_⟩
      simp only [new, List.mem_map, List.mem_mapIdx] at hn
      obtain ⟨q, ⟨i, hi, rfl⟩, rfl⟩ := hn
      rfl
    rw [hzero, List.sum_replicate]
    rfl
  numPages := by
    intro partitionId p hp
    simp only [new, List.getElem?_mapIdx, Option.map_eq_some_iff] at hp
    obtain ⟨path, -, rfl⟩ := hp
    rfl
  sequence := fun _ _ => rfl
  latest_le := fun c hc => absurd hc List.not_mem_nil
  latest_mem := fun h => absurd rfl h
  latest_none := ⟨fun _ => rfl, fun _ => rfl⟩

theorem recordPage_length (m : PartitionedFileMetaData) (p : PartitionMetaData)
    (partitionId pageId : UInt32) :
    (recordPage m p partitionId pageId).partitions.length = m.partitions.length :=
  List.length_modify _ _ _

/-- the run, from a file with a history -/
theorem appends_keeps (cs : List AppendCall) : ∀ {f : PartitionedFile} {history : List AppendCall},
    Tidy paths f → f.cleared = false → AppendIndex f.metaData history →
    ((history ++ recorded f.metaData.partitions.length cs).map (·.pageId)).Nodup →
    (∀ c ∈ history ++ recorded f.metaData.partitions.length cs, c.pageId ≠ -1) →
    AppendIndex (f.appends cs).metaData (history ++ recorded f.metaData.partitions.length cs) := by
  induction cs with
  | nil =>
    intro f history _ _ h _ _
    rw [recorded, List.filter_nil, List.append_nil]
    exact h
  | cons c cs ih =>
    intro f history ht hcl h hnd hsent
    rw [appends]
    cases hs : c.succeeds f.metaData.partitions.length with
    | false =>
      rw [appendCall_fails (.inl hs)]
      rw [recorded, List.filter_cons_of_neg (by rw [hs]; decide)] at hnd hsent ⊢
      exact ih ht hcl h hnd hsent
    | true =>
      obtain ⟨p, hp, hrun⟩ := appendCall_succeeds hs hcl
      rw [recorded, List.filter_cons_of_pos hs, List.append_cons] at hnd hsent ⊢
      have hmem : ∀ x ∈ history, x ∈ history ++ [c] ++ recorded f.metaData.partitions.length cs :=
        fun x hx => List.mem_append_left _ (List.mem_append_left _ hx)
      have hnew : ∀ x ∈ history, x.pageId ≠ c.pageId := by
        intro x hx heq
        rw [List.map_append, List.map_append, List.append_assoc] at hnd
        exact (List.disjoint_of_nodup_append hnd) (List.mem_map_of_mem hx)
          (by rw [heq]; exact List.mem_cons_self)
      obtain ⟨ht', h'⟩ := recordPage_index ht h hp hnew (fun x hx => hsent x (hmem x hx))
        (hsent c (List.mem_append_left _ (List.mem_append_right _ List.mem_cons_self)))
      have hlen := recordPage_length f.metaData p c.partitionId c.pageId
      have hrest := ih (f := { f with metaData := recordPage f.metaData p c.partitionId c.pageId })
        ht' hcl h' (by rw [hlen]; exact hnd) (by rw [hlen]; exact hsent)
      rw [hrun]
      rw [hlen] at hrest
      exact hrest

theorem appends_length (cs : List AppendCall) : ∀ (f : PartitionedFile),
    (f.appends cs).metaData.partitions.length = f.metaData.partitions.length := by
  induction cs with
  | nil => exact fun _ => rfl
  | cons c cs ih =>
    intro f
    rw [appends, ih]
    unfold appendCall appendPage
    cases f.metaData.partitions[c.partitionId.toNat]? with
    | none => rfl
    | some p =>
      rw [Option.map_some, Option.getD_some]
      split_ifs
      · rfl
      · exact recordPage_length _ p _ _

/-- **The index after any sequence of appends** of pages with distinct ids, none of which is the
sentinel; a call that does not append leaves the file as it was. -/
theorem appends_index (paths : List Path) (pageSize : UInt64) (key : SetKey) (cs : List AppendCall)
    (hnd : ((recorded paths.length cs).map (·.pageId)).Nodup)
    (hsent : ∀ c ∈ recorded paths.length cs, c.pageId ≠ -1) :
    AppendIndex ((new paths pageSize key).appends cs).metaData (recorded paths.length cs) ∧
      ∀ c : AppendCall, c.succeeds paths.length = false →
        ((new paths pageSize key).appends cs).appendCall c = (new paths pageSize key).appends cs := by
  have hlen : (new paths pageSize key).metaData.partitions.length = paths.length :=
    List.length_mapIdx
  refine ⟨?_, fun c hc => appendCall_fails (.inl ?_)⟩
  · have hrun := appends_keeps cs (new_tidy paths pageSize key) rfl (new_index paths pageSize key)
    rw [hlen, List.nil_append] at hrun
    exact hrun hnd hsent
  · rw [appends_length, hlen]
    exact hc

/-- three pages in two partitions; two calls fail -/
def threeAppends : List AppendCall :=
  [⟨1, 7, true⟩, ⟨0, 4, false⟩, ⟨1, 3, true⟩, ⟨2, 5, true⟩, ⟨0, 4, true⟩]

theorem appends_index_three :
    AppendIndex ((new [[97], [98]] 4096 ⟨0, 0, 0⟩).appends threeAppends).metaData
      [⟨1, 7, true⟩, ⟨1, 3, true⟩, ⟨0, 4, true⟩] :=
  (appends_index [[97], [98]] 4096 ⟨0, 0, 0⟩ threeAppends (by decide) (by decide)).1

/-- **A page whose id is the sentinel**: the next page is taken for the first -/
theorem appends_index_not_always :
    ((recorded 1 [⟨0, -1, true⟩, ⟨0, 5, true⟩]).map (·.pageId)).Nodup ∧
      ((new [[97]] 4096 ⟨0, 0, 0⟩).appends [⟨0, -1, true⟩, ⟨0, 5, true⟩]).metaData.latestPageId = 5 ∧
      ¬ AppendIndex ((new [[97]] 4096 ⟨0, 0, 0⟩).appends [⟨0, -1, true⟩, ⟨0, 5, true⟩]).metaData
        (recorded 1 [⟨0, -1, true⟩, ⟨0, 5, true⟩]) := by
  refine ⟨by decide, by decide, fun h => ?_⟩
  have hle := h.latest_le ⟨0, -1, true⟩ (by decide)
  exact absurd hle (by decide)

end
end PartitionedFile
end Netsdb
