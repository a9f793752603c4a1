import Netsdb.Storage.MetaPartition

/-!
# The data of a partitioned file, written and read with direct I/O

* `DirectFile.appendPageDirect`   appends the bytes of a page, and records it if all were written;
* `DirectFile.loadPageDirect`     reads from where the sequence number says that the page is;
* `Stored`                      every page that was recorded is there;
* `stored_of_reach`             runs in which no page is appended behind part of another one.
-/

set_option linter.unusedSectionVars false

namespace Netsdb
open Machine PartitionedFileMetaData

structure DataPage where
  pageId : UInt32
  rawBytes : List UInt8
deriving DecidableEq

/-- the data partitions are open for appending -/
structure DirectFile where
  file : PartitionedFile
  /-- `dataHandles.at (i) >= 0` -/
  handles : Nat → Bool
  /-- the bytes of the partitions -/
  data : Nat → List UInt8
  /-- where the next read of a partition begins -/
  position : Nat → Nat

/-- the largest `off_t` -/
def maxOffset : Nat := 2 ^ 63 - 1

/-- how many bytes `write` has written: at most what is asked for, and what the file can take -/
def writeCount (old data : List UInt8) (written : Nat) : Nat :=
  min written (min data.length (maxOffset - old.length))

namespace DirectFile

/-- the constructor -/
def new (paths : List Path) (pageSize : UInt64) (key : SetKey) : DirectFile :=
  ⟨PartitionedFile.new paths pageSize key, fun _ => true, fun _ => [], fun _ => 0⟩

/-- `written` is what the operating system does: an error, or so many bytes -/
def writeDataDirect (f : DirectFile) (i : Nat) (data : List UInt8) (written : Option Nat) :
    DirectFile × Bool :=
  match written with
  | none => (f, false)
  | some n =>
    let count := writeCount (f.data i) data n
    ({ f with
        data := Function.update f.data i (f.data i ++ data.take count)
        position := Function.update f.position i ((f.data i).length + count) },
      decide (count = data.length))

/-- with the sequence number of the page, or `none` for `-1`; an exception if there is no such
partition -/
def appendPageDirect (f : DirectFile) (partitionId : UInt32) (page : Option DataPage)
    (written : Option Nat) : Option (DirectFile × Option UInt32) :=
  (f.file.metaData.partitions[partitionId.toNat]?).map fun p =>
    match page with
    | none => (f, none)
    | some page =>
      if !f.handles partitionId.toNat || f.file.cleared then (f, none)
      else
        match f.writeDataDirect partitionId.toNat page.rawBytes written with
        | (f, false) => (f, none)
        | (f, true) =>
          ({ f with
              file := { f.file with
                metaData := PartitionedFile.recordPage f.file.metaData p partitionId page.pageId } },
            some p.numPages)

/-- the product is a `size_t`; what is too large for an `off_t` leaves the position as it is -/
def seekPageDirect (f : DirectFile) (i : Nat) (pageSeqInPartition : UInt32) : DirectFile :=
  let offset := (pageSeqInPartition.toUInt64 * f.file.metaData.pageSize).toNat
  if maxOffset < offset then f
  else { f with position := Function.update f.position i offset }

/-- the bytes, or `none` for `(size_t) (-1)`; an exception if there is no such partition -/
def loadPageDirect (f : DirectFile) (partitionId pageSeqInPartition : UInt32) (length : Nat) :
    Option (DirectFile × Option (List UInt8)) :=
  (f.file.metaData.partitions[partitionId.toNat]?).map fun p =>
    let i := partitionId.toNat
    if !f.handles i then (f, none)
    else if pageSeqInPartition < p.numPages then
      let f := f.seekPageDirect i pageSeqInPartition
      let bytes := ((f.data i).drop (f.position i)).take length
      ({ f with position := Function.update f.position i (f.position i + bytes.length) }, some bytes)
    else (f, none)

end DirectFile

/-- what is asked of a file -/
inductive DataOp
  | append (partitionId : UInt32) (page : Option DataPage) (written : Option Nat)
  | load (partitionId pageSeqInPartition : UInt32) (length : Nat)

/-- a page whose append was reported as successful -/
structure StoredPage where
  partitionId : UInt32
  pageSeqInPartition : UInt32
  rawBytes : List UInt8
deriving DecidableEq

/-- a file, and the pages that were appended to it -/
structure DataHistory where
  file : DirectFile
  stored : List StoredPage

namespace DataHistory

def step (s : DataHistory) : DataOp → Option DataHistory
  | .append partitionId page written =>
    (s.file.appendPageDirect partitionId page written).map fun r =>
      ⟨r.1, match r.2, page with
        | some seq, some page => s.stored ++ [⟨partitionId, seq, page.rawBytes⟩]
        | _, _ => s.stored⟩
  | .load partitionId pageSeqInPartition length =>
    (s.file.loadPageDirect partitionId pageSeqInPartition length).map fun r => ⟨r.1, s.stored⟩

/-- the condition on an append that succeeds: nothing but whole pages is in the partition, the page
has the page size of the file, and the page counter does not wrap around -/
def Aligned (s : DataHistory) : DataOp → Prop
  | .append partitionId (some page) (some written) =>
    let old := s.file.data partitionId.toNat
    let pageSize := s.file.file.metaData.pageSize.toNat
    s.file.handles partitionId.toNat = true → s.file.file.cleared = false →
    writeCount old page.rawBytes written = page.rawBytes.length →
    ∀ p ∈ s.file.file.metaData.partitions[partitionId.toNat]?,
      old.length = p.numPages.toNat * pageSize ∧ page.rawBytes.length = pageSize ∧
        p.numPages.toNat + 1 < 2 ^ 32
  | _ => True

instance (s : DataHistory) : (op : DataOp) → Decidable (Aligned s op)
  | .append partitionId (some page) (some written) =>
    inferInstanceAs (Decidable (s.file.handles partitionId.toNat = true →
      s.file.file.cleared = false →
      writeCount (s.file.data partitionId.toNat) page.rawBytes written = page.rawBytes.length →
      ∀ p ∈ s.file.file.metaData.partitions[partitionId.toNat]?,
        (s.file.data partitionId.toNat).length =
            p.numPages.toNat * s.file.file.metaData.pageSize.toNat ∧
          page.rawBytes.length = s.file.file.metaData.pageSize.toNat ∧
          p.numPages.toNat + 1 < 2 ^ 32))
  | .append _ none _ => inferInstanceAs (Decidable True)
  | .append _ (some _) none => inferInstanceAs (Decidable True)
  | .load _ _ _ => inferInstanceAs (Decidable True)

/-- every page whose append was reported as successful is read as it was written -/
def ReadsBack (s : DataHistory) : Prop :=
  ∀ r ∈ s.stored, ∃ f, s.file.loadPageDirect r.partitionId r.pageSeqInPartition r.rawBytes.length =
    some (f, some r.rawBytes)

/-! ## The invariant -/

/-- page `r` is in the partition, where its sequence number says -/
structure Placed (f : DirectFile) (r : StoredPage) : Prop where
  recorded : ∃ p, f.file.metaData.partitions[r.partitionId.toNat]? = some p ∧
    r.pageSeqInPartition.toNat < p.numPages.toNat
  size : r.rawBytes.length = f.file.metaData.pageSize.toNat
  place : ∃ before behind, f.data r.partitionId.toNat = before ++ r.rawBytes ++ behind ∧
    before.length = r.pageSeqInPartition.toNat * f.file.metaData.pageSize.toNat

structure Stored (s : DataHistory) : Prop where
  handles : ∀ i, s.file.handles i = true
  length_le : ∀ i, (s.file.data i).length ≤ maxOffset
  placed : ∀ r ∈ s.stored, Placed s.file r

variable {s s' : DataHistory} {f : DirectFile} {r : StoredPage}

/-- a page that is in its place is read -/
theorem Placed.load (h : Placed f r) (hh : f.handles r.partitionId.toNat = true)
    (hle : (f.data r.partitionId.toNat).length ≤ maxOffset) :
    ∃ f', f.loadPageDirect r.partitionId r.pageSeqInPartition r.rawBytes.length =
      some (f', some r.rawBytes) := by
  obtain ⟨p, hp, hlt⟩ := h.recorded
  obtain ⟨before, behind, hdata, hbefore⟩ := h.place
  have hlen : before.length ≤ maxOffset := by
    rw [hdata, List.length_append, List.length_append] at hle
    omega
  have hoff : (r.pageSeqInPartition.toUInt64 * f.file.metaData.pageSize).toNat = before.length := by
    rw [UInt64.toNat_mul, UInt32.toNat_toUInt64, ← hbefore]
    refine Nat.mod_eq_of_lt (Nat.lt_of_le_of_lt hlen ?_)
    unfold maxOffset
    omega
  have hlt' : r.pageSeqInPartition < p.numPages := UInt32.lt_iff_toNat_lt.mpr hlt
  have hread : ((f.data r.partitionId.toNat).drop before.length).take r.rawBytes.length =
      r.rawBytes := by
    rw [hdata, List.append_assoc, List.drop_left, List.take_left]
  unfold DirectFile.loadPageDirect DirectFile.seekPageDirect
  rw [hp, Option.map_some]
  simp only [hh, Bool.not_true, Bool.false_eq_true, if_false, if_pos hlt', hoff,
    if_neg (Nat.not_lt_of_le hlen), Function.update_self, hread]
  exact ⟨_, rfl⟩

theorem Stored.readsBack (h : Stored s) : ReadsBack s :=
  fun _ hr => (h.placed _ hr).load (h.handles _) (h.length_le _)

/-- more bytes behind the others, and more pages -/
theorem Placed.grow {f' : DirectFile} (h : Placed f r)
    (hdata : ∀ i, ∃ l, f'.data i = f.data i ++ l)
    (hsize : f'.file.metaData.pageSize = f.file.metaData.pageSize)
    (hpages : ∀ (i : Nat) (p : PartitionMetaData), f.file.metaData.partitions[i]? = some p →
      ∃ p' : PartitionMetaData, f'.file.metaData.partitions[i]? = some p' ∧ p.numPages.toNat ≤ p'.numPages.toNat) :
    Placed f' r := by
  obtain ⟨p, hp, hlt⟩ := h.recorded
  obtain ⟨p', hp', hle⟩ := hpages _ p hp
  obtain ⟨before, behind, hd, hbefore⟩ := h.place
  obtain ⟨l, hl⟩ := hdata r.partitionId.toNat
  refine ⟨⟨p', hp', by omega⟩, by rw [hsize]; exact h.size, before, behind ++ l, ?_, by
    rw [hsize]; exact hbefore⟩
  rw [hl, hd, List.append_assoc]

/-- what `write` leaves -/
theorem writeDataDirect_spec (f : DirectFile) (i : Nat) (data : List UInt8) (written : Option Nat) :
    ∃ f' ok l, f.writeDataDirect i data written = (f', ok) ∧ f'.file = f.file ∧
      f'.handles = f.handles ∧ f'.data = Function.update f.data i (f.data i ++ l) ∧
      ((f.data i).length ≤ maxOffset → (f.data i ++ l).length ≤ maxOffset) ∧
      (ok = true → l = data ∧ ∃ n, written = some n ∧ writeCount (f.data i) data n = data.length) := by
  cases written with
  | none =>
    refine ⟨f, false, [], rfl, rfl, rfl, ?_, fun h => by rw [List.append_nil]; exact h, fun h => ?_⟩
    · rw [List.append_nil, Function.update_eq_self]
    · cases h
  | some n =>
    refine ⟨_, _, data.take (writeCount (f.data i) data n), rfl, rfl, rfl, rfl, fun h => ?_,
      fun h => ?_⟩
    · rw [List.length_append, List.length_take]
      unfold writeCount
      omega
    · have hall := of_decide_eq_true h
      rw [hall, List.take_length]
      exact ⟨rfl, n, rfl, hall⟩

theorem pages_recordPage {m : PartitionedFileMetaData} {p : PartitionMetaData}
    {partitionId pageId : UInt32} (hp : m.partitions[partitionId.toNat]? = some p)
    (hfew : p.numPages.toNat + 1 < 2 ^ 32) {i : Nat} {q : PartitionMetaData}
    (hq : m.partitions[i]? = some q) :
    ∃ q', (PartitionedFile.recordPage m p partitionId pageId).partitions[i]? = some q' ∧
      q'.numPages.toNat = q.numPages.toNat + if partitionId.toNat = i then 1 else 0 := by
  have hmod : (PartitionedFile.recordPage m p partitionId pageId).partitions =
      m.partitions.modify partitionId.toNat fun p => { p with numPages := p.numPages + 1 } := rfl
  by_cases he : partitionId.toNat = i
  · subst he
    rw [hp] at hq
    cases hq
    rw [hmod, List.getElem?_modify_eq, hp, if_pos rfl]
    exact ⟨_, rfl, PartitionedFile.toNat_add_one hfew⟩
  · rw [hmod, List.getElem?_modify_ne _ _ he, if_neg he]
    exact ⟨q, hq, rfl⟩

/-- an append that is not reported as successful may leave bytes behind -/
theorem Stored.fails (h : Stored s) {i : Nat} {l : List UInt8}
    (hfile : f.file = s.file.file) (hh : f.handles = s.file.handles)
    (hdata : f.data = Function.update s.file.data i (s.file.data i ++ l))
    (hle : (s.file.data i ++ l).length ≤ maxOffset) : Stored ⟨f, s.stored⟩ := by
  have hgrow : ∀ j, ∃ l', f.data j = s.file.data j ++ l' := by
    intro j
    by_cases he : j = i
    · subst he
      exact ⟨l, by rw [hdata, Function.update_self]⟩
    · exact ⟨[], by rw [hdata, Function.update_of_ne he, List.append_nil]⟩
  refine ⟨fun j => by rw [hh]; exact h.handles j, fun j => ?_, fun r hr => ?_⟩
  · by_cases he : j = i
    · subst he
      rw [hdata, Function.update_self]
      exact hle
    · rw [hdata, Function.update_of_ne he]
      exact h.length_le j
  · refine (h.placed r hr).grow hgrow (by rw [hfile]) fun j p hp => ⟨p, ?_, Nat.le_refl _⟩
    rw [hfile]
    exact hp

/-- **One append.** -/
theorem append_stored (h : Stored s) {partitionId : UInt32} {page : Option DataPage}
    {written : Option Nat} (hc : Aligned s (.append partitionId page written))
    (hs : s.step (.append partitionId page written) = some s') : Stored s' := by
  rw [step, DirectFile.appendPageDirect, Option.map_map] at hs
  obtain ⟨p, hp, heq⟩ := Option.map_eq_some_iff.mp hs
  rw [Function.comp_apply] at heq
  cases page with
  | none =>
    rw [← heq]
    exact h
  | some page =>
    dsimp only at heq
    by_cases hclosed : (!s.file.handles partitionId.toNat || s.file.file.cleared) = true
    · rw [if_pos hclosed] at heq
      rw [← heq]
      exact h
    · rw [if_neg hclosed] at heq
      obtain ⟨f', ok, l, hrun, hfile, hh, hdata, hle, hok⟩ :=
        writeDataDirect_spec s.file partitionId.toNat page.rawBytes written
      rw [hrun] at heq
      have hfailed := h.fails hfile hh hdata (hle (h.length_le _))
      cases ok with
      | false =>
        rw [← heq]
        exact hfailed
      | true =>
        obtain ⟨rfl, n, rfl, hall⟩ := hok rfl
        have hopen : s.file.handles partitionId.toNat = true ∧ s.file.file.cleared = false := by
          simpa using hclosed
        obtain ⟨hend, hsize, hfew⟩ := hc hopen.1 hopen.2 hall p hp
        rw [← hfile] at hp hend hsize
        rw [← heq]
        refine ⟨hfailed.handles, hfailed.length_le, fun r hr => ?_⟩
        have hpages : ∀ (i : Nat) (q : PartitionMetaData), f'.file.metaData.partitions[i]? = some q →
            ∃ q', (PartitionedFile.recordPage f'.file.metaData p partitionId
                page.pageId).partitions[i]? = some q' ∧
              q'.numPages.toNat = q.numPages.toNat + if partitionId.toNat = i then 1 else 0 :=
          fun i q hq => pages_recordPage hp hfew hq
        rcases List.mem_append.mp hr with hr | hr
        · refine (hfailed.placed r hr).grow (fun j => ⟨[], (List.append_nil _).symm⟩) rfl
            fun i q hq => ?_
          obtain ⟨q', hq', hn⟩ := hpages i q hq
          exact ⟨q', hq', by omega⟩
        · -- the new page is behind the pages that were there
          obtain rfl := List.mem_singleton.mp hr
          obtain ⟨q', hq', hn⟩ := hpages _ p hp
          rw [if_pos rfl] at hn
          refine ⟨⟨q', hq', ?_⟩, hsize, s.file.data partitionId.toNat, [], ?_, hend⟩
          · show p.numPages.toNat < q'.numPages.toNat
            omega
          · show f'.data partitionId.toNat = _
            rw [hdata, Function.update_self, List.append_nil]

theorem load_stored (h : Stored s) {partitionId pageSeqInPartition : UInt32} {length : Nat}
    (hs : s.step (.load partitionId pageSeqInPartition length) = some s') : Stored s' := by
  have hseek : ∀ i, (s.file.seekPageDirect i pageSeqInPartition).file = s.file.file ∧
      (s.file.seekPageDirect i pageSeqInPartition).handles = s.file.handles ∧
      (s.file.seekPageDirect i pageSeqInPartition).data = s.file.data := by
    intro i
    unfold DirectFile.seekPageDirect
    dsimp only
    split_ifs
    · exact ⟨rfl, rfl, rfl⟩
    · exact ⟨rfl, rfl, rfl⟩
  have hkeep : ∀ f' : DirectFile, f'.file = s.file.file → f'.handles = s.file.handles →
      f'.data = s.file.data → Stored ⟨f', s.stored⟩ := by
    intro f' hfile hh hdata
    refine h.fails (i := 0) (l := []) hfile hh ?_ ?_
    · rw [hdata, List.append_nil, Function.update_eq_self]
    · rw [List.append_nil]
      exact h.length_le 0
  rw [step, DirectFile.loadPageDirect, Option.map_map] at hs
  obtain ⟨p, -, hs⟩ := Option.map_eq_some_iff.mp hs
  rw [Function.comp_apply] at hs
  dsimp only at hs
  split_ifs at hs
  · rw [← hs]
    exact h
  · rw [← hs]
    exact hkeep _ (hseek _).1 (hseek _).2.1 (hseek _).2.2
  · rw [← hs]
    exact h

theorem new_stored (paths : List Path) (pageSize : UInt64) (key : SetKey) :
    Stored ⟨.new paths pageSize key, []⟩ :=
  ⟨fun _ => rfl, fun _ => Nat.zero_le _, fun _ hr => absurd hr List.not_mem_nil⟩

/-- **Every run** in which no page is appended behind part of another one. -/
theorem stored_of_reach {paths : List Path} {pageSize : UInt64} {key : SetKey} {s : DataHistory}
    (h : Reach step Aligned ⟨.new paths pageSize key, []⟩ s) : ReadsBack s := by
  refine Stored.readsBack (h.inv (new_stored paths pageSize key) fun t op u ht hc hs => ?_)
  cases op with
  | append partitionId page written => exact append_stored ht hc hs
  | load partitionId pageSeqInPartition length => exact load_stored ht hs

/-- a page of two bytes in each of two partitions, and a page that does not fit -/
theorem stored_of_reach_two : ∃ s : DataHistory,
    s.stored = [⟨1, 0, [1, 2]⟩, ⟨0, 0, [3, 4]⟩] ∧ s.file.data 1 = [1, 2, 5] ∧ ReadsBack s := by
  have hrun : (run (guarded step Aligned) ⟨.new [[97], [98]] 2 ⟨0, 0, 0⟩, []⟩
      [.append 1 (some ⟨7, [1, 2]⟩) (some 2), .append 0 (some ⟨8, [3, 4]⟩) (some 2), .load 1 0 2,
        .append 0 none none, .append 1 (some ⟨9, [5, 6]⟩) (some 1)]).map
      (fun s => (s.stored, s.file.data 1)) =
        some ([⟨1, 0, [1, 2]⟩, ⟨0, 0, [3, 4]⟩], [1, 2, 5]) := by decide +kernel
  obtain ⟨s, hs, hfacts⟩ := Option.map_eq_some_iff.mp hrun
  obtain ⟨hstored, hdata⟩ := Prod.mk.inj hfacts
  exact ⟨s, hstored, hdata, stored_of_reach (Reach.of_run _ hs)⟩

/-- **One byte of a page stays behind**: the next page is not where its sequence number says -/
theorem stored_not_always : ∃ s : DataHistory,
    Reach step (fun _ _ => True) ⟨.new [[97]] 2 ⟨0, 0, 0⟩, []⟩ s ∧
      s.stored = [⟨0, 0, [1, 2]⟩, ⟨0, 1, [5, 6]⟩] ∧
      (s.file.loadPageDirect 0 1 2).map Prod.snd = some (some [3, 5]) ∧ ¬ ReadsBack s := by
  have hrun : (run (guarded step fun _ _ => True) ⟨.new [[97]] 2 ⟨0, 0, 0⟩, []⟩
      [.append 0 (some ⟨7, [1, 2]⟩) (some 2), .append 0 (some ⟨8, [3, 4]⟩) (some 1),
        .append 0 (some ⟨9, [5, 6]⟩) (some 2)]).map
      (fun s => (s.stored, (s.file.loadPageDirect 0 1 2).map Prod.snd)) =
        some ([⟨0, 0, [1, 2]⟩, ⟨0, 1, [5, 6]⟩], some (some [3, 5])) := by decide +kernel
  obtain ⟨s, hs, hfacts⟩ := Option.map_eq_some_iff.mp hrun
  obtain ⟨hstored, hload⟩ := Prod.mk.inj hfacts
  refine ⟨s, Reach.of_run _ hs, hstored, hload, fun h => ?_⟩
  obtain ⟨f, hf⟩ := h ⟨0, 1, [5, 6]⟩ (by rw [hstored]; decide)
  rw [show s.file.loadPageDirect 0 1 2 = some (f, some [5, 6]) from hf] at hload
  exact absurd hload (by simp)

end DataHistory
end Netsdb
