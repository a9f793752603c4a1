import Netsdb.Lib.Reach
import Netsdb.Lib.Records
import Netsdb.Storage.PDBPage

/-!
# The records of a page (`PDBPage::addVariableBytes`, `RecordIterator.cc`)

* `PDBPage.addVariableBytes`   a record behind its size, if the remaining bytes are enough for both;
* `RecordIterator`             goes over the records of a page;
* `NoWrap`                     the test for room is not passed by a number that has wrapped around;
* `records_of_reach`           what was granted is in the page, and is what the iterator gives.
-/

set_option linter.unusedSectionVars false

namespace Netsdb
namespace PageBytes
open Bytes Machine

namespace PDBPage

def getEmbeddedNumObjects (p : PDBPage) : UInt32 := load32 p.rawBytes idsSize

def incEmbeddedNumObjects (p : PDBPage) : PDBPage :=
  { p with rawBytes := store32 p.rawBytes idsSize (load32 p.rawBytes idsSize + 1) }

/-- where in the page the memory begins that the pointer is for, or `none` for `nullptr` -/
def addVariableBytes (p : PDBPage) (size : UInt64) : PDBPage × Option UInt64 :=
  let remainSize := p.size - p.curAppendOffset
  if remainSize < size + 8 then (p, none)
  else
    let cur := p.curAppendOffset
    let retPos := cur + 8
    let p := { p with
      rawBytes := store64 p.rawBytes cur.toNat size
      curAppendOffset := retPos + size }
    (p.incEmbeddedNumObjects, some retPos)

end PDBPage

/-- `curPosInPage` as an offset in the page, or `none` for the null pointer -/
structure RecordIterator where
  page : PDBPage
  numObjectsInCurPage : UInt32
  numObjectsIterated : UInt32
  curPosInPage : Option UInt64

namespace RecordIterator

/-- the constructor; `getBytes` is what is behind the header -/
def new (page : PDBPage) : RecordIterator :=
  ⟨page, page.getEmbeddedNumObjects, 0, some (UInt64.ofNat pageHeaderSize)⟩

def hasNext (it : RecordIterator) : RecordIterator × Bool :=
  if it.numObjectsInCurPage = it.numObjectsIterated then
    ({ it with curPosInPage := none }, false)
  else (it, true)

/-- the record behind the size that is read -/
def next (it : RecordIterator) : RecordIterator × Option Extent :=
  match it.curPosInPage with
  | none => (it, none)
  | some cur =>
    let objectDataSize := PDBPage.load64 it.page.rawBytes cur.toNat
    ({ it with
        curPosInPage := some (cur + 8 + objectDataSize)
        numObjectsIterated := it.numObjectsIterated + 1 },
      some ⟨(cur + 8).toNat, objectDataSize.toNat⟩)

/-- the records that `while (hasNext ()) next ()` gives; `none` if it takes more than so many
rounds -/
def iterate : Nat → RecordIterator → Option (List Extent)
  | 0, _ => none
  | n + 1, it =>
    match it.hasNext with
    | (_, false) => some []
    | (it, true) => (iterate n it.next.1).map (it.next.2.toList ++ ·)

end RecordIterator

/-- a page, and what was granted in it -/
structure RecordArea where
  page : PDBPage
  granted : List Extent

inductive RecordOp
  | add (size : UInt64)
  /-- the memory that was granted is written -/
  | write (x : Nat) (v : UInt8)

namespace RecordArea

def step (s : RecordArea) : RecordOp → Option RecordArea
  | .add size =>
    match s.page.addVariableBytes size with
    | (page, some start) => some ⟨page, s.granted ++ [⟨start.toNat, size.toNat⟩]⟩
    | (page, none) => some ⟨page, s.granted⟩
  | .write x v =>
    if ∃ r ∈ s.granted, r.start ≤ x ∧ x < r.start + r.size then
      some { s with page := { s.page with rawBytes := store s.page.rawBytes x [v] } }
    else none

/-- a request passes the test for room only if neither the bytes that remain nor the bytes that it
needs have wrapped around -/
def NoWrap (p : PDBPage) (size : UInt64) : Prop :=
  ¬ p.size - p.curAppendOffset < size + 8 →
    p.curAppendOffset ≤ p.size ∧ size.toNat + 8 < 2 ^ 64

instance (p : PDBPage) (size : UInt64) : Decidable (NoWrap p size) :=
  inferInstanceAs (Decidable (¬ _ → _ ∧ _))

def Cond (s : RecordArea) : RecordOp → Prop
  | .add size => NoWrap s.page size
  | .write _ _ => True

instance (s : RecordArea) : (op : RecordOp) → Decidable (Cond s op)
  | .add size => inferInstanceAs (Decidable (NoWrap s.page size))
  | .write _ _ => inferInstanceAs (Decidable True)

/-- a page on which `preparePage` was called -/
def prepared (p : PDBPage) : RecordArea := ⟨p.preparePage, []⟩

/-- there is room for the record and its size -/
def Fits (p : PDBPage) (size : UInt64) : Prop :=
  p.curAppendOffset.toNat + 8 + size.toNat ≤ p.size.toNat

/-- a request is granted where the last one ended if it fits; else nothing changes -/
def Answered (p : PDBPage) (size : UInt64) : Prop :=
  (Fits p size → ∃ start, (p.addVariableBytes size).2 = some start ∧
    start.toNat = p.curAppendOffset.toNat + 8) ∧
  (¬ Fits p size → p.addVariableBytes size = (p, none))

/-- the records, each with its size before it, are in the page; no two of them overlap; the
iterator gives them and then stops -/
structure Faithful (s : RecordArea) : Prop where
  inside : ∀ r ∈ s.granted, pageHeaderSize + 8 ≤ r.start ∧ r.start + r.size ≤ s.page.size.toNat
  disjoint : s.granted.Pairwise fun r q => r.start + r.size ≤ q.start
  iterates : ∀ n, s.granted.length < n →
    (RecordIterator.new s.page).iterate n = some s.granted

/-! ## One request -/

variable {p q : PDBPage} {size : UInt64} {s s' : RecordArea}

/-- if there is room, the test says so -/
theorem passes_of_fits (h : Fits p size) : ¬ p.size - p.curAppendOffset < size + 8 := by
  unfold Fits at h
  have hlt := p.size.toNat_lt
  have hsub : (p.size - p.curAppendOffset).toNat = p.size.toNat - p.curAppendOffset.toNat :=
    UInt64.toNat_sub_of_le _ _ (UInt64.le_iff_toNat_le.mpr (by omega))
  have hadd : (size + 8).toNat = size.toNat + 8 := by
    rw [UInt64.toNat_add]
    exact Nat.mod_eq_of_lt (by change size.toNat + 8 < 2 ^ 64; omega)
  rw [UInt64.lt_iff_toNat_lt, hsub, hadd]
  omega

theorem fits_of_noWrap (h : NoWrap p size) (hpass : ¬ p.size - p.curAppendOffset < size + 8) :
    Fits p size := by
  obtain ⟨hle, hlt⟩ := h hpass
  have hsub := UInt64.toNat_sub_of_le _ _ hle
  have hadd : (size + 8).toNat = size.toNat + 8 := by
    rw [UInt64.toNat_add]
    exact Nat.mod_eq_of_lt hlt
  rw [UInt64.lt_iff_toNat_lt, hsub, hadd] at hpass
  have := UInt64.le_iff_toNat_le.mp hle
  unfold Fits
  omega

theorem noWrap_of_fits (h : Fits p size) : NoWrap p size := by
  unfold Fits at h
  have hlt := p.size.toNat_lt
  exact fun _ => ⟨UInt64.le_iff_toNat_le.mpr (by omega), by omega⟩

theorem toNat_retPos (h : Fits p size) :
    (p.curAppendOffset + 8).toNat = p.curAppendOffset.toNat + 8 := by
  unfold Fits at h
  have hlt := p.size.toNat_lt
  rw [UInt64.toNat_add]
  exact Nat.mod_eq_of_lt (by change p.curAppendOffset.toNat + 8 < 2 ^ 64; omega)

theorem toNat_append (h : Fits p size) :
    (p.curAppendOffset + 8 + size).toNat = p.curAppendOffset.toNat + 8 + size.toNat := by
  have hret := toNat_retPos h
  unfold Fits at h
  have hlt := p.size.toNat_lt
  rw [UInt64.toNat_add, hret]
  exact Nat.mod_eq_of_lt (by omega)

/-- the record that is granted -/
theorem addVariableBytes_of_passes (h : ¬ p.size - p.curAppendOffset < size + 8) :
    p.addVariableBytes size = (PDBPage.incEmbeddedNumObjects { p with
        rawBytes := PDBPage.store64 p.rawBytes p.curAppendOffset.toNat size
        curAppendOffset := p.curAppendOffset + 8 + size },
      some (p.curAppendOffset + 8)) :=
  if_neg h

/-- **One request is answered as it should be** if and only if it does not pass the test by
wrapping around. -/
theorem answered_iff : Answered p size ↔ NoWrap p size := by
  by_cases hpass : p.size - p.curAppendOffset < size + 8
  · have hrun : p.addVariableBytes size = (p, none) := if_pos hpass
    exact ⟨fun _ h => absurd hpass h, fun _ => ⟨fun h => absurd hpass (passes_of_fits h),
      fun _ => hrun⟩⟩
  · have hrun : (p.addVariableBytes size).2 = some (p.curAppendOffset + 8) := by
      rw [addVariableBytes_of_passes hpass]
    refine ⟨fun h => ?_, fun h => ⟨fun hf => ⟨_, hrun, toNat_retPos hf⟩, fun hno => ?_⟩⟩
    · by_cases hf : Fits p size
      · exact noWrap_of_fits hf
      · have hnone := h.2 hf
        rw [hnone] at hrun
        cases hrun
    · exact absurd (fits_of_noWrap h hpass) hno

/-! ## A run -/

structure Inv (s : RecordArea) : Prop where
  laid : Laid s.page.rawBytes 8 pageHeaderSize s.granted s.page.curAppendOffset.toNat
  count : s.page.getEmbeddedNumObjects = UInt32.ofNat s.granted.length
  room : s.granted = [] ∨ s.page.curAppendOffset.toNat ≤ s.page.size.toNat

theorem Inv.prepared (p : PDBPage) : Inv (prepared p) := by
  refine ⟨rfl, ?_, .inl rfl⟩
  show PDBPage.load32 (PDBPage.preparePage p).rawBytes idsSize = 0
  unfold PDBPage.preparePage
  dsimp only
  rw [PDBPage.load32_store32_of_disjoint (.inl (by decide)),
    PDBPage.load32_store64_of_disjoint (.inl (by decide)), PDBPage.load32_store32]

/-- the row of records begins behind the count -/
theorem load32_congr {m m' : Mem} {a : Nat} (h : ∀ i < 4, m' (a + i) = m (a + i)) :
    PDBPage.load32 m' a = PDBPage.load32 m a := by
  rw [PDBPage.load32, PDBPage.load32, loadNat_congr h]

/-- **A request that is granted.** -/
theorem Inv.grant (h : Inv s) (hf : Fits s.page size) (hs : s.step (.add size) = some s') :
    Inv s' := by
  have hpass := passes_of_fits hf
  have hcur := toNat_append hf
  have hret := toNat_retPos hf
  have hle := h.laid.le
  dsimp only [RecordArea.step] at hs
  rw [addVariableBytes_of_passes hpass] at hs
  obtain rfl := Option.some.inj hs
  -- the memory with the size, before the record is counted
  let m := PDBPage.store64 s.page.rawBytes s.page.curAppendOffset.toNat size
  have hrow : Laid m 8 pageHeaderSize s.granted s.page.curAppendOffset.toNat :=
    h.laid.congr fun x _ hlt _ => storeNat_outside (.inl hlt)
  have hsize : loadNat m s.page.curAppendOffset.toNat 8 = size.toNat :=
    loadNat_storeNat _ _ size.toNat_lt
  have hlaid := hrow.append (r := ⟨s.page.curAppendOffset.toNat + 8, size.toNat⟩) hsize rfl
  refine ⟨?_, ?_, .inr ?_⟩
  · show Laid (PDBPage.store32 m idsSize (PDBPage.load32 m idsSize + 1)) 8 pageHeaderSize
      (s.granted ++ [⟨(s.page.curAppendOffset + 8).toNat, size.toNat⟩])
      (s.page.curAppendOffset + 8 + size).toNat
    rw [hcur, hret]
    refine hlaid.congr fun x hge _ _ => storeNat_outside (.inr ?_)
    exact Nat.le_trans (by decide) hge
  · show PDBPage.load32 (PDBPage.store32 m idsSize (PDBPage.load32 m idsSize + 1)) idsSize =
      UInt32.ofNat (s.granted ++ [_]).length
    have hsame : PDBPage.load32 m idsSize = PDBPage.load32 s.page.rawBytes idsSize :=
      PDBPage.load32_store64_of_disjoint (.inl (Nat.le_trans (by decide) hle))
    have hcount : PDBPage.load32 s.page.rawBytes idsSize = UInt32.ofNat s.granted.length := h.count
    rw [PDBPage.load32_store32, hsame, hcount, List.length_append, List.length_singleton,
      UInt32.ofNat_add]
    rfl
  · show (s.page.curAppendOffset + 8 + size).toNat ≤ s.page.size.toNat
    rw [hcur]
    exact hf

theorem Inv.step (h : Inv s) {op : RecordOp} (hc : Cond s op) (hs : s.step op = some s') :
    Inv s' := by
  cases op with
  | add size =>
    by_cases hf : Fits s.page size
    · exact h.grant hf hs
    · have hnone := (answered_iff.mpr hc).2 hf
      dsimp only [RecordArea.step] at hs
      rw [hnone] at hs
      obtain rfl := Option.some.inj hs
      exact h
  | write x v =>
    dsimp only [RecordArea.step] at hs
    split_ifs at hs with hin
    obtain rfl := Option.some.inj hs
    obtain ⟨r, hr, hhas⟩ := hin
    have hinside := h.laid.inside r hr
    refine ⟨h.laid.congr fun y _ _ hno => store_outside ?_, ?_, h.room⟩
    · have hne : y ≠ x := fun he => hno r hr (he ▸ hhas)
      rw [List.length_singleton]
      omega
    · show PDBPage.load32 (store s.page.rawBytes x [v]) idsSize = _
      rw [← h.count]
      refine load32_congr fun i hi => store_outside (.inl ?_)
      have : idsSize + 4 + 8 ≤ pageHeaderSize := by decide
      omega

/-! ## The iterator -/

/-- **The iterator.**  Over a row of records that ends in the page, it gives the records that it
has not counted yet. -/
theorem iterate_laid {it : RecordIterator} {rs : List Extent} {cur : UInt64} {b n : Nat}
    (hlaid : Laid it.page.rawBytes 8 cur.toNat rs b) (hpos : it.curPosInPage = some cur)
    (hb : b < 2 ^ 64) (hcount : it.numObjectsInCurPage =
      it.numObjectsIterated + UInt32.ofNat rs.length)
    (hlt : rs.length < 2 ^ 32) (hn : rs.length < n) : it.iterate n = some rs := by
  induction rs generalizing it cur n with
  | nil =>
    obtain ⟨n, rfl⟩ := Nat.exists_eq_add_of_lt hn
    have hstop : it.numObjectsInCurPage = it.numObjectsIterated := by
      rw [hcount]
      exact UInt32.add_zero _
    rw [List.length_nil, Nat.zero_add, RecordIterator.iterate, RecordIterator.hasNext,
      if_pos hstop]
  | cons r rs ih =>
    obtain ⟨n, rfl⟩ : ∃ k, n = k + 1 := ⟨n - 1, by omega⟩
    rw [List.length_cons] at hcount hlt hn
    obtain ⟨hsize, hstart, hrest⟩ := hlaid
    have hle := hrest.le
    have hret : (cur + 8).toNat = cur.toNat + 8 := by
      rw [UInt64.toNat_add]
      exact Nat.mod_eq_of_lt (by change cur.toNat + 8 < 2 ^ 64; omega)
    have hload : (PDBPage.load64 it.page.rawBytes cur.toNat).toNat = r.size := by
      rw [PDBPage.load64, hsize]
      exact UInt64.toNat_ofNat_of_lt' (by change r.size < 2 ^ 64; omega)
    have hgo : ¬ it.numObjectsInCurPage = it.numObjectsIterated := by
      intro he
      have hz : UInt32.ofNat (rs.length + 1) = 0 := by
        rw [he] at hcount
        exact (UInt32.add_right_inj it.numObjectsIterated).mp
          (hcount.symm.trans (UInt32.add_zero _).symm)
      have := congrArg UInt32.toNat hz
      rw [UInt32.toNat_ofNat_of_lt' hlt] at this
      cases this
    have hnext : it.next = ({ it with
        curPosInPage := some (cur + 8 + PDBPage.load64 it.page.rawBytes cur.toNat)
        numObjectsIterated := it.numObjectsIterated + 1 }, some r) := by
      unfold RecordIterator.next
      rw [hpos]
      dsimp only
      rw [hret, hload, ← hstart]
    have hcur : (cur + 8 + PDBPage.load64 it.page.rawBytes cur.toNat).toNat =
        cur.toNat + 8 + r.size := by
      rw [UInt64.toNat_add, hret, hload]
      exact Nat.mod_eq_of_lt (by omega)
    have hgiven := @ih it.next.1 (cur + 8 + PDBPage.load64 it.page.rawBytes cur.toNat) n
      (by rw [hnext, hcur]; exact hrest) (by rw [hnext])
      (by
        rw [hnext]
        dsimp only
        rw [hcount, UInt32.ofNat_add, UInt32.add_assoc,
          UInt32.add_comm (UInt32.ofNat rs.length)]
        rfl)
      (by omega) (by omega)
    rw [RecordIterator.iterate, RecordIterator.hasNext, if_neg hgo]
    dsimp only
    rw [hgiven, hnext]
    rfl

theorem Inv.faithful (h : Inv s) (hlt : s.granted.length < 2 ^ 32) : Faithful s := by
  refine ⟨fun r hr => ?_, h.laid.pairwise, fun n hn => ?_⟩
  · have hin := h.laid.inside r hr
    rcases h.room with hnil | hle
    · rw [hnil] at hr
      cases hr
    · omega
  · refine @iterate_laid _ _ (UInt64.ofNat pageHeaderSize) s.page.curAppendOffset.toNat _
      h.laid rfl s.page.curAppendOffset.toNat_lt ?_ hlt hn
    show s.page.getEmbeddedNumObjects = 0 + UInt32.ofNat s.granted.length
    rw [h.count, UInt32.zero_add]

/-- **The records of a page.**  As long as no request passes the test for room by wrapping around,
and there are fewer than `2 ^ 32` records, those that were granted are in the page and apart, and
are what the iterator gives; and the next request is answered as it should be if and only if it
does not wrap around either. -/
theorem records_of_reach (h : Reach step Cond (prepared p) s) (hlt : s.granted.length < 2 ^ 32) :
    Faithful s ∧ ∀ size, Answered s.page size ↔ NoWrap s.page size := by
  have hinv : Inv s := h.inv (Inv.prepared p) fun _ _ _ ht hc hs => ht.step hc hs
  exact ⟨hinv.faithful hlt, fun _ => answered_iff⟩

/-- two records, one of them written, and a request for which there is no room -/
theorem records_of_reach_two : ∃ s : RecordArea,
    s.granted = [⟨44, 3⟩, ⟨55, 9⟩] ∧ s.page.size = 64 ∧
      Faithful s ∧ ∀ size, Answered s.page size ↔ NoWrap s.page size := by
  have hrun : (run (guarded step Cond) (prepared (.new (fun _ => 0) 1 2 3 4 5 64 0 0 0 0))
      [.add 3, .write 45 255, .add 40, .add 9]).map (fun s => (s.granted, s.page.size)) =
        some ([⟨44, 3⟩, ⟨55, 9⟩], 64) := by decide +kernel
  obtain ⟨s, hs, hfacts⟩ := Option.map_eq_some_iff.mp hrun
  obtain ⟨hgranted, hsize⟩ := Prod.mk.inj hfacts
  exact ⟨s, hgranted, hsize,
    records_of_reach (Reach.of_run _ hs) (by rw [hgranted]; decide)⟩

/-- **A request of `2 ^ 64 - 8` bytes** on a page of `64`: it is granted, and so is the next one,
at the same place -/
theorem records_not_always : ∃ s : RecordArea,
    Reach step (fun _ _ => True) (prepared (.new (fun _ => 0) 1 2 3 4 5 64 0 0 0 0)) s ∧
      s.granted = [⟨44, 2 ^ 64 - 8⟩, ⟨44, 8⟩] ∧ s.page.size = 64 ∧ ¬ Faithful s := by
  have hrun : (run (guarded step fun _ _ => True)
      (prepared (.new (fun _ => 0) 1 2 3 4 5 64 0 0 0 0))
      [.add (-8), .add 8]).map (fun s => (s.granted, s.page.size)) =
        some ([⟨44, 2 ^ 64 - 8⟩, ⟨44, 8⟩], 64) := by decide +kernel
  obtain ⟨s, hs, hfacts⟩ := Option.map_eq_some_iff.mp hrun
  obtain ⟨hgranted, hsize⟩ := Prod.mk.inj hfacts
  refine ⟨s, Reach.of_run _ hs, hgranted, hsize, fun h => ?_⟩
  have hin := (h.inside ⟨44, 2 ^ 64 - 8⟩ (by rw [hgranted]; decide)).2
  rw [hsize] at hin
  exact absurd hin (by decide)

end RecordArea
end PageBytes
end Netsdb
