import Netsdb.BuiltIn.JoinMap
import Netsdb.Lib.Tally

/-!
# A record is written into a `JoinMap` (`JoinTuple.h`)

`JoinSink`, `PartitionedJoinSink` and `JoinSinkShuffler` push a new record and copy into it; the
handlers of `NotEnoughSpace` call `setUnused`.

* `JoinMap.contents`         all pairs of a hash and a record that the iterator sees;
* `JoinMap.writeRecord`      the body of the loops in the three `writeOut`;
* `writeRecord_spec`         the record is there, or, when the push of a hash that is there does not
                             fail, the map is as it was.
-/

set_option linter.unusedSectionVars false

namespace Netsdb
namespace JoinMap
variable {V : Type*} {m m' : JoinMap V} {hv k : Nat}

/-- the pairs that a loop from `begin ()` to `end ()` sees -/
def contents (m : JoinMap V) : Multiset (Nat × V) :=
  ↑(m.iterate.flatMap fun e => e.2.map fun v => (e.1, v))

theorem contents_eq (h : m.myArray.Readable) :
    m.contents = Tally.bag m.myArray.hashes m.recordsOf := by
  refine Multiset.coe_eq_coe.mpr ?_
  refine ((JoinPairArray.iterate_perm h).flatMap_right _).trans (List.Perm.of_eq ?_)
  rw [List.flatMap_map]
  rfl

theorem covers (h : m.myArray.Readable) : Tally.Covers m.myArray.hashes m.recordsOf :=
  ⟨JoinPairArray.hashes_nodup h.distinct, fun _ => JoinPairArray.mem_hashes_iff h.distinct⟩

/-- the values of one hash have changed -/
theorem contents_update {l : List V} (h : m.myArray.Readable) (h' : m'.myArray.Readable)
    (hr : m'.recordsOf = Function.update m.recordsOf hv l) :
    m'.contents + Tally.tag hv (m.recordsOf hv) = m.contents + Tally.tag hv l := by
  classical
  rw [contents_eq h, contents_eq h']
  exact Tally.bag_update (covers h) (covers h') hr

theorem contents_congr (h : m.myArray.Readable) (h' : m'.myArray.Readable)
    (hr : m'.recordsOf = m.recordsOf) : m'.contents = m.contents := by
  have hone : m'.recordsOf = Function.update m.recordsOf 0 (m.recordsOf 0) := by
    rw [hr, Function.update_eq_self]
  exact add_right_cancel (contents_update h h' hone)

theorem contents_empty (h : m.myArray.Readable) (hr : ∀ hv, m.recordsOf hv = []) :
    m.contents = 0 := by
  have hno : m.myArray.hashes = [] := by
    refine List.eq_nil_iff_forall_not_mem.mpr fun hv hmem => ?_
    exact (JoinPairArray.mem_hashes_iff h.distinct).mp hmem (hr hv)
  rw [contents_eq h, hno]
  rfl

variable [Inhabited V] {x : V}

theorem Pushed.contents (h : m.Good) (hp : Pushed m hv x m') :
    m'.contents = m.contents + {(hv, x)} := by
  have := contents_update h.sound.readable hp.good.sound.readable hp.records
  rw [Tally.tag_append, ← add_assoc, add_right_comm] at this
  exact add_right_cancel this

/-! ## `count` -/

theorem vector_length_lt {α : Type*} {w : PDBVector α} (h : w.Ok) : w.items.length + 1 < 2^32 := by
  have hle := h.le
  have hfits := h.fits
  have hmul := Nat.le_mul_of_pos_left w.numSlots w.layout.objSize_pos
  have hge := roundedRequest_ge (w.layout.request (w.layout.objSize * w.numSlots))
  unfold ArrayLayout.Fits at hfits
  unfold ArrayLayout.request chunkHeaderSize at *
  omega

theorem toInt_ne_zero {n : Nat} (h : n < 2^32) (hn : 0 < n) : JoinPairArray.toInt n ≠ 0 := by
  unfold JoinPairArray.toInt
  rw [Nat.mod_eq_of_lt h]
  split <;> omega

/-- `count` tells whether a hash is there -/
theorem recordsOf_of_count (h : m.Good) (hc : m.count k = 0) : m.recordsOf (hashValOf k) = [] := by
  obtain ⟨slot, hslot, ⟨hi, hu, hh⟩ | ⟨-, hr⟩⟩ := JoinPairArray.findSlot_cases h.sound h.room k
  · have hui : ¬ (m.myArray.data slot).hash = JM_UNUSED := hu
    rw [JoinMap.count, JoinPairArray.count] at hc
    simp only [hslot, if_neg hui] at hc
    by_cases hn : (m.myArray.data slot).next = noNext
    · rw [if_neg (not_not.mpr hn)] at hc
      cases hc
    · rw [if_pos hn] at hc
      obtain ⟨w, hw, hok, -⟩ := JoinPairArray.exists_overflow h.sound hi hu hn
      rw [JoinPairArray.overflowItems_of_getElem? hw] at hc
      have hlt := vector_length_lt hok
      exact absurd hc (toInt_ne_zero (by omega) (by omega))
  · exact hr

/-! ## writing -/

theorem setUnused_spec (h : m.Good) (k : Nat) :
    ∃ m', m.setUnused k = some m' ∧ m'.myArray.Readable ∧ SameMap m m' ∧ m'.recordsOf =
      Function.update m.recordsOf (hashValOf k) (m.recordsOf (hashValOf k)).dropLast := by
  obtain ⟨a', ha', hread, hsame, hrec⟩ := JoinPairArray.setUnused_spec h.sound h.room k
  exact ⟨m.setArray a', by rw [setUnused, ha', Option.map_some], hread, ⟨hsame, rfl, rfl⟩, hrec⟩

/-- what fails when a record is written -/
structure RecordFail (V : Type*) where
  /-- the steps of `push` that run out of space, if they are taken -/
  push : List JoinSite
  /-- the copy of the record runs out of space, and leaves this record -/
  pack : Option V

/-- the handlers of `NotEnoughSpace` -/
def undo (m : JoinMap V) (key : Nat) : Outcome (JoinMap V) Unit :=
  match m.setUnused key with
  | some m' => .notEnoughSpace m'
  | none => .fatal

/-- `push` and `pack`; the branches for a new hash and for one that is there differ in the number of
their `try` blocks only -/
def writeRecord (fail : RecordFail V) (m : JoinMap V) (key : Nat) (v : V) :
    Outcome (JoinMap V) Unit :=
  match m.push (fun site => fail.push.contains site) key with
  | .ret m' temp =>
    match fail.pack with
    | none => .ret (m'.setValue temp v) ()
    | some left => (m'.setValue temp left).undo key
  | .notEnoughSpace m' => m'.undo key
  | .fatal => .fatal

/-- the condition on a record -/
structure RecordFine (fail : RecordFail V) (m : JoinMap V) (key : Nat) : Prop where
  canPush : m.CanPush key
  /-- the push of a hash that is there does not run out of space -/
  present : m.count key ≠ 0 → fail.push = []

instance (fail : RecordFail V) (m : JoinMap V) (key : Nat) : Decidable (RecordFine fail m key) :=
  decidable_of_iff (m.CanPush key ∧ (m.count key ≠ 0 → fail.push = []))
    ⟨fun h => ⟨h.1, h.2⟩, fun h => ⟨h.canPush, h.present⟩⟩

/-- **One record.** -/
theorem writeRecord_spec {fail : RecordFail V} (h : m.Good) (hf : RecordFine fail m k) (v : V) :
    (∃ m', m.writeRecord fail k v = .ret m' () ∧ Pushed m (hashValOf k) v m') ∨
      ∃ m', m.writeRecord fail k v = .notEnoughSpace m' ∧ m'.myArray.Readable ∧ SameMap m m' ∧
        m'.recordsOf = m.recordsOf := by
  obtain ⟨m₁, hpush, hk, site, hsite⟩ | ⟨m₁, r, hpush, hp, href⟩ :=
    push_spec (fun site => fail.push.contains site) h hf.canPush
  · -- the hash is new: there is nothing that `setUnused` could take away
    have hnew : m.recordsOf (hashValOf k) = [] := by
      refine recordsOf_of_count h ?_
      by_contra hc
      rw [hf.present hc] at hsite
      cases hsite
    obtain ⟨m₂, hm₂, hread, hsame, hrec⟩ := setUnused_spec hk.good k
    refine Or.inr ⟨m₂, by simp only [writeRecord, hpush, undo, hm₂], hread, hk.same.trans hsame, ?_⟩
    rw [hrec, hk.records, hnew, List.dropLast_nil, ← hnew, Function.update_eq_self]
  · cases hpack : fail.pack with
    | none =>
      exact Or.inl ⟨m₁.setValue r v, by simp only [writeRecord, hpush, hpack], hp.setValue href v⟩
    | some left =>
      have hw := hp.setValue href left
      obtain ⟨m₂, hm₂, hread, hsame, hrec⟩ := setUnused_spec hw.good k
      refine Or.inr ⟨m₂, by simp only [writeRecord, hpush, hpack, undo, hm₂], hread,
        hw.same.trans hsame, ?_⟩
      rw [hrec, hw.records, Function.update_self, List.dropLast_concat, Function.update_idem,
        Function.update_eq_self]

end JoinMap

end Netsdb
