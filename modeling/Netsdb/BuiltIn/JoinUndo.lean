import Netsdb.BuiltIn.JoinMap
import Netsdb.BuiltIn.MapUndo

/-!
# `setUnused` right after `push` of a `JoinMap`

`setUnused` takes a value from the overflows of its hash, or the slot; `usedSlots` stays as it is.

* `JoinPairArray.Fair`    a table in which more slots are counted than are used;
* `JoinMap.push_fair`     what `push` does to such a table;
* `JoinMap.Alike`         two maps that no sequence of operations can tell apart;
* `undo_restores`         when the insertion is undone: for a `Map` never, for a `JoinMap` just if no
                          slot had to be counted for it.
-/

set_option linter.unusedSectionVars false

namespace Netsdb
namespace JoinPairArray
variable {V : Type*} {a a' : JoinPairArray V} {i j u me hv : Nat} {fail : JoinSite → Bool}

/-- the counter of the slots replaced -/
def withUsed (a : JoinPairArray V) (u : Nat) : JoinPairArray V := { a with usedSlots := u }

/-- every used slot is counted, and others may be -/
structure Fair (a : JoinPairArray V) : Prop where
  sound : (a.withUsed a.hashes.length).Sound
  max : a.maxSlots = PairArray.fill a.numSlots
  count_le : a.hashes.length ≤ a.usedSlots
  le_max : a.usedSlots ≤ a.maxSlots

theorem Fair.of_sound (hs : (a.withUsed u).Sound) (hmax : a.maxSlots = PairArray.fill a.numSlots)
    (hu : u ≤ a.usedSlots) (hle : a.usedSlots ≤ a.maxSlots) : Fair a := by
  have hlen : u = a.hashes.length := hs.used
  exact ⟨hlen ▸ hs, hmax, hlen ▸ hu, hle⟩

theorem Fair.room (h : Fair a) : a.hashes.length < a.numSlots := by
  have h1 := h.count_le
  have h2 := h.le_max
  have h3 := PDBMap.fill_lt h.sound.two_le
  rw [h.max] at h2
  exact Nat.lt_of_le_of_lt (h1.trans h2) h3

/-- tables with the same values have the same number of hashes -/
theorem hashes_length_congr (hd : a.Distinct) (hd' : a'.Distinct)
    (hr : a'.recordsOf = a.recordsOf) : a'.hashes.Perm a.hashes := by
  refine (List.perm_ext_iff_of_nodup (hashes_nodup hd') (hashes_nodup hd)).mpr fun x => ?_
  rw [mem_hashes_iff hd', mem_hashes_iff hd, hr]

theorem hasHash_iff (h : Fair a) : a.HasHash (hashValOf me) ↔ a.recordsOf (hashValOf me) ≠ [] := by
  have hd : a.Distinct := h.sound.distinct
  rw [← mem_hashes_iff hd, mem_hashes]
  exact ⟨fun hh => ⟨hashValOf_ne me, hh⟩, fun hh => hh.2⟩

/-! ## the counter is not read -/

theorem newList_withUsed (a : JoinPairArray V) (u slot : Nat) :
    (a.withUsed u).newList fail slot = (a.newList fail slot).lift fun b => b.withUsed u := by
  unfold newList
  show (if (a.data slot).next = noNext then _ else _) = _
  split_ifs
  · rfl
  · rw [show (a.withUsed u).layouts = a.layouts from rfl]
    cases (PDBVector.create a.layouts.inner 1 : Option (PDBVector V)) with
    | none => rfl
    | some temp =>
      rw [show (a.withUsed u).overflows = a.overflows from rfl]
      dsimp only
      cases a.overflows.push_back (fun site => fail (.outer site)) temp with
      | ret w _ => rfl
      | notEnoughSpace w => rfl
      | fatal => rfl
  · rfl

theorem pushOverflow_withUsed [Inhabited V] (a : JoinPairArray V) (u slot : Nat) :
    (a.withUsed u).pushOverflow fail slot =
      (a.pushOverflow fail slot).lift fun b => b.withUsed u := by
  unfold pushOverflow
  rw [newList_withUsed]
  cases a.newList fail slot with
  | notEnoughSpace b => rfl
  | fatal => rfl
  | ret b _ =>
    dsimp only [Outcome.lift]
    rw [show (b.withUsed u).overflows = b.overflows from rfl,
      show (b.withUsed u).data = b.data from rfl]
    cases b.overflows.items[(b.data slot).next]? with
    | none => rfl
    | some v =>
      dsimp only
      cases v.push_back (fun site => fail (.inner site)) default with
      | ret w _ => rfl
      | notEnoughSpace w => rfl
      | fatal => rfl

theorem copySlots_withUsed [Inhabited V] (a : JoinPairArray V) (u : Nat) (is : List Nat) :
    ∀ new : JoinPairArray V, copySlots fail (a.withUsed u) is new =
      (copySlots fail a is new).lift fun b => b.withUsed u := by
  induction is with
  | nil => exact fun new => rfl
  | cons i is ih =>
    intro new
    rw [copySlots, copySlots]
    show (if (a.data i).hash = JM_UNUSED then _ else _) = _
    split_ifs with h0 hf
    · exact ih new
    · rfl
    · rw [show (a.withUsed u).data = a.data from rfl]
      cases new.push (fun _ => false) (a.data i).hash with
      | notEnoughSpace b => rfl
      | fatal => rfl
      | ret new' r =>
        cases r with
        | overflow l k => rfl
        | slot s => exact ih _

theorem doubleArray_withUsed [Inhabited V] (a : JoinPairArray V) (u : Nat) :
    (a.withUsed u).doubleArray fail = (a.doubleArray fail).lift fun b => b.withUsed u := by
  unfold doubleArray
  dsimp only
  show (if fail .array = true then _ else _) = _
  split_ifs
  · rfl
  · rw [show (a.withUsed u).layouts = a.layouts from rfl, show (a.withUsed u).numSlots = a.numSlots from rfl]
    cases (create a.layouts (u32 (a.layouts.table.objSize * u32 (a.numSlots * 2)))
        (u32 (a.numSlots * 2)) : Option (JoinPairArray V)) with
    | none => rfl
    | some new =>
      dsimp only
      rw [copySlots_withUsed]
      cases copySlots fail a (List.range a.numSlots) new with
      | ret b c => rfl
      | notEnoughSpace b => rfl
      | fatal => rfl

/-! ## a slot that no chain goes through -/

/-- every other entry is still found when the slot is given back -/
def Loose (a : JoinPairArray V) (i : Nat) : Prop :=
  ∀ x < a.numSlots, a.Used x → x ≠ i →
    Chained (fun y => a.Used y ∧ y ≠ i) a.numSlots ((a.data x).hash % (a.numSlots - 1)) x

theorem Loose.congr (h : Loose a i) (hn : a'.numSlots = a.numSlots)
    (hh : ∀ x, (a'.data x).hash = (a.data x).hash) : Loose a' i := by
  have hused : ∀ x, a'.Used x ↔ a.Used x := fun x => by rw [Used, Used, hh x]
  intro x hx hu hne
  rw [hn] at hx ⊢
  rw [hh x]
  exact (h x hx ((hused x).mp hu) hne).mono fun y hy => ⟨(hused y).mpr hy.1, hy.2⟩

/-- an entry that was put into an unused slot -/
theorem loose_of_insert {r : JoinMapRecordClass V} (h : (a.withUsed u).Sound) (hun : ¬ a.Used j) :
    Loose (a.insertRecord j r) j := by
  have hother : ∀ x, x ≠ j → (a.insertRecord j r).data x = a.data x := fun x e =>
    setRecord_data_of_ne e
  intro x hx hu hne
  rw [Used, hother x hne] at hu
  rw [hother x hne]
  refine (h.chained x hx hu).mono fun y hy => ?_
  have hyj : y ≠ j := by
    rintro rfl
    exact hun hy
  have hy' : a.Used y := hy
  exact ⟨by rwa [Used, hother y hyj], hyj⟩

/-- if a value is the only one of its hash, its slot can be given back -/
def Fresh (a : JoinPairArray V) (hv : Nat) : Prop :=
  (a.recordsOf hv).length = 1 → ∀ i < a.numSlots, (a.data i).hash = hv → Loose a i

/-! ## `push` -/

/-- a new value for `me`, and a reference to it -/
structure Entered (a : JoinPairArray V) (me : Nat) (x : V) (a' : JoinPairArray V) (r : ValueRef) :
    Prop where
  fair : Fair a'
  records : a'.recordsOf =
    Function.update a.recordsOf (hashValOf me) (a.recordsOf (hashValOf me) ++ [x])
  refers : a'.RefersTo r (hashValOf me)
  fresh : a'.Fresh (hashValOf me)

theorem canPush_withUsed (h : a.CanPush me) (u : Nat) : (a.withUsed u).CanPush me :=
  fun i hi hh => ⟨(h i hi hh).outer, (h i hi hh).inner⟩

/-- how a push ends in a table that has room: `n` slots more are counted then -/
def Pushes (a : JoinPairArray V) (fail : JoinSite → Bool) (me : Nat) (x : V) (n : Nat) :
    Outcome (JoinPairArray V) ValueRef → Prop
  | .ret b r => Entered a me x b r ∧ b.usedSlots = a.usedSlots + n ∧ b.numSlots = a.numSlots
  | .notEnoughSpace b => Fair b ∧ ∃ site, fail site = true
  | .fatal => False

variable [Inhabited V]

/-- the hash is there -/
theorem pushes_known (h : Fair a) (hc : a.CanPush me) (hi : i < a.numSlots)
    (hh : (a.data i).hash = hashValOf me) : Pushes a fail me default 0 (a.push fail me) := by
  obtain ⟨g, hg⟩ : ∃ g, g = a.withUsed a.hashes.length := ⟨_, rfl⟩
  have hs : g.Sound := hg ▸ h.sound
  have hrec : g.recordsOf = a.recordsOf := by rw [hg]; rfl
  have hsame : g.numSlots = a.numSlots ∧ g.maxSlots = a.maxSlots ∧ g.data = a.data ∧
      g.usedSlots = a.hashes.length := by
    rw [hg]
    exact ⟨rfl, rfl, rfl, rfl⟩
  obtain ⟨hgn, hgm, hgd, hgu⟩ := hsame
  have hig : i < g.numSlots := by rwa [hgn]
  have hhg : (g.data i).hash = hashValOf me := by rwa [hgd]
  have hu : g.Used i := by
    rw [Used, hhg]
    exact hashValOf_ne me
  have hcg : g.CanPushAt i := hg ▸ canPush_withUsed hc _ i hi hh
  -- the same call on a table whose counter is right
  have hback : a.push fail me = (g.pushOverflow fail i).lift fun b => b.withUsed a.usedSlots := by
    rw [← pushOverflow_withUsed, hg, push,
      show a.findSlot (hashValOf me) = some i by rw [← hhg, ← findSlot_hit hs hig hu, hg]; rfl]
    refine if_neg ?_
    rw [hh]
    exact hashValOf_ne me
  have hfair : ∀ b : JoinPairArray V, b.Sound → b.usedSlots = g.usedSlots →
      b.maxSlots = g.maxSlots → b.numSlots = g.numSlots → Fair (b.withUsed a.usedSlots) := by
    intro b hb hbu hbm hbn
    refine .of_sound (u := b.usedSlots) hb ?_ ?_ ?_
    · show b.maxSlots = PairArray.fill b.numSlots
      rw [hbm, hbn, hgm, hgn, h.max]
    · rw [hbu, hgu]
      exact h.count_le
    · show a.usedSlots ≤ b.maxSlots
      rw [hbm, hgm]
      exact h.le_max
  rw [hback]
  obtain ⟨b, hb, hk, hsite⟩ | ⟨b, r, hb, hp, hused, href⟩ :=
    @pushOverflow_spec V g i fail _ hs hig hu hcg
  · rw [hb]
    exact ⟨hfair b hk.sound hk.same.usedSlots hk.same.maxSlots hk.same.numSlots, hsite⟩
  · rw [hhg] at hp href
    have hbrec : b.recordsOf = Function.update a.recordsOf (hashValOf me)
        (a.recordsOf (hashValOf me) ++ [default]) := by
      rw [hp.records, hrec]
    rw [hb]
    refine ⟨⟨hfair b hp.sound hused hp.maxSlots hp.numSlots, hbrec, ?_, ?_⟩,
      rfl, hp.numSlots.trans hgn⟩
    · cases r with
      | slot s => exact href
      | overflow l k => exact href
    · -- the hash has two values at least
      intro hone
      have hlen : (b.recordsOf (hashValOf me)).length = 1 := hone
      rw [hbrec, Function.update_self, List.length_append, List.length_singleton] at hlen
      have hnil : a.recordsOf (hashValOf me) = [] := List.length_eq_zero_iff.mp (by omega)
      exact absurd hnil ((hasHash_iff h).mp ⟨i, hi, hh⟩)

/-- the hash is new, and the table is not full -/
theorem pushes_new (h : Fair a) (hfull : a.usedSlots < a.maxSlots)
    (hno : ¬ a.HasHash (hashValOf me)) : Pushes a fail me default 1 (a.push fail me) := by
  have hs := h.sound
  have hmax := PDBMap.fill_lt hs.two_le
  have hmax' : a.maxSlots < a.numSlots := by
    rw [h.max]
    exact hmax
  have hlt32 : a.numSlots < 2^32 := hs.lt
  obtain ⟨j, hj, hlt, hun, hch⟩ := findSlot_miss hs h.room fun i hi e => hno ⟨i, hi, e⟩
  have hpush : a.push fail me = if fail .value then .notEnoughSpace a
      else .ret (a.insertRecord j ⟨hashValOf me, noNext, default⟩) (.slot j) := by
    rw [push, show a.findSlot (hashValOf me) = some j from hj]
    exact if_pos (not_not.mp hun)
  rw [hpush]
  by_cases hv : fail .value = true
  · rw [if_pos hv]
    exact ⟨h, _, hv⟩
  · rw [if_neg hv]
    obtain ⟨hs', hused, hr⟩ := insert_spec (r := ⟨hashValOf me, noNext, default⟩) hs h.room
      (hashValOf_ne me) (fun i hi e => hno ⟨i, hi, e⟩) hlt hun hch (fun e => absurd rfl e)
    obtain ⟨b, hb⟩ : ∃ b, b = a.insertRecord j ⟨hashValOf me, noNext, default⟩ := ⟨_, rfl⟩
    have hself : b.data j = ⟨hashValOf me, noNext, default⟩ := by
      rw [hb]
      exact setRecord_data_self a j _
    have hother : ∀ x, x ≠ j → b.data x = a.data x := fun x e => by
      rw [hb]
      exact setRecord_data_of_ne e
    have hbu : b.usedSlots = a.usedSlots + 1 := by
      rw [hb]
      exact u32_of_lt (by omega)
    have hsame : b.numSlots = a.numSlots ∧ b.maxSlots = a.maxSlots := by
      rw [hb]
      exact ⟨rfl, rfl⟩
    obtain ⟨hbn, hbm⟩ := hsame
    have hghost : (b.withUsed (u32 (a.hashes.length + 1))).Sound := by
      rw [hb]
      exact hs'
    have hcount : u32 (a.hashes.length + 1) = a.hashes.length + 1 := hused
    have hnil : a.recordsOf (hashValOf me) = [] := by
      by_contra hne
      exact hno ((hasHash_iff h).mpr hne)
    rw [← hb]
    refine ⟨⟨.of_sound hghost ?_ ?_ ?_, ?_, ?_, fun _ i hi hh => ?_⟩, hbu, hbn⟩
    · rw [hbm, hbn, h.max]
    · rw [hcount, hbu]
      exact Nat.succ_le_succ h.count_le
    · rw [hbu, hbm]
      exact hfull
    · rw [hb, hnil]
      exact hr
    · refine ⟨by rw [hbn]; exact hlt, ?_, by rw [hself], by rw [hself]⟩
      rw [Used, hself]
      exact hashValOf_ne me
    · have hij : i = j := by
        by_contra e
        rw [hother i e] at hh
        rw [hbn] at hi
        exact hno ⟨i, hi, hh⟩
      rw [hij, hb]
      exact loose_of_insert hs hun

/-- **`push`** into a table that is not full. -/
theorem pushes (h : Fair a) (hfull : a.usedSlots < a.maxSlots) (hc : a.CanPush me) :
    Pushes a fail me default (if a.recordsOf (hashValOf me) = [] then 1 else 0) (a.push fail me) := by
  by_cases hhas : a.HasHash (hashValOf me)
  · rw [if_neg ((hasHash_iff h).mp hhas)]
    obtain ⟨i, hi, hh⟩ := hhas
    exact pushes_known h hc hi hh
  · rw [if_pos]
    · exact pushes_new h hfull hhas
    · by_contra hne
      exact hhas ((hasHash_iff h).mpr hne)

/-! ## writes, doubling, `setUnused` -/

theorem setValue_withUsed (a : JoinPairArray V) (u : Nat) (r : ValueRef) (v : V) :
    (a.withUsed u).setValue r v = (a.setValue r v).withUsed u := by
  cases r with
  | slot s => rfl
  | overflow l k =>
    unfold setValue
    dsimp only
    rw [show (a.withUsed u).overflows = a.overflows from rfl]
    cases a.overflows.items[l]? with
    | none => rfl
    | some w => rfl

theorem setValue_hash (a : JoinPairArray V) (r : ValueRef) (v : V) (x : Nat) :
    ((a.setValue r v).data x).hash = (a.data x).hash := by
  cases r with
  | slot s =>
    by_cases e : x = s
    · subst e
      show ((a.setRecord x _).data x).hash = _
      rw [setRecord_data_self]
    · show ((a.setRecord s _).data x).hash = _
      rw [setRecord_data_of_ne e]
  | overflow l k =>
    unfold setValue
    dsimp only
    cases a.overflows.items[l]? with
    | none => rfl
    | some w => rfl

/-- the new value is written -/
theorem Entered.write {x : V} {r : ValueRef} (h : Entered a me x a' r) (v : V) :
    Fair (a'.setValue r v) ∧ (a'.setValue r v).recordsOf = Function.update a.recordsOf
        (hashValOf me) (a.recordsOf (hashValOf me) ++ [v]) ∧
      (a'.setValue r v).Fresh (hashValOf me) ∧ SameTable a' (a'.setValue r v) := by
  have hr : (a'.withUsed a'.hashes.length).RefersTo r (hashValOf me) := by
    have := h.refers
    cases r with
    | slot s => exact this
    | overflow l k => exact this
  obtain ⟨hs, hsame, hrec⟩ := setValue_spec h.fair.sound hr v
  rw [setValue_withUsed] at hs hsame hrec
  have hn : (a'.setValue r v).numSlots = a'.numSlots := hsame.numSlots
  have hm : (a'.setValue r v).maxSlots = a'.maxSlots := hsame.maxSlots
  have hu : (a'.setValue r v).usedSlots = a'.usedSlots := by
    cases r with
    | slot s => rfl
    | overflow l k =>
      unfold setValue
      dsimp only
      cases a'.overflows.items[l]? with
      | none => rfl
      | some w => rfl
  have hrec' : (a'.setValue r v).recordsOf = Function.update a.recordsOf (hashValOf me)
      (a.recordsOf (hashValOf me) ++ [v]) := by
    refine Eq.trans hrec ?_
    rw [show (a'.withUsed a'.hashes.length).recordsOf = a'.recordsOf from rfl, h.records,
      Function.update_self, List.dropLast_concat, Function.update_idem]
  refine ⟨.of_sound hs ?_ ?_ ?_, hrec', fun hone i hi hh => ?_, ⟨hn, hu, hm, hsame.layouts⟩⟩
  · rw [hm, hn, h.fair.max]
  · rw [hu]
    exact h.fair.count_le
  · rw [hu, hm]
    exact h.fair.le_max
  · rw [hrec', Function.update_self, List.length_append, List.length_singleton] at hone
    have hone' : (a'.recordsOf (hashValOf me)).length = 1 := by
      rw [h.records, Function.update_self, List.length_append, List.length_singleton]
      exact hone
    rw [hn] at hi
    rw [setValue_hash] at hh
    exact (h.fresh hone' i hi hh).congr hn fun y => setValue_hash a' r v y

/-- a table doubled: its slots are counted again -/
theorem double_fair (h : Fair a) (hfits : PairArray.TableFits a.layouts.table (a.numSlots * 2)) :
    (a.doubleArray fail = .notEnoughSpace a ∧ ∃ site, fail site = true) ∨
      ∃ new, a.doubleArray fail = .ret a new ∧ Fair new ∧ new.recordsOf = a.recordsOf ∧
        new.usedSlots = a.hashes.length ∧ new.numSlots = a.numSlots * 2 ∧
        new.usedSlots < new.maxSlots ∧ ∀ me, a.CanPush me → new.CanPush me := by
  have hback : a.doubleArray fail =
      ((a.withUsed a.hashes.length).doubleArray fail).lift fun b => b.withUsed a.usedSlots := by
    rw [← doubleArray_withUsed]
    rfl
  rw [hback]
  obtain ⟨hno, hsite⟩ | ⟨new, hrun, hd⟩ := doubleArray_spec fail h.sound hfits
  · left
    rw [hno]
    exact ⟨rfl, hsite⟩
  · have hlt : new.usedSlots < new.maxSlots := by
      have h1 := PDBMap.fill_lt_double h.sound.two_le
      have h2 := h.count_le.trans h.le_max
      rw [h.max] at h2
      rw [hd.usedSlots, hd.maxSlots]
      exact Nat.lt_of_le_of_lt h2 h1
    refine .inr ⟨new, by rw [hrun]; rfl, .of_sound (u := new.usedSlots) hd.sound ?_ (Nat.le_refl _)
      hlt.le, hd.records, hd.usedSlots, hd.numSlots, hlt,
      fun me hc => JoinMap.canPush_doubled hd (canPush_withUsed hc _)⟩
    rw [hd.maxSlots, hd.numSlots]

theorem setUnused_withUsed (a : JoinPairArray V) (u me : Nat) :
    (a.withUsed u).setUnused me = (a.setUnused me).map fun b => b.withUsed u := by
  unfold setUnused
  rw [show (a.withUsed u).findSlot (hashValOf me) = a.findSlot (hashValOf me) from rfl]
  cases a.findSlot (hashValOf me) with
  | none => rfl
  | some slot =>
    show (if (a.data slot).hash = JM_UNUSED then _ else
      if (a.data slot).next ≠ noNext ∧ 1 ≤ (a.overflowItems (a.data slot).next).length then _
      else _) = _
    dsimp only
    split_ifs
    · rfl
    · rw [show (a.withUsed u).overflows = a.overflows from rfl, show (a.withUsed u).data = a.data from rfl]
      cases a.overflows.items[(a.data slot).next]? with
      | none => rfl
      | some v => rfl
    · rfl

/-- a slot that no chain goes through is given back -/
theorem clear_fair (h : Fair a) (hi : i < a.numSlots) (hu : a.Used i) (hl : Loose a i) :
    Fair (a.setRecord i { a.data i with hash := JM_UNUSED, next := noNext }) := by
  obtain ⟨b, hb⟩ : ∃ b, b = a.setRecord i { a.data i with hash := JM_UNUSED, next := noNext } :=
    ⟨_, rfl⟩
  have hclear := (clearSlot_spec h.sound hi hu rfl).1
  have hread : b.Readable := hb ▸ ⟨hclear.distinct, hclear.next_lt⟩
  have hself : (b.data i).hash = JM_UNUSED := by
    rw [hb, setRecord_data_self]
  have hother : ∀ x, x ≠ i → b.data x = a.data x := fun x e => by
    rw [hb]
    exact setRecord_data_of_ne e
  have hused : ∀ x, b.Used x ↔ a.Used x ∧ x ≠ i := by
    intro x
    by_cases e : x = i
    · subst e
      exact ⟨fun hux => absurd hself hux, fun hux => absurd rfl hux.2⟩
    · rw [Used, hother x e]
      exact ⟨fun hux => ⟨hux, e⟩, And.left⟩
  have hlen : b.hashes.length ≤ a.hashes.length := by
    rw [hashes, hashes, slotList, slotList, List.length_filterMap_eq_countP,
      List.length_filterMap_eq_countP, show b.numSlots = a.numSlots by rw [hb]; rfl]
    refine List.countP_mono_left fun x _ hx => ?_
    have hux : b.Used x := by
      by_contra hux
      rw [if_neg hux] at hx
      cases hx
    rw [if_pos ((hused x).mp hux).1]
    rfl
  rw [← hb]
  have hsame : b.numSlots = a.numSlots ∧ b.maxSlots = a.maxSlots ∧ b.usedSlots = a.usedSlots ∧
      b.overflows = a.overflows ∧ b.layouts = a.layouts := by
    rw [hb]
    exact ⟨rfl, rfl, rfl, rfl, rfl⟩
  obtain ⟨hbn, hbm, hbu, hbo, hbl⟩ := hsame
  refine .of_sound (u := b.hashes.length) ⟨?_, ?_, rfl, ?_, hread.distinct, hread.next_lt, ?_, ?_, ?_⟩
    (by rw [hbm, hbn, h.max]) (by rw [hbu]; exact hlen.trans h.count_le)
    (by rw [hbu, hbm]; exact h.le_max)
  · show 2 ≤ b.numSlots
    rw [hbn]
    exact h.sound.two_le
  · show b.numSlots < 2^32
    rw [hbn]
    exact h.sound.lt
  · intro x hx hux
    obtain ⟨hux', e⟩ := (hused x).mp hux
    have hx' : x < a.numSlots := by
      rw [← hbn]
      exact hx
    show Chained b.Used b.numSlots ((b.data x).hash % (b.numSlots - 1)) x
    rw [hother x e, hbn]
    exact (hl x hx' hux' e).mono fun y hy => (hused y).mpr hy
  · intro x hx y hy hux huy hn he
    obtain ⟨hux', ex⟩ := (hused x).mp hux
    obtain ⟨huy', ey⟩ := (hused y).mp huy
    have hx' : x < a.numSlots := hbn ▸ hx
    have hy' : y < a.numSlots := hbn ▸ hy
    rw [show ((b.withUsed b.hashes.length).data x) = a.data x from hother x ex] at hn he
    rw [show ((b.withUsed b.hashes.length).data y) = a.data y from hother y ey] at he
    exact h.sound.next_inj x hx' y hy' hux' huy' hn he
  · show b.overflows.Ok ∧ b.overflows.layout = b.layouts.outer
    rw [hbo, hbl]
    exact h.sound.outer
  · show ∀ w ∈ b.overflows.items, w.Ok ∧ w.layout = b.layouts.inner
    rw [hbo, hbl]
    exact h.sound.inner

/-- **`setUnused`** of a hash whose slot can be given back, if it has to be. -/
theorem undo_fair (h : Fair a) (hfresh : a.Fresh (hashValOf me))
    (hne : a.recordsOf (hashValOf me) ≠ []) :
    ∃ b, a.setUnused me = some b ∧ Fair b ∧ SameTable a b ∧ b.recordsOf =
      Function.update a.recordsOf (hashValOf me) (a.recordsOf (hashValOf me)).dropLast := by
  obtain ⟨b', hb', -, -, hrec⟩ := setUnused_spec h.sound h.room me
  rw [setUnused_withUsed] at hb'
  obtain ⟨b, hb, rfl⟩ := Option.map_eq_some_iff.mp hb'
  refine ⟨b, hb, ?_⟩
  obtain ⟨i, hi, hh⟩ := (hasHash_iff h).mpr hne
  have hu : a.Used i := by
    rw [Used, hh]
    exact hashValOf_ne me
  have hfind : a.findSlot (hashValOf me) = some i := by
    have hf := findSlot_hit h.sound hi hu
    rw [← hh]
    exact hf
  have hslot : a.recordsOf (hashValOf me) = a.slotRecords i := by
    have hr := recordsOf_slot h.sound.distinct hi hu
    rw [← hh]
    exact hr
  rw [setUnused, hfind] at hb
  dsimp only at hb
  rw [if_neg hu] at hb
  split_ifs at hb with hlist
  · obtain ⟨hn, -⟩ := hlist
    obtain ⟨w, hw, hok, hl⟩ := exists_overflow h.sound hi hu hn
    rw [show a.overflows.items[(a.data i).next]? = some w from hw] at hb
    cases hb
    obtain ⟨hs, hsame, -⟩ := setOverflow_spec h.sound hi hu hn hok.pop_back hl
    exact ⟨.of_sound hs h.max h.count_le h.le_max, ⟨rfl, rfl, rfl, rfl⟩, hrec⟩
  · cases hb
    refine ⟨clear_fair h hi hu (hfresh ?_ i hi hh), ⟨rfl, rfl, rfl, rfl⟩, hrec⟩
    rw [hslot, slotRecords]
    split_ifs with hn
    · rfl
    · have hempty : ¬ 1 ≤ (a.overflowItems (a.data i).next).length := fun hl => hlist ⟨hn, hl⟩
      rw [List.length_cons]
      omega

/-! ## reading -/

theorem Fair.lookup (h : Fair a) (me : Nat) : a.lookup me = some (a.recordsOf (hashValOf me)) := by
  have hl := lookup_eq h.sound h.room me
  exact hl

/-- `count` gives the number of the values, as an `int` -/
theorem Fair.count (h : Fair a) (me : Nat) :
    a.count me = toInt (a.recordsOf (hashValOf me)).length := by
  obtain ⟨slot, hslot, ⟨hi, hu, hh⟩ | ⟨hun, hr⟩⟩ := findSlot_cases h.sound h.room me
  · have hui : ¬ (a.data slot).hash = JM_UNUSED := hu
    have hrec : a.recordsOf (hashValOf me) = a.slotRecords slot := by
      have hr := recordsOf_slot h.sound.distinct hi hu
      rw [← hh]
      exact hr
    rw [hrec, JoinPairArray.count, show a.findSlot (hashValOf me) = some slot from hslot, slotRecords]
    dsimp only
    rw [if_neg hui]
    by_cases hn : (a.data slot).next = noNext
    · rw [if_neg (not_not.mpr hn), if_pos hn]
      rfl
    · rw [if_neg hn, if_pos hn, List.length_cons, Nat.add_comm]
  · have hui : (a.data slot).hash = JM_UNUSED := not_not.mp hun
    rw [show a.recordsOf (hashValOf me) = [] from hr, JoinPairArray.count,
      show a.findSlot (hashValOf me) = some slot from hslot]
    dsimp only
    rw [if_pos hui]
    rfl

theorem iterate_sorted (a : JoinPairArray V) : a.iterate.Pairwise fun x y => x.1 ≤ y.1 := by
  have htotal : Std.Total ByHash := ⟨fun x y => Nat.le_total x.2 y.2⟩
  have htrans : IsTrans (Nat × Nat) ByHash := ⟨fun _ _ _ => Nat.le_trans⟩
  have hmem : ∀ x ∈ a.iterationOrder, (a.data x.1).hash = x.2 := by
    intro x hx
    obtain ⟨i, -, hi⟩ := List.mem_filterMap.mp (((List.perm_insertionSort ByHash _).mem_iff).mp hx)
    split_ifs at hi
    cases hi
    rfl
  refine List.pairwise_map.mpr ?_
  refine (List.pairwise_insertionSort ByHash _).imp_of_mem fun {x y} hx hy hxy => ?_
  rw [hmem x hx, hmem y hy]
  exact hxy

/-- tables with the same values give the same iteration -/
theorem iterate_congr (h : Fair a) (h' : Fair a') (hr : a'.recordsOf = a.recordsOf) :
    a'.iterate = a.iterate := by
  have hd : a.Distinct := h.sound.distinct
  have hd' : a'.Distinct := h'.sound.distinct
  have hread : a.Readable := ⟨hd, h.sound.next_lt⟩
  have hread' : a'.Readable := ⟨hd', h'.sound.next_lt⟩
  have hp : a'.iterate.Perm a.iterate := by
    refine (iterate_perm hread').trans (List.Perm.trans ?_ (iterate_perm hread).symm)
    rw [hr]
    exact (hashes_length_congr hd hd' hr).map _
  refine hp.eq_of_pairwise ?_ (iterate_sorted a') (iterate_sorted a)
  intro x y hx hy hxy hyx
  -- a hash comes once, with its values
  obtain ⟨k, -, rfl⟩ := List.mem_map.mp ((iterate_perm hread').mem_iff.mp hx)
  obtain ⟨l, -, rfl⟩ := List.mem_map.mp ((iterate_perm hread).mem_iff.mp hy)
  have hkl : k = l := Nat.le_antisymm hxy hyx
  rw [hkl, hr]

end JoinPairArray

/-- an operation on a `JoinMap`; what runs out of space is told by `fail` -/
inductive JoinUse (V : Type*)
  /-- `push`, and the new value written -/
  | push (fail : JoinSite → Bool) (me : Nat) (v : V)
  /-- `push`, and `setUnused` of the hash -/
  | undo (fail : JoinSite → Bool) (me : Nat)
  | lookup (me : Nat)
  | count (me : Nat)
  | size
  | iterate

/-- what an operation returns -/
inductive JoinAnswer (V : Type*)
  | done
  | values (l : Option (List V))
  | number (n : Int)
  | lists (l : List (Nat × List V))

namespace JoinMap
variable {V : Type*} [Inhabited V] {m m' m₂ m₂' : JoinMap V} {me : Nat} {fail : JoinSite → Bool}
  {r : ValueRef}

open JoinPairArray (Fair Entered Fresh)

/-- one operation; `none`: the call does not return, or an array has to grow that would not be given
the storage that it asks for -/
def use (m : JoinMap V) : JoinUse V → Option (JoinMap V × JoinAnswer V)
  | .push fail me v =>
    if m.CanPush me then
      match m.push fail me with
      | .ret m' r => some (m'.setValue r v, .done)
      | _ => none
    else none
  | .undo fail me =>
    if m.CanPush me then
      match m.push fail me with
      | .ret m' _ => (m'.setUnused me).map fun n => (n, .done)
      | _ => none
    else none
  | .lookup me => some (m, .values (m.lookup me))
  | .count me => some (m, .number (m.count me))
  | .size => some (m, .number m.size)
  | .iterate => some (m, .lists m.iterate)

/-- what a sequence of operations returns -/
def answers : JoinMap V → List (JoinUse V) → Option (List (JoinAnswer V))
  | _, [] => some []
  | m, u :: us => (m.use u).bind fun x => (answers x.1 us).map (x.2 :: ·)

/-- `m₂` is as `m` was -/
structure Restores (m m₂ : JoinMap V) : Prop where
  records : m₂.recordsOf = m.recordsOf
  iterate : m₂.iterate = m.iterate
  size : m₂.size = m.size
  /-- as long as every call returns -/
  later : ∀ us l l₂, m.answers us = some l → m₂.answers us = some l₂ → l₂ = l

/-- the maps that calls on a map can leave -/
inductive Called : JoinMap V → Prop
  | create {l : JoinLayouts} {initSize p : Nat} {k : Int} {n : JoinMap V} : 2 ≤ initSize →
      PairArray.TableFits l.table initSize → l.outer.Fits 1 → create l initSize p k = some n →
      Called n
  | push {n n' : JoinMap V} {f : JoinSite → Bool} {x : Nat} {r : ValueRef} : Called n →
      n.CanPush x → n.push f x = .ret n' r → Called n'
  | write {n n' : JoinMap V} {f : JoinSite → Bool} {x : Nat} {r : ValueRef} (v : V) : Called n →
      n.CanPush x → n.push f x = .ret n' r → Called (n'.setValue r v)
  | throws {n n' : JoinMap V} {f : JoinSite → Bool} {x : Nat} : Called n → n.CanPush x →
      n.push f x = .notEnoughSpace n' → Called n'
  | undo {n n' n₂ : JoinMap V} {f : JoinSite → Bool} {x : Nat} {r : ValueRef} : Called n →
      n.CanPush x → n.push f x = .ret n' r → n'.setUnused x = some n₂ → Called n₂
  /-- the value was written, perhaps in part -/
  | undoWrite {n n' n₂ : JoinMap V} {f : JoinSite → Bool} {x : Nat} {r : ValueRef} (v : V) :
      Called n → n.CanPush x → n.push f x = .ret n' r →
      (n'.setValue r v).setUnused x = some n₂ → Called n₂

/-- the slots that are counted and the slots of the table that a new value is put in -/
def tableFor (m : JoinMap V) : Nat × Nat :=
  if m.myArray.isOverFull = true then (m.myArray.hashes.length, m.myArray.numSlots * 2)
  else (m.myArray.usedSlots, m.myArray.numSlots)

/-- how `push` ends -/
def Ends (m : JoinMap V) (fail : JoinSite → Bool) (me : Nat) : Outcome (JoinMap V) ValueRef → Prop
  | .ret m' r => Entered m.myArray me default m'.myArray r ∧
    m'.size = m.tableFor.1 + (if m.recordsOf (hashValOf me) = [] then 1 else 0) ∧
    m'.myArray.numSlots = m.tableFor.2
  | .notEnoughSpace m' => Fair m'.myArray ∧ ∃ site, fail site = true
  | .fatal => False

theorem ends_of_pushes {a : JoinPairArray V} (hr : a.recordsOf = m.recordsOf)
    (hu : a.usedSlots = m.tableFor.1) (hn : a.numSlots = m.tableFor.2)
    (h : a.Pushes fail me default (if a.recordsOf (hashValOf me) = [] then 1 else 0)
      (a.push fail me)) : Ends m fail me ((a.push fail me).lift m.setArray) := by
  cases hp : a.push fail me with
  | fatal =>
    rw [hp] at h
    exact h
  | notEnoughSpace b =>
    rw [hp] at h
    exact h
  | ret b r =>
    rw [hp, hr] at h
    obtain ⟨he, hbu, hbn⟩ := h
    refine ⟨⟨he.fair, ?_, he.refers, he.fresh⟩, hbu.trans (by rw [hu]), hbn.trans hn⟩
    rw [show m.myArray.recordsOf = a.recordsOf from hr.symm]
    exact he.records

/-- **`push`.** -/
theorem push_fair (fail : JoinSite → Bool) (h : Fair m.myArray) (hc : m.CanPush me) :
    Ends m fail me (m.push fail me) := by
  by_cases hfull : m.myArray.isOverFull = true
  · have htable : m.tableFor = (m.myArray.hashes.length, m.myArray.numSlots * 2) := if_pos hfull
    rw [push, if_pos hfull]
    obtain ⟨hno, hsite⟩ | ⟨new, hrun, hf, hr, hu, hn, hlt, hcan⟩ :=
      JoinPairArray.double_fair h (hc.table hfull)
    · rw [hno]
      exact ⟨h, hsite⟩
    · rw [hrun]
      exact ends_of_pushes hr (by rw [hu, htable]) (by rw [hn, htable])
        (JoinPairArray.pushes hf hlt (hcan me hc.lists))
  · have htable : m.tableFor = (m.myArray.usedSlots, m.myArray.numSlots) := if_neg hfull
    rw [push, if_neg hfull]
    have hlt : m.myArray.usedSlots < m.myArray.maxSlots := by
      simpa [JoinPairArray.isOverFull] using hfull
    exact ends_of_pushes rfl (by rw [htable]) (by rw [htable]) (JoinPairArray.pushes h hlt hc.lists)

theorem push_ret (h : Fair m.myArray) (hc : m.CanPush me) (hret : m.push fail me = .ret m' r) :
    Entered m.myArray me default m'.myArray r ∧
      m'.size = m.tableFor.1 + (if m.recordsOf (hashValOf me) = [] then 1 else 0) ∧
      m'.myArray.numSlots = m.tableFor.2 := by
  have hends := push_fair fail h hc
  rw [hret] at hends
  exact hends

/-- `setUnused` of the hash that was pushed -/
theorem undo_entered {a b : JoinPairArray V} {x : V} (hf : Fair b) (hfresh : b.Fresh (hashValOf me))
    (hrec : b.recordsOf = Function.update a.recordsOf (hashValOf me)
      (a.recordsOf (hashValOf me) ++ [x])) :
    ∃ c, b.setUnused me = some c ∧ Fair c ∧ JoinPairArray.SameTable b c ∧
      c.recordsOf = a.recordsOf := by
  have hlast : b.recordsOf (hashValOf me) = a.recordsOf (hashValOf me) ++ [x] := by
    rw [hrec, Function.update_self]
  obtain ⟨c, hc, hfc, hsame, hr⟩ := JoinPairArray.undo_fair hf hfresh (by rw [hlast]; simp)
  refine ⟨c, hc, hfc, hsame, ?_⟩
  rw [hr, hlast, List.dropLast_concat, hrec, Function.update_idem, Function.update_eq_self]

theorem Called.fair (h : Called m) : Fair m.myArray := by
  induction h with
  | create h2 hf ho hn =>
    obtain ⟨n', hn', hg, -⟩ := create_spec (V := V) h2 hf ho
    rw [hn] at hn'
    cases hn'
    exact .of_sound hg.sound hg.max (Nat.le_refl _) hg.le_max
  | push _ hc hret ih => exact (push_ret ih hc hret).1.fair
  | write v _ hc hret ih => exact ((push_ret ih hc hret).1.write v).1
  | @throws n n' f x _ hc hthrow ih =>
    have hends := push_fair f ih hc
    rw [hthrow] at hends
    exact hends.1
  | undo _ hc hret hundo ih =>
    obtain ⟨hent, -⟩ := push_ret ih hc hret
    obtain ⟨c, hc', hfc, -⟩ := undo_entered hent.fair hent.fresh hent.records
    rw [setUnused, hc'] at hundo
    cases hundo
    exact hfc
  | undoWrite v _ hc hret hundo ih =>
    obtain ⟨hf, hrec, hfresh, -⟩ := (push_ret ih hc hret).1.write v
    obtain ⟨c, hc', hfc, -⟩ := undo_entered hf hfresh hrec
    rw [setUnused, show (_ : JoinMap V).myArray.setUnused _ = _ from hc'] at hundo
    cases hundo
    exact hfc

/-! ## maps that cannot be told apart -/

/-- the next value is put into tables of one size, with one number of counted slots -/
structure Alike (m m₂ : JoinMap V) : Prop where
  fair : Fair m.myArray
  fair₂ : Fair m₂.myArray
  records : m₂.recordsOf = m.recordsOf
  size : m₂.size = m.size
  table : m₂.tableFor = m.tableFor

theorem Alike.of_sizes (h : Fair m.myArray) (h₂ : Fair m₂.myArray)
    (hr : m₂.recordsOf = m.recordsOf) (hs : m₂.size = m.size)
    (hn : m₂.myArray.numSlots = m.myArray.numSlots) : Alike m m₂ := by
  refine ⟨h, h₂, hr, hs, ?_⟩
  have hlen : m₂.myArray.hashes.length = m.myArray.hashes.length :=
    (JoinPairArray.hashes_length_congr h.sound.distinct h₂.sound.distinct hr).length_eq
  have hfull : m₂.myArray.isOverFull = m.myArray.isOverFull := by
    rw [JoinPairArray.isOverFull, JoinPairArray.isOverFull, h₂.max, h.max, hn,
      show m₂.myArray.usedSlots = m.myArray.usedSlots from hs]
  rw [tableFor, tableFor, hfull, hlen, hn, show m₂.myArray.usedSlots = m.myArray.usedSlots from hs]

/-- both maps get the value -/
theorem Alike.push {f₂ : JoinSite → Bool} {r₂ : ValueRef} (h : Alike m m₂) (hc : m.CanPush me)
    (hc₂ : m₂.CanPush me) (hret : m.push fail me = .ret m' r) (hret₂ : m₂.push f₂ me = .ret m₂' r₂) :
    m₂'.size = m'.size ∧ m₂'.myArray.numSlots = m'.myArray.numSlots := by
  obtain ⟨-, hs, hn⟩ := push_ret h.fair hc hret
  obtain ⟨-, hs₂, hn₂⟩ := push_ret h.fair₂ hc₂ hret₂
  rw [hs, hs₂, hn, hn₂, h.table, h.records]
  exact ⟨rfl, rfl⟩

theorem push_of_use {v : V} {x : JoinMap V × JoinAnswer V} (h : m.use (.push fail me v) = some x) :
    m.CanPush me ∧ ∃ m' r, m.push fail me = .ret m' r ∧ x = (m'.setValue r v, .done) := by
  simp only [use] at h
  split_ifs at h with hc
  refine ⟨hc, ?_⟩
  cases hp : m.push fail me with
  | fatal =>
    rw [hp] at h
    cases h
  | notEnoughSpace b =>
    rw [hp] at h
    cases h
  | ret m' r =>
    rw [hp] at h
    exact ⟨m', r, rfl, (Option.some.inj h).symm⟩

theorem undo_of_use {x : JoinMap V × JoinAnswer V} (h : m.use (.undo fail me) = some x) :
    m.CanPush me ∧ ∃ m' r, m.push fail me = .ret m' r ∧ m'.setUnused me = some x.1 ∧
      x.2 = .done := by
  simp only [use] at h
  split_ifs at h with hc
  refine ⟨hc, ?_⟩
  cases hp : m.push fail me with
  | fatal =>
    rw [hp] at h
    cases h
  | notEnoughSpace b =>
    rw [hp] at h
    cases h
  | ret m' r =>
    rw [hp] at h
    obtain ⟨n, hn, rfl⟩ := Option.map_eq_some_iff.mp h
    exact ⟨m', r, rfl, hn, rfl⟩

/-- one operation on both maps -/
theorem Alike.use (h : Alike m m₂) {u : JoinUse V} {x x₂ : JoinMap V × JoinAnswer V}
    (hx : m.use u = some x) (hx₂ : m₂.use u = some x₂) : Alike x.1 x₂.1 ∧ x₂.2 = x.2 := by
  cases u with
  | push fail me v =>
    obtain ⟨hc, m', r, hret, rfl⟩ := push_of_use hx
    obtain ⟨hc₂, m₂', r₂, hret₂, rfl⟩ := push_of_use hx₂
    obtain ⟨hs, hn⟩ := h.push hc hc₂ hret hret₂
    obtain ⟨hf, hr, -, hsame⟩ := (push_ret h.fair hc hret).1.write v
    obtain ⟨hf₂, hr₂, -, hsame₂⟩ := (push_ret h.fair₂ hc₂ hret₂).1.write v
    refine ⟨.of_sizes hf hf₂ ?_ ?_ ?_, rfl⟩
    · refine hr₂.trans (Eq.trans ?_ hr.symm)
      rw [show m₂.myArray.recordsOf = m.myArray.recordsOf from h.records]
    · exact hsame₂.usedSlots.trans (hs.trans hsame.usedSlots.symm)
    · exact hsame₂.numSlots.trans (hn.trans hsame.numSlots.symm)
  | undo fail me =>
    obtain ⟨hc, m', r, hret, hu, ha⟩ := undo_of_use hx
    obtain ⟨hc₂, m₂', r₂, hret₂, hu₂, ha₂⟩ := undo_of_use hx₂
    obtain ⟨hs, hn⟩ := h.push hc hc₂ hret hret₂
    obtain ⟨hent, -⟩ := push_ret h.fair hc hret
    obtain ⟨hent₂, -⟩ := push_ret h.fair₂ hc₂ hret₂
    obtain ⟨c, hc', hf, hsame, hr⟩ := undo_entered hent.fair hent.fresh hent.records
    obtain ⟨c₂, hc₂', hf₂, hsame₂, hr₂⟩ := undo_entered hent₂.fair hent₂.fresh hent₂.records
    rw [setUnused, hc'] at hu
    rw [setUnused, hc₂'] at hu₂
    rw [ha, ha₂, ← Option.some.inj hu, ← Option.some.inj hu₂]
    refine ⟨.of_sizes hf hf₂ ?_ ?_ ?_, rfl⟩
    · exact hr₂.trans (h.records.trans hr.symm)
    · exact hsame₂.usedSlots.trans (hs.trans hsame.usedSlots.symm)
    · exact hsame₂.numSlots.trans (hn.trans hsame.numSlots.symm)
  | lookup me =>
    cases hx
    cases hx₂
    refine ⟨h, congrArg JoinAnswer.values ?_⟩
    show m₂.myArray.lookup me = m.myArray.lookup me
    rw [h.fair.lookup, h.fair₂.lookup, show m₂.myArray.recordsOf = m.myArray.recordsOf from h.records]
  | count me =>
    cases hx
    cases hx₂
    refine ⟨h, congrArg JoinAnswer.number ?_⟩
    show m₂.myArray.count me = m.myArray.count me
    rw [h.fair.count, h.fair₂.count, show m₂.myArray.recordsOf = m.myArray.recordsOf from h.records]
  | size =>
    cases hx
    cases hx₂
    exact ⟨h, congrArg (fun n : Nat => JoinAnswer.number (n : Int)) h.size⟩
  | iterate =>
    cases hx
    cases hx₂
    exact ⟨h, congrArg JoinAnswer.lists (JoinPairArray.iterate_congr h.fair h.fair₂ h.records)⟩

/-- a sequence of operations on both maps -/
theorem Alike.answers (us : List (JoinUse V)) : ∀ {m m₂ : JoinMap V} {l l₂ : List (JoinAnswer V)},
    Alike m m₂ → m.answers us = some l → m₂.answers us = some l₂ → l₂ = l := by
  induction us with
  | nil =>
    intro m m₂ l l₂ _ hl hl₂
    cases hl
    cases hl₂
    rfl
  | cons u us ih =>
    intro m m₂ l l₂ h hl hl₂
    obtain ⟨x, hx, hrest⟩ := Option.bind_eq_some_iff.mp hl
    obtain ⟨x₂, hx₂, hrest₂⟩ := Option.bind_eq_some_iff.mp hl₂
    obtain ⟨t, ht, rfl⟩ := Option.map_eq_some_iff.mp hrest
    obtain ⟨t₂, ht₂, rfl⟩ := Option.map_eq_some_iff.mp hrest₂
    obtain ⟨halike, hsame⟩ := h.use hx hx₂
    rw [hsame, ih halike ht ht₂]

theorem Alike.restores (h : Alike m m₂) : Restores m m₂ :=
  ⟨h.records, JoinPairArray.iterate_congr h.fair h.fair₂ h.records, h.size,
    fun us _ _ hl hl₂ => Alike.answers us h hl hl₂⟩

/-! ## when the insertion is undone -/

/-- the condition: the hash is there, and the slots are not counted again -/
def Undoes (m : JoinMap V) (me : Nat) : Prop :=
  m.recordsOf (hashValOf me) ≠ [] ∧
    (m.myArray.isOverFull = true → m.size = m.myArray.hashes.length)

/-- a push of a new hash that runs to its end, and the size after it -/
theorem answers_push (h : Fair m.myArray) (hc : m.CanPush me) (hno : m.recordsOf (hashValOf me) = []) :
    m.answers [.push (fun _ => false) me default, .size] =
      some [.done, .number ((m.tableFor.1 + 1 : Nat) : Int)] := by
  have hends := push_fair (fun _ => false) h hc
  cases hp : m.push (fun _ => false) me with
  | fatal =>
    rw [hp] at hends
    exact hends.elim
  | notEnoughSpace b =>
    rw [hp] at hends
    obtain ⟨-, site, hsite⟩ := hends
    cases hsite
  | ret m' r =>
    rw [hp] at hends
    obtain ⟨hent, hs, -⟩ := hends
    rw [if_pos hno] at hs
    have hsame : (m'.setValue r default).size = m'.size := (hent.write default).2.2.2.usedSlots
    simp only [answers, use, if_pos hc, hp, Option.bind_some, Option.map_some, hsame, hs]

theorem tableFor_full (hfull : m.myArray.isOverFull = true) :
    m.tableFor = (m.myArray.hashes.length, m.myArray.numSlots * 2) := if_pos hfull

theorem tableFor_room (hfull : ¬ m.myArray.isOverFull = true) :
    m.tableFor = (m.myArray.usedSlots, m.myArray.numSlots) := if_neg hfull

/-- a table that was doubled has room -/
theorem not_full_of_doubled (h : Fair m.myArray) (h₂ : Fair m₂.myArray)
    (hn : m₂.myArray.numSlots = m.myArray.numSlots * 2)
    (hu : m₂.myArray.usedSlots ≤ m.myArray.maxSlots) : ¬ m₂.myArray.isOverFull = true := by
  intro hfull
  have hle : m₂.myArray.maxSlots ≤ m₂.myArray.usedSlots := of_decide_eq_true hfull
  rw [h₂.max, hn] at hle
  rw [h.max] at hu
  exact absurd (hle.trans hu) (Nat.not_le_of_lt (PDBMap.fill_lt_double h.sound.two_le))

/-- what is known of the map after `push` and `setUnused` -/
structure Undone (m : JoinMap V) (me : Nat) (m₂ : JoinMap V) : Prop where
  fair : Fair m₂.myArray
  records : m₂.recordsOf = m.recordsOf
  size : m₂.size = m.tableFor.1 + (if m.recordsOf (hashValOf me) = [] then 1 else 0)
  numSlots : m₂.myArray.numSlots = m.tableFor.2

theorem undone (h : Fair m.myArray) (hc : m.CanPush me) (hret : m.push fail me = .ret m' r) :
    ∃ m₂, m'.setUnused me = some m₂ ∧ Undone m me m₂ := by
  obtain ⟨hent, hsize, hslots⟩ := push_ret h hc hret
  obtain ⟨c, hc', hfc, hsame, hrec⟩ := undo_entered hent.fair hent.fresh hent.records
  exact ⟨m'.setArray c, by rw [setUnused, hc', Option.map_some],
    ⟨hfc, hrec, hsame.usedSlots.trans hsize, hsame.numSlots.trans hslots⟩⟩

/-- the slot of a new hash stays counted -/
theorem Undone.not_restores (hu : Undone m me m₂) (h : Fair m.myArray) (hc : m.CanPush me)
    (hno : m.recordsOf (hashValOf me) = []) : ¬ Restores m m₂ := by
  intro hres
  have hsize := hu.size
  have hsz : m.size = m.myArray.usedSlots := rfl
  have hused : m₂.myArray.usedSlots = m.myArray.usedSlots := hres.size
  rw [if_pos hno, hres.size] at hsize
  by_cases hfull : m.myArray.isOverFull = true
  · -- the sizes agree, but the next push of the hash counts its slot again
    have hnum := hu.numSlots
    rw [tableFor_full hfull] at hsize hnum
    have hnot := not_full_of_doubled h hu.fair hnum (hused.le.trans h.le_max)
    have hno₂ : m₂.recordsOf (hashValOf me) = [] := by
      rw [hu.records]
      exact hno
    have hc₂ : m₂.CanPush me := by
      refine ⟨fun hfull₂ => absurd hfull₂ hnot, fun i hi hh => ?_⟩
      exact absurd hno₂ ((JoinPairArray.hasHash_iff hu.fair).mp ⟨i, hi, hh⟩)
    have hans := hres.later _ _ _ (answers_push h hc hno) (answers_push hu.fair hc₂ hno₂)
    injection hans with _ hans
    injection hans with hans _
    injection hans with hans
    rw [tableFor_full hfull, tableFor_room hnot, hused] at hans
    omega
  · rw [tableFor_room hfull, hsz] at hsize
    omega

/-- no new slot, and the number of the slots that are counted is what it was -/
theorem Undone.alike (hu : Undone m me m₂) (h : Fair m.myArray) (hcond : m.Undoes me) :
    Alike m m₂ := by
  obtain ⟨hne, hcond⟩ := hcond
  have hsize := hu.size
  have hnum := hu.numSlots
  rw [if_neg hne, Nat.add_zero] at hsize
  by_cases hfull : m.myArray.isOverFull = true
  · rw [tableFor_full hfull] at hsize hnum
    refine ⟨h, hu.fair, hu.records, hsize.trans (hcond hfull).symm, ?_⟩
    have hused : m₂.myArray.usedSlots = m.myArray.hashes.length := hsize
    have hnot := not_full_of_doubled h hu.fair hnum (hused.le.trans (h.count_le.trans h.le_max))
    rw [tableFor_full hfull, tableFor_room hnot, hused, hnum]
  · rw [tableFor_room hfull] at hsize hnum
    exact .of_sizes h hu.fair hu.records hsize hnum

/-- `setUnused` after a push -/
theorem restores_iff (h : Called m) (hc : m.CanPush me) (hret : m.push fail me = .ret m' r) :
    ∃ m₂, m'.setUnused me = some m₂ ∧ (Restores m m₂ ↔ m.Undoes me) := by
  have hf := h.fair
  obtain ⟨m₂, hundo, hu⟩ := undone hf hc hret
  refine ⟨m₂, hundo, fun hres => ?_, fun hcond => (hu.alike hf hcond).restores⟩
  by_cases hno : m.recordsOf (hashValOf me) = []
  · exact absurd hres (hu.not_restores hf hc hno)
  · refine ⟨hno, fun hfull => ?_⟩
    have hsize := hu.size
    rw [if_neg hno, tableFor_full hfull] at hsize
    exact hres.size.symm.trans hsize

instance (m : JoinMap V) (me : Nat) : Decidable (m.Undoes me) :=
  inferInstanceAs (Decidable (¬ (_ = []) ∧ (_ → _)))

end JoinMap

section
variable {K V W : Type*} [BEq K] [Hashable K] [EquivBEq K] [LawfulHashable K] [Inhabited K]
  [Inhabited V] [Inhabited W]

end

/-- one value of the hash `5` -/
def oneHash : Option (JoinMap Nat) :=
  (JoinMap.create smallLayouts 4 0 1).bind fun m =>
    match m.push (fun _ => false) 5 with
    | .ret m' r => some (m'.setValue r 50)
    | _ => none

theorem oneHash_called {m : JoinMap Nat} (h : oneHash = some m) : m.Called := by
  obtain ⟨m₀, hm₀, hm⟩ := Option.bind_eq_some_iff.mp h
  have h₀ : m₀.Called := .create (by decide) (by decide) (by decide) hm₀
  have hcan : m₀.CanPush 5 := by
    have hrun : (JoinMap.create (V := Nat) smallLayouts 4 0 1).all (fun m => decide (m.CanPush 5)) =
        true := by decide +kernel
    rw [hm₀] at hrun
    exact of_decide_eq_true hrun
  cases hp : m₀.push (fun _ => false) 5 with
  | fatal =>
    rw [hp] at hm
    cases hm
  | notEnoughSpace b =>
    rw [hp] at hm
    cases hm
  | ret m' r =>
    rw [hp] at hm
    cases hm
    exact .write 50 h₀ hcan hp

end Netsdb
