import Netsdb.BuiltIn.JoinPairArray

/-!
# What `push`, writes, `setUnused` and `doubleArray` do to the values of a hash

* `push_spec`          a new value at the end of the values of its hash, or nothing at all;
* `setValue_spec`      the value that was pushed last is written;
* `doubleArray_spec`   the same values in a larger table.
-/

set_option linter.unusedSectionVars false

namespace Netsdb
namespace JoinPairArray
variable {V : Type*} {a a' : JoinPairArray V} {i j slot list hv : Nat} {fail : JoinSite → Bool}

/-- the same table, with other contents -/
structure SameTable (a a' : JoinPairArray V) : Prop where
  numSlots : a'.numSlots = a.numSlots
  usedSlots : a'.usedSlots = a.usedSlots
  maxSlots : a'.maxSlots = a.maxSlots
  layouts : a'.layouts = a.layouts

theorem SameTable.refl (a : JoinPairArray V) : SameTable a a := ⟨rfl, rfl, rfl, rfl⟩

theorem SameTable.trans {a'' : JoinPairArray V} (h : SameTable a a') (h' : SameTable a' a'') :
    SameTable a a'' :=
  ⟨h'.numSlots.trans h.numSlots, h'.usedSlots.trans h.usedSlots, h'.maxSlots.trans h.maxSlots,
    h'.layouts.trans h.layouts⟩

/-! ## lists of overflows -/

theorem overflowItems_of_getElem? {w : PDBVector V} (h : a.overflows.items[list]? = some w) :
    a.overflowItems list = w.items := by
  rw [overflowItems, h]
  rfl

theorem exists_overflow (h : a.Sound) (hi : i < a.numSlots) (hu : a.Used i)
    (hn : (a.data i).next ≠ noNext) :
    ∃ w, a.overflows.items[(a.data i).next]? = some w ∧ w.Ok ∧ w.layout = a.layouts.inner := by
  have hlt := h.next_lt i hi hu hn
  exact ⟨_, List.getElem?_eq_getElem hlt, h.inner _ (List.getElem_mem hlt)⟩

theorem setOverflow_items (hl : list < a.overflows.items.length) (w : PDBVector V) :
    (a.setOverflow list w).overflowItems list = w.items := by
  have hget : (a.overflows.items.set list w)[list]? = some w := by simp [hl]
  exact overflowItems_of_getElem? (a := a.setOverflow list w) hget

theorem setOverflow_items_of_ne (e : j ≠ list) (w : PDBVector V) :
    (a.setOverflow list w).overflowItems j = a.overflowItems j := by
  show ((a.overflows.items.set list w)[j]?).elim [] PDBVector.items = _
  rw [List.getElem?_set_ne (fun e' => e e'.symm)]
  rfl

/-- the list of a slot replaced -/
theorem setOverflow_spec (h : a.Sound) (hi : i < a.numSlots) (hu : a.Used i)
    (hn : (a.data i).next ≠ noNext) {w : PDBVector V} (hw : w.Ok)
    (hl : w.layout = a.layouts.inner) :
    (a.setOverflow (a.data i).next w).Sound ∧ SameTable a (a.setOverflow (a.data i).next w) ∧
      (a.setOverflow (a.data i).next w).recordsOf =
        Function.update a.recordsOf (a.data i).hash ((a.data i).value :: w.items) := by
  have hlt := h.next_lt i hi hu hn
  have hlen : (a.setOverflow (a.data i).next w).overflows.items.length =
      a.overflows.items.length := List.length_set
  have hsound : (a.setOverflow (a.data i).next w).Sound := by
    refine h.of_hashes rfl rfl (fun _ _ => rfl) (fun x hx hux hnx => ?_) h.next_inj
      ⟨⟨?_, h.outer.1.pos, h.outer.1.fits⟩, h.outer.2⟩ fun w' hw' => ?_
    · rw [hlen]
      exact h.next_lt x hx hux hnx
    · rw [hlen]
      exact h.outer.1.le
    · rcases List.mem_or_eq_of_mem_set hw' with hw' | rfl
      · exact h.inner w' hw'
      · exact ⟨hw, hl⟩
  refine ⟨hsound, ⟨rfl, rfl, rfl, rfl⟩, ?_⟩
  have hchange := recordsOf_change h.distinct hsound.distinct
    rfl hi hu (Or.inl rfl) fun x hx e => by
      refine ⟨rfl, fun hux => ?_⟩
      show (a.data x).value :: (if (a.data x).next = noNext then [] else
        (a.setOverflow (a.data i).next w).overflowItems (a.data x).next) = _
      by_cases hnx : (a.data x).next = noNext
      · rw [slotRecords, if_pos hnx, if_pos hnx]
      · have hne : (a.data x).next ≠ (a.data i).next := fun e' =>
          e (h.next_inj x hx i hi hux hu hnx e')
        rw [slotRecords, if_neg hnx, if_neg hnx, setOverflow_items_of_ne hne]
  have hslot : (a.setOverflow (a.data i).next w).slotRecords i = (a.data i).value :: w.items := by
    show (a.data i).value :: (if (a.data i).next = noNext then [] else
      (a.setOverflow (a.data i).next w).overflowItems (a.data i).next) = _
    rw [if_neg hn, setOverflow_items hlt]
  rw [hchange, hslot]
  rfl

/-! ## a new list -/

theorem length_lt_noNext {v : PDBVector (PDBVector V)} (h : v.Ok) : v.items.length ≤ noNext := by
  have h1 := h.le
  have h2 := h.fits.lt
  unfold noNext
  omega

/-- the overflows as they were, but perhaps with more room -/
theorem setOverflows_spec (h : a.Sound) {w : PDBVector (PDBVector V)} (hw : w.Ok)
    (hi : w.items = a.overflows.items) (hl : w.layout = a.overflows.layout) :
    ({ a with overflows := w } : JoinPairArray V).Sound ∧
      ({ a with overflows := w } : JoinPairArray V).recordsOf = a.recordsOf := by
  have hitems : ∀ x, ({ a with overflows := w } : JoinPairArray V).overflowItems x =
      a.overflowItems x := fun x => by
    show (w.items[x]?).elim [] PDBVector.items = _
    rw [hi]
    rfl
  have hsound : ({ a with overflows := w } : JoinPairArray V).Sound := by
    refine h.of_hashes rfl rfl (fun _ _ => rfl) (fun x hx hux hnx => ?_) h.next_inj
      ⟨hw, hl.trans h.outer.2⟩ fun w' hw' => ?_
    · show (a.data x).next < w.items.length
      rw [hi]
      exact h.next_lt x hx hux hnx
    · exact h.inner w' (by rw [← hi]; exact hw')
  refine ⟨hsound, recordsOf_congr h.distinct hsound.distinct rfl fun x _ => ⟨rfl, fun _ => ?_⟩⟩
  simp only [slotRecords, hitems]

/-- an empty list for a slot that has none -/
theorem addList_spec (h : a.Sound) (hi : i < a.numSlots) (hu : a.Used i)
    (hn : (a.data i).next = noNext) {temp : PDBVector V} (ht : temp.Ok)
    (hl : temp.layout = a.layouts.inner) (he : temp.items = [])
    {w : PDBVector (PDBVector V)} (hw : w.Ok) (hitems : w.items = a.overflows.items ++ [temp])
    (hwl : w.layout = a.overflows.layout) :
    ∃ a', ({ a with overflows := w } : JoinPairArray V).setRecord i
        { a.data i with next := u32 (w.items.length + (2^32 - 1)) } = a' ∧ a'.Sound ∧
      SameTable a a' ∧ a'.recordsOf = a.recordsOf ∧ (a'.data i).hash = (a.data i).hash ∧
      (a'.data i).next ≠ noNext ∧ a'.overflows.items[(a'.data i).next]? = some temp := by
  have hlen : w.items.length = a.overflows.items.length + 1 := by
    rw [hitems, List.length_append, List.length_singleton]
  have hle := length_lt_noNext hw
  have hnext : u32 (w.items.length + (2^32 - 1)) = a.overflows.items.length := by
    rw [hlen]
    unfold noNext at hle
    exact u32_pred (by omega)
  rw [hnext]
  obtain ⟨a', ha'⟩ : ∃ a', ({ a with overflows := w } : JoinPairArray V).setRecord i
    { a.data i with next := a.overflows.items.length } = a' := ⟨_, rfl⟩
  have hdata : a'.data i = { a.data i with next := a.overflows.items.length } := by
    rw [← ha']
    exact setRecord_data_self _ _ _
  have hother : ∀ x, x ≠ i → a'.data x = a.data x := fun x e => by
    rw [← ha']
    exact setRecord_data_of_ne (a := ({ a with overflows := w } : JoinPairArray V)) e
  have hov : a'.overflows = w := by rw [← ha']; rfl
  have hhash : ∀ x, (a'.data x).hash = (a.data x).hash := fun x => by
    by_cases e : x = i
    · rw [e, hdata]
    · rw [hother x e]
  have hltold : ∀ x, x < a.numSlots → a.Used x → (a.data x).next ≠ noNext →
      (a.data x).next < a.overflows.items.length := h.next_lt
  have hget : a'.overflows.items[a.overflows.items.length]? = some temp := by
    rw [hov, hitems, List.getElem?_append_right (Nat.le_refl _), Nat.sub_self]
    rfl
  have hgetold : ∀ x, x < a.overflows.items.length → a'.overflowItems x = a.overflowItems x := by
    intro x hx
    rw [overflowItems, hov, hitems, List.getElem?_append_left hx]
    rfl
  have hsame : SameTable a a' := by
    rw [← ha']
    exact ⟨rfl, rfl, rfl, rfl⟩
  have hsound : a'.Sound := by
    refine h.of_hashes hsame.numSlots hsame.usedSlots (fun x _ => hhash x) ?_ ?_ ?_ ?_
    · intro x hx hux hnx
      rw [hov, hlen]
      by_cases e : x = i
      · rw [e, hdata]
        exact Nat.lt_succ_self _
      · rw [hother x e] at hnx ⊢
        exact Nat.lt_succ_of_lt (hltold x hx hux hnx)
    · intro x hx y hy hux huy hnx heq
      by_cases ex : x = i
      · by_cases ey : y = i
        · rw [ex, ey]
        · rw [ex, hdata] at hnx heq
          rw [hother y ey] at heq
          have heq' : a.overflows.items.length = (a.data y).next := heq
          have hlt := hltold y hy huy (by rw [← heq']; exact hnx)
          omega
      · by_cases ey : y = i
        · rw [hother x ex] at hnx heq
          rw [ey, hdata] at heq
          have heq' : (a.data x).next = a.overflows.items.length := heq
          have hlt := hltold x hx hux hnx
          omega
        · rw [hother x ex] at hnx heq
          rw [hother y ey] at heq
          exact h.next_inj x hx y hy hux huy hnx heq
    · rw [hov, hsame.layouts]
      exact ⟨hw, hwl.trans h.outer.2⟩
    · intro w' hw'
      rw [hov, hitems] at hw'
      rw [hsame.layouts]
      rcases List.mem_append.mp hw' with hw' | hw'
      · exact h.inner w' hw'
      · rw [List.mem_singleton.mp hw']
        exact ⟨ht, hl⟩
  have hni : a.overflows.items.length ≠ noNext := by omega
  refine ⟨a', ha', hsound, hsame, ?_, hhash i, by rw [hdata]; exact hni, by rw [hdata]; exact hget⟩
  refine recordsOf_congr h.distinct hsound.distinct hsame.numSlots fun x hx => ⟨hhash x, fun hux => ?_⟩
  by_cases e : x = i
  · subst e
    have hitem : a'.overflowItems a.overflows.items.length = [] := by
      rw [overflowItems_of_getElem? hget, he]
    rw [slotRecords, slotRecords, hdata, if_pos hn]
    show (a.data x).value :: (if a.overflows.items.length = noNext then [] else
      a'.overflowItems a.overflows.items.length) = _
    rw [if_neg hni, hitem]
  · rw [slotRecords, slotRecords, hother x e]
    by_cases hnx : (a.data x).next = noNext
    · rw [if_pos hnx, if_pos hnx]
    · rw [if_neg hnx, if_neg hnx, hgetold _ (hltold x hx hux hnx)]

/-! ## `push` -/

/-- the condition on a `push` that finds its hash in a slot: the arrays that have to grow are given
the storage they ask for -/
structure CanPushAt (a : JoinPairArray V) (slot : Nat) : Prop where
  outer : (a.data slot).next = noNext → a.overflows.CanGrow ∧ a.layouts.inner.Fits 1
  inner : ∀ w, a.overflows.items[(a.data slot).next]? = some w → w.CanGrow

/-- a failed call leaves all values -/
structure Kept (a a' : JoinPairArray V) : Prop where
  sound : a'.Sound
  same : SameTable a a'
  records : a'.recordsOf = a.recordsOf

theorem Kept.refl (h : a.Sound) : Kept a a := ⟨h, SameTable.refl a, rfl⟩

/-- after `newList` the slot has a list -/
theorem newList_spec (fail : JoinSite → Bool) (h : a.Sound) (hi : i < a.numSlots) (hu : a.Used i) (hc : a.CanPushAt i) :
    (∃ a', a.newList fail i = .notEnoughSpace a' ∧ Kept a a' ∧ ∃ site, fail site = true) ∨
      ∃ a' w, a.newList fail i = .ret a' () ∧ Kept a a' ∧ (a'.data i).hash = (a.data i).hash ∧
        (a'.data i).next ≠ noNext ∧ a'.overflows.items[(a'.data i).next]? = some w ∧ w.CanGrow := by
  by_cases hn : (a.data i).next = noNext
  · obtain ⟨hg, hfit⟩ := hc.outer hn
    obtain ⟨temp, htemp, hok, hitems, hfull, hlay⟩ :=
      PDBVector.create_spec (α := V) (l := a.layouts.inner) hfit
    have hgrow : temp.CanGrow := fun hf => by
      rw [hfull] at hf
      cases hf
    simp only [newList, if_pos hn, htemp]
    by_cases ht : fail .temp = true
    · rw [if_pos ht]
      exact Or.inl ⟨a, rfl, Kept.refl h, _, ht⟩
    · rw [if_neg ht]
      obtain ⟨w, hw, hwok, hwi, hwl, site, hsite⟩ | ⟨w, hw, hwok, hwi, hwl⟩ :=
        PDBVector.push_back_spec (fun site => fail (.outer site)) h.outer.1 hg temp
      · obtain ⟨hs, hr⟩ := setOverflows_spec h hwok hwi hwl
        exact Or.inl ⟨_, by rw [hw], ⟨hs, ⟨rfl, rfl, rfl, rfl⟩, hr⟩, _, hsite⟩
      · obtain ⟨a', ha', hs, hsame, hr, hh, hne, hget⟩ :=
          addList_spec h hi hu hn hok hlay hitems hwok hwi hwl
        exact Or.inr ⟨a', temp, by rw [hw, ← ha'], ⟨hs, hsame, hr⟩, hh, hne, hget, hgrow⟩
  · obtain ⟨w, hw, -⟩ := exists_overflow h hi hu hn
    exact Or.inr ⟨a, w, if_neg hn, Kept.refl h, rfl, hn, hw, hc.inner w hw⟩

/-- the reference is to the last value of the hash -/
def RefersTo (a : JoinPairArray V) (r : ValueRef) (hv : Nat) : Prop :=
  match r with
  | .slot i => i < a.numSlots ∧ a.Used i ∧ (a.data i).hash = hv ∧ (a.data i).next = noNext
  | .overflow list k => ∃ i < a.numSlots, a.Used i ∧ (a.data i).hash = hv ∧
    (a.data i).next = list ∧ list ≠ noNext ∧ (a.overflowItems list).length = k + 1

/-- `push` has put a value behind the values of `hv` -/
structure Pushed (a : JoinPairArray V) (hv : Nat) (x : V) (a' : JoinPairArray V) : Prop where
  sound : a'.Sound
  numSlots : a'.numSlots = a.numSlots
  maxSlots : a'.maxSlots = a.maxSlots
  layouts : a'.layouts = a.layouts
  records : a'.recordsOf = Function.update a.recordsOf hv (a.recordsOf hv ++ [x])

theorem pushOverflow_spec [Inhabited V] (h : a.Sound) (hi : i < a.numSlots) (hu : a.Used i)
    (hc : a.CanPushAt i) :
    (∃ a', a.pushOverflow fail i = .notEnoughSpace a' ∧ Kept a a' ∧ ∃ site, fail site = true) ∨
      ∃ a' r, a.pushOverflow fail i = .ret a' r ∧ Pushed a (a.data i).hash default a' ∧
        a'.usedSlots = a.usedSlots ∧ a'.RefersTo r (a.data i).hash := by
  obtain ⟨a', ha', hk, hsite⟩ | ⟨a', w, ha', hk, hh, hn, hw, hg⟩ :=
    newList_spec fail h hi hu hc
  · exact Or.inl ⟨a', by rw [pushOverflow, ha'], hk, hsite⟩
  · have hi' : i < a'.numSlots := by rw [hk.same.numSlots]; exact hi
    have hu' : a'.Used i := by rwa [Used, hh]
    obtain ⟨w', hw', hwok, hwl⟩ := exists_overflow hk.sound hi' hu' hn
    rw [hw] at hw'
    cases hw'
    have hslot : a'.slotRecords i = (a'.data i).value :: w.items := by
      rw [slotRecords, if_neg hn, overflowItems_of_getElem? hw]
    have hrec : a.recordsOf (a.data i).hash = (a'.data i).value :: w.items := by
      rw [← hk.records, ← hh, recordsOf_slot hk.sound.distinct hi' hu', hslot]
    obtain ⟨u, hpush, huok, hui, hul, site, hsite⟩ | ⟨u, hpush, huok, hui, hul⟩ :=
      PDBVector.push_back_spec (fun site => fail (.inner site)) hwok hg default
    · obtain ⟨hs, hsame, hr⟩ := setOverflow_spec hk.sound hi' hu' hn huok (hul.trans hwl)
      refine Or.inl ⟨_, by rw [pushOverflow, ha']; simp only [hw, hpush],
        ⟨hs, hk.same.trans hsame, ?_⟩, _, hsite⟩
      rw [hr, hui, hk.records, hh, ← hrec, Function.update_eq_self]
    · obtain ⟨hs, hsame, hr⟩ := setOverflow_spec hk.sound hi' hu' hn huok (hul.trans hwl)
      have hlt := hk.sound.next_lt i hi' hu' hn
      refine Or.inr ⟨_, .overflow (a'.data i).next (u.items.length - 1),
        by rw [pushOverflow, ha']; simp only [hw, hpush],
        ⟨hs, hsame.numSlots.trans hk.same.numSlots, hsame.maxSlots.trans hk.same.maxSlots,
          hsame.layouts.trans hk.same.layouts, ?_⟩, hsame.usedSlots.trans hk.same.usedSlots,
        i, hi', hu', hh, rfl, hn, ?_⟩
      · rw [hr, hui, hk.records, hh, hrec]
        rfl
      · rw [setOverflow_items hlt, hui, List.length_append, List.length_singleton]
        rfl

/-- the condition on a `push` -/
def CanPush (a : JoinPairArray V) (me : Nat) : Prop :=
  ∀ i < a.numSlots, (a.data i).hash = hashValOf me → a.CanPushAt i

/-- the hash has a slot -/
def HasHash (a : JoinPairArray V) (hv : Nat) : Prop := ∃ i < a.numSlots, (a.data i).hash = hv

instance (a : JoinPairArray V) (hv : Nat) : Decidable (a.HasHash hv) :=
  inferInstanceAs (Decidable (∃ i < a.numSlots, (a.data i).hash = hv))

theorem push_new [Inhabited V] (fail : JoinSite → Bool) {me : Nat} (h : a.Sound) (hroom : a.usedSlots < a.numSlots)
    (hno : ¬ a.HasHash (hashValOf me)) :
    ∃ j, a.push fail me = (if fail .value then .notEnoughSpace a
        else .ret (a.insertRecord j ⟨hashValOf me, noNext, default⟩) (.slot j)) ∧
      j < a.numSlots ∧ ¬ a.Used j ∧
      Chained a.Used a.numSlots (hashValOf me % (a.numSlots - 1)) j := by
  obtain ⟨j, hj, hlt, hun, hc⟩ := findSlot_miss h hroom fun i hi e => hno ⟨i, hi, e⟩
  refine ⟨j, ?_, hlt, hun, hc⟩
  rw [push, hj]
  exact if_pos (by simpa [Used] using hun)

theorem push_at [Inhabited V] {me : Nat} (h : a.Sound) (hi : i < a.numSlots)
    (hh : (a.data i).hash = hashValOf me) : a.push fail me = a.pushOverflow fail i := by
  have hu : a.Used i := by
    rw [Used, hh]
    exact hashValOf_ne me
  have hfind := findSlot_hit h hi hu
  rw [hh] at hfind
  rw [push, hfind]
  exact if_neg hu

/-- **`push`.** -/
theorem push_spec [Inhabited V] (fail : JoinSite → Bool) {me : Nat} (h : a.Sound) (hroom : a.usedSlots < a.numSlots)
    (hc : a.CanPush me) :
    (∃ a', a.push fail me = .notEnoughSpace a' ∧ Kept a a' ∧ ∃ site, fail site = true) ∨
      ∃ a' r, a.push fail me = .ret a' r ∧ Pushed a (hashValOf me) default a' ∧
        a'.usedSlots = a.usedSlots + (if a.HasHash (hashValOf me) then 0 else 1) ∧
        a'.RefersTo r (hashValOf me) := by
  by_cases hhas : a.HasHash (hashValOf me)
  · rw [if_pos hhas]
    obtain ⟨i, hi, hh⟩ := hhas
    have hu : a.Used i := by
      rw [Used, hh]
      exact hashValOf_ne me
    rw [push_at h hi hh, ← hh]
    exact pushOverflow_spec h hi hu (hc i hi hh)
  · rw [if_neg hhas]
    obtain ⟨j, hpush, hj, hun, hch⟩ := push_new fail h hroom hhas
    rw [hpush]
    by_cases hv : fail .value = true
    · rw [if_pos hv]
      exact Or.inl ⟨a, rfl, Kept.refl h, _, hv⟩
    · rw [if_neg hv]
      have habsent : a.recordsOf (hashValOf me) = [] :=
        recordsOf_absent fun i hi e => hhas ⟨i, hi, e⟩
      obtain ⟨hs, hused, hr⟩ := insert_spec (r := ⟨hashValOf me, noNext, default⟩) h hroom
        (hashValOf_ne me) (fun i hi e => hhas ⟨i, hi, e⟩) hj hun hch (fun e => absurd rfl e)
      have hself : (a.insertRecord j ⟨hashValOf me, noNext, default⟩).data j =
          ⟨hashValOf me, noNext, default⟩ := setRecord_data_self a j _
      refine Or.inr ⟨_, _, rfl, ⟨hs, rfl, rfl, rfl, ?_⟩, hused, hj, ?_, ?_, ?_⟩
      · rw [hr, habsent]
        rfl
      · rw [Used, hself]
        exact hashValOf_ne me
      · rw [hself]
      · rw [hself]

/-! ## writes -/

theorem set_last {l : List V} {k : Nat} (h : l.length = k + 1) (v : V) :
    l.set k v = l.dropLast ++ [v] := by
  rcases List.eq_nil_or_concat l with rfl | ⟨l', x, rfl⟩
  · cases h
  · rw [List.concat_eq_append] at *
    have hk : l'.length = k := by simpa using h
    rw [List.dropLast_concat, ← hk, List.set_append_right _ _ (Nat.le_refl _), Nat.sub_self]
    rfl

/-- the value that was pushed last is written -/
theorem setValue_spec {r : ValueRef} (h : a.Sound) (hr : a.RefersTo r hv) (v : V) :
    (a.setValue r v).Sound ∧ SameTable a (a.setValue r v) ∧
      (a.setValue r v).recordsOf =
        Function.update a.recordsOf hv ((a.recordsOf hv).dropLast ++ [v]) := by
  cases r with
  | slot i =>
    obtain ⟨hi, hu, rfl, hn⟩ := hr
    obtain ⟨a', ha'⟩ : ∃ a', a.setValue (.slot i) v = a' := ⟨_, rfl⟩
    rw [ha']
    have hself : a'.data i = { a.data i with value := v } := by
      rw [← ha']
      exact setRecord_data_self _ _ _
    have hother : ∀ x, x ≠ i → a'.data x = a.data x := fun x e => by
      rw [← ha']
      exact setRecord_data_of_ne e
    have hhash : ∀ x, (a'.data x).hash = (a.data x).hash ∧ (a'.data x).next = (a.data x).next :=
      fun x => by
        by_cases e : x = i
        · rw [e, hself]
          exact ⟨rfl, rfl⟩
        · rw [hother x e]
          exact ⟨rfl, rfl⟩
    have hov : a'.overflows = a.overflows ∧ a'.layouts = a.layouts ∧ a'.numSlots = a.numSlots ∧
        a'.usedSlots = a.usedSlots ∧ a'.maxSlots = a.maxSlots := by
      rw [← ha']
      exact ⟨rfl, rfl, rfl, rfl, rfl⟩
    obtain ⟨hov, hlay, hns, hus, hms⟩ := hov
    have hsound : a'.Sound := by
      refine h.of_hashes hns hus (fun x _ => (hhash x).1) ?_ ?_ (by rw [hov, hlay]; exact h.outer)
        (by rw [hov, hlay]; exact h.inner)
      · intro x hx hux hnx
        rw [(hhash x).2] at hnx ⊢
        rw [hov]
        exact h.next_lt x hx hux hnx
      · intro x hx y hy hux huy hnx heq
        rw [(hhash x).2] at hnx heq
        rw [(hhash y).2] at heq
        exact h.next_inj x hx y hy hux huy hnx heq
    have hu' : (a'.data i).hash ≠ JM_UNUSED := by
      rw [(hhash i).1]
      exact hu
    have hslot : a'.slotRecords i = [v] := by
      rw [slotRecords, (hhash i).2, if_pos hn, hself]
    have hrec : a.recordsOf (a.data i).hash = [(a.data i).value] := by
      rw [recordsOf_slot h.distinct hi hu, slotRecords, if_pos hn]
    have hchange := recordsOf_change h.distinct hsound.distinct hns hi hu'
      (Or.inl (hhash i).1.symm) fun x hx e => by
        refine ⟨(hhash x).1, fun _ => ?_⟩
        simp only [slotRecords, hother x e, overflowItems, hov]
    refine ⟨hsound, ⟨hns, hus, hms, hlay⟩, ?_⟩
    rw [hchange, hslot, (hhash i).1, hrec]
    rfl
  | overflow list k =>
    obtain ⟨i, hi, hu, rfl, rfl, hn, hlen⟩ := hr
    obtain ⟨w, hw, hok, hl⟩ := exists_overflow h hi hu hn
    rw [overflowItems_of_getElem? hw] at hlen
    have hwset : ({ w with items := w.items.set k v } : PDBVector V).Ok :=
      ⟨by show (w.items.set k v).length ≤ w.numSlots; rw [List.length_set]; exact hok.le, hok.pos,
        hok.fits⟩
    obtain ⟨hs, hsame, hr⟩ := setOverflow_spec h hi hu hn hwset hl
    have hset : a.setValue (.overflow (a.data i).next k) v =
        a.setOverflow (a.data i).next { w with items := w.items.set k v } := by
      simp only [setValue, hw]
    have hrec : a.recordsOf (a.data i).hash = (a.data i).value :: w.items := by
      rw [recordsOf_slot h.distinct hi hu, slotRecords, if_neg hn, overflowItems_of_getElem? hw]
    have hne : w.items ≠ [] := fun e => by
      rw [e] at hlen
      cases hlen
    rw [hset]
    refine ⟨hs, hsame, ?_⟩
    rw [hr, hrec, set_last hlen, List.dropLast_cons_of_ne_nil hne]
    rfl

/-- `push`, and the new value written -/
theorem Pushed.setValue {x : V} {r : ValueRef} (h : Pushed a hv x a') (hr : a'.RefersTo r hv) (v : V) :
    Pushed a hv v (a'.setValue r v) := by
  obtain ⟨hs, hsame, hrec⟩ := setValue_spec h.sound hr v
  refine ⟨hs, hsame.numSlots.trans h.numSlots, hsame.maxSlots.trans h.maxSlots,
    hsame.layouts.trans h.layouts, ?_⟩
  rw [hrec, h.records, Function.update_self, List.dropLast_concat, Function.update_idem]

end JoinPairArray

end Netsdb
