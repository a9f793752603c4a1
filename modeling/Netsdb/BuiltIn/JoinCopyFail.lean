import Netsdb.BuiltIn.JoinCopy

/-!
# Deep copies that run out of space

* `JoinTarget.destroysExactly_iff`   what the destructor of a table needs;
* `copySlotsTo_throws`               what the loop over the slots leaves;
* `failedCopy_destroys`              the copies whose destructor destroys what was constructed.
-/

set_option linter.unusedSectionVars false

namespace Netsdb

namespace JoinTarget
variable {V : Type*} {t : JoinTarget V} {numSlots : Nat}

theorem slot_mem_destroyed {i : Nat} : JoinObject.slot i ∈ t.destroyed numSlots ↔
    t.descends = true ∧ i < numSlots ∧ (t.data i).hash ≠ JM_UNUSED := by
  unfold destroyed
  cases t.descends with
  | false => simp
  | true => simp

theorem list_notMem_destroyed (k : Nat) : JoinObject.list k ∉ t.destroyed numSlots := by
  unfold destroyed
  split
  · exact List.not_mem_nil
  · simp

theorem destroyed_nodup : (t.destroyed numSlots).Nodup := by
  unfold destroyed
  split
  · exact List.nodup_nil
  · exact (List.nodup_range.filter _).map fun i j h => JoinObject.slot.inj h

/-- no list has been constructed, and the slots with values are those that the destructor visits -/
theorem destroysExactly_iff : DestroysExactly (t.destroyed numSlots) t.Constructed ↔
    t.lists = 0 ∧ ∀ i, t.values i = true ↔
      (t.descends = true ∧ i < numSlots ∧ (t.data i).hash ≠ JM_UNUSED) := by
  constructor
  · rintro ⟨-, h⟩
    refine ⟨?_, fun i => (h (.slot i)).symm.trans slot_mem_destroyed⟩
    by_contra hne
    exact list_notMem_destroyed 0 ((h (.list 0)).mpr (Nat.pos_of_ne_zero hne))
  · rintro ⟨hl, h⟩
    refine ⟨destroyed_nodup, fun o => ?_⟩
    cases o with
    | slot i => exact slot_mem_destroyed.trans (h i).symm
    | list k =>
      refine ⟨fun hm => absurd hm (list_notMem_destroyed k), fun hm => ?_⟩
      rw [Constructed, hl] at hm
      exact absurd hm (Nat.not_lt_zero k)

end JoinTarget

namespace ListEnd

/-- the objects that have been constructed -/
def built {α : Type*} : ListEnd α → Nat
  | .copied _ _ b => b
  | .notEnoughSpace b => b

end ListEnd

def BucketEnd.built {V : Type*} : BucketEnd V → Nat
  | .copied _ _ _ _ b => b
  | .notEnoughSpace b => b

namespace JoinPairArray
variable {V : Type*} {c : Constituent V} {fail : JoinCopyFail} {fromMe : JoinPairArray V}
  {start : Nat} {t t' : JoinTarget V} {next : Nat}

theorem le_copyItems {f : Nat → Option Bool} (vs : List V) : ∀ {j next b : Nat},
    b ≤ (copyItems c f j vs next b).built := by
  induction vs with
  | nil =>
    intro j next b
    exact Nat.le_refl b
  | cons v vs ih =>
    intro j next b
    rw [copyItems]
    cases f j with
    | some constructed => exact Nat.le_add_right b _
    | none =>
      have hle := @ih (j + 1) (c.copy v next).2 (b + 1)
      dsimp only
      cases hrun : copyItems c f (j + 1) vs (c.copy v next).2 (b + 1) with
      | copied l n b' =>
        rw [hrun] at hle
        exact (Nat.le_succ b).trans hle
      | notEnoughSpace b' =>
        rw [hrun] at hle
        exact (Nat.le_succ b).trans hle

theorem le_copyList {inner : Nat → Nat} {l b : Nat} {w : PDBVector V} :
    b ≤ (copyList start c fail inner l w next b).built := by
  unfold copyList
  split_ifs
  · exact Nat.le_refl b
  · exact Nat.le_refl b
  · exact Nat.le_refl b
  · exact le_copyItems w.items

/-- a list that is not empty is there before anything else can fail -/
theorem copyLists_cons {inner : Nat → Nat} {w : PDBVector V} {ws : List (PDBVector V)}
    (hle : ∀ {l next b : Nat}, b ≤ (copyLists start c fail inner l ws next b).built) {l b : Nat}
    (hs : (fail (.list l)).isSome = false) :
    b + 1 ≤ (copyLists start c fail inner l (w :: ws) next b).built := by
  have hle' := @le_copyList V c fail start next inner l (b + 1) w
  rw [copyLists, hs, if_neg Bool.false_ne_true]
  cases hitems : copyList start c fail inner l w next (b + 1) with
  | notEnoughSpace b₁ =>
    rw [hitems] at hle'
    exact hle'
  | copied items n₁ b₁ =>
    rw [hitems] at hle'
    have hrest := @hle (l + 1) n₁ b₁
    dsimp only
    cases hrun : copyLists start c fail inner (l + 1) ws n₁ b₁ with
    | copied ls n b' =>
      rw [hrun] at hrest
      exact hle'.trans hrest
    | notEnoughSpace b' =>
      rw [hrun] at hrest
      exact hle'.trans hrest

theorem le_copyLists {inner : Nat → Nat} (ws : List (PDBVector V)) : ∀ {l next b : Nat},
    b ≤ (copyLists start c fail inner l ws next b).built := by
  induction ws with
  | nil =>
    intro l next b
    exact Nat.le_refl b
  | cons w ws ih =>
    intro l next b
    cases hs : (fail (.list l)).isSome with
    | true =>
      rw [copyLists, hs]
      exact Nat.le_refl b
    | false => exact (Nat.le_succ b).trans (copyLists_cons ih hs)

/-- the first list of the overflows is not constructed -/
def NoFirstList (fail : JoinCopyFail) (ws : List (PDBVector V)) : Prop :=
  ws ≠ [] ∧ (fail (.list 0)).isSome = true

/-- the copy of the lists fails, and has constructed nothing -/
theorem copyLists_fails {inner : Nat → Nat} {ws : List (PDBVector V)} {b : Nat}
    (h : copyLists start c fail inner 0 ws next 0 = .notEnoughSpace b) :
    b = 0 ↔ NoFirstList fail ws := by
  cases ws with
  | nil => cases h
  | cons w ws =>
    cases hs : (fail (.list 0)).isSome with
    | true =>
      rw [copyLists, hs] at h
      cases h
      exact ⟨fun _ => ⟨List.cons_ne_nil w ws, hs⟩, fun _ => rfl⟩
    | false =>
      have hle : 0 + 1 ≤ (copyLists start c fail inner 0 (w :: ws) next 0).built :=
        copyLists_cons (le_copyLists ws) hs
      rw [h] at hle
      refine ⟨fun hb => ?_, fun hno => ?_⟩
      · have : 1 ≤ b := hle
        omega
      · rw [NoFirstList, hs] at hno
        cases hno.2

theorem copyLists_returns {inner : Nat → Nat} {ws : List (PDBVector V)}
    {ls : List (Nat × PDBVector V)} {n b : Nat}
    (h : copyLists start c fail inner 0 ws next 0 = .copied ls n b) :
    (b = 0 ↔ ws = []) ∧ ¬ NoFirstList fail ws := by
  cases ws with
  | nil =>
    cases h
    exact ⟨⟨fun _ => rfl, fun _ => rfl⟩, fun hno => hno.1 rfl⟩
  | cons w ws =>
    cases hs : (fail (.list 0)).isSome with
    | true =>
      rw [copyLists, hs] at h
      cases h
    | false =>
      have hle : 0 + 1 ≤ (copyLists start c fail inner 0 (w :: ws) next 0).built :=
        copyLists_cons (le_copyLists ws) hs
      rw [h] at hle
      refine ⟨⟨fun hb => ?_, fun hno => absurd hno (List.cons_ne_nil w ws)⟩, fun hno => ?_⟩
      · have : 1 ≤ b := hle
        omega
      · rw [NoFirstList, hs] at hno
        cases hno.2

/-- slot `i` cannot be copied; `pre` have been, and `post` not -/
structure ThrowsAt (fail : JoinCopyFail) (fromMe : JoinPairArray V) (t t' : JoinTarget V)
    (pre post : List Nat) (i : Nat) : Prop where
  used : fromMe.Used i
  fails : fail (.value i) = some (t'.values i)
  earlier : ∀ j ∈ pre, fromMe.Used j → fail (.value j) = none
  hash : ∀ j, j ∈ pre ∨ j = i → (t'.data j).hash = (fromMe.data j).hash
  later : ∀ j, j ∉ pre → j ≠ i → (t'.data j).hash = (t.data j).hash ∧ t'.values j = t.values j
  values : ∀ j ∈ pre, t'.values j = if fromMe.Used j then true else t.values j
  lists : t'.lists = t.lists
  descends : t'.descends = t.descends

theorem copySlotTo_cases (i : Nat) (t : JoinTarget V) (next : Nat) :
    (∃ t' b, copySlotTo c fail fromMe i t next = .notEnoughSpace t' ∧ fromMe.Used i ∧
      fail (.value i) = some b ∧ t'.values = Function.update t.values i b ∧
      (t'.data i).hash = (fromMe.data i).hash ∧ (∀ j, j ≠ i → t'.data j = t.data j) ∧
      t'.lists = t.lists ∧ t'.descends = t.descends) ∨
    ∃ t' next', copySlotTo c fail fromMe i t next = .ret t' next' ∧
      (fromMe.Used i → fail (.value i) = none) ∧
      t'.values = Function.update t.values i (if fromMe.Used i then true else t.values i) ∧
      (t'.data i).hash = (fromMe.data i).hash ∧ (∀ j, j ≠ i → t'.data j = t.data j) ∧
      t'.lists = t.lists ∧ t'.descends = t.descends := by
  have hself : ((t.writeHash i (fromMe.data i).hash).data i).hash = (fromMe.data i).hash := by
    rw [JoinTarget.writeHash_self]
  by_cases hu : fromMe.Used i
  · have hui : ¬ (fromMe.data i).hash = JM_UNUSED := hu
    obtain ⟨t₁, ht₁⟩ : ∃ t₁, t₁ = (t.writeHash i (fromMe.data i).hash).writeNext i
      (fromMe.data i).next := ⟨_, rfl⟩
    have hnext : (t₁.data i).hash = (fromMe.data i).hash := by
      rw [ht₁, JoinTarget.writeNext_self]
      exact hself
    have hother : ∀ j, j ≠ i → t₁.data j = t.data j := by
      intro j e
      rw [ht₁]
      exact (Function.update_of_ne e _ _).trans (Function.update_of_ne e _ _)
    have hvalues : t₁.values = t.values := by rw [ht₁]; rfl
    have hlists : t₁.lists = t.lists := by rw [ht₁]; rfl
    have hdesc : t₁.descends = t.descends := by rw [ht₁]; rfl
    cases hf : fail (.value i) with
    | some b =>
      refine .inl ⟨{ t₁ with values := Function.update t₁.values i b }, b, ?_, hu, rfl,
        by rw [hvalues], hnext, hother, hlists, hdesc⟩
      simp only [copySlotTo, if_neg hui, hf, ht₁]
    | none =>
      refine .inr ⟨{ t₁.writeValue i (c.copy (fromMe.data i).value next).1 with
        values := Function.update t₁.values i true }, (c.copy (fromMe.data i).value next).2, ?_,
        fun _ => rfl, by rw [hvalues, if_pos hu], ?_, fun j e => ?_, hlists, hdesc⟩
      · simp only [copySlotTo, if_neg hui, hf, ht₁]
      · show ((t₁.writeValue i _).data i).hash = _
        rw [JoinTarget.writeValue_self]
        exact hnext
      · exact (Function.update_of_ne e _ _).trans (hother j e)
  · refine .inr ⟨_, _, if_pos (not_not.mp hu), fun h => absurd h hu, ?_, hself,
      fun j e => Function.update_of_ne e _ _, rfl, rfl⟩
    rw [if_neg hu, Function.update_eq_self]
    rfl

/-- what the loop over the slots leaves when it throws -/
theorem copySlotsTo_throws (is : List Nat) : ∀ {t t' : JoinTarget V} {next : Nat}, is.Nodup →
    copySlotsTo c fail fromMe is t next = .notEnoughSpace t' →
    ∃ pre i post, is = pre ++ i :: post ∧ ThrowsAt fail fromMe t t' pre post i := by
  induction is with
  | nil =>
    intro t t' next _ h
    cases h
  | cons i is ih =>
    intro t t' next hnd h
    obtain ⟨hni, hnd'⟩ := List.nodup_cons.mp hnd
    rw [copySlotsTo] at h
    rcases @copySlotTo_cases V c fail fromMe i t next with
      ⟨t₁, b, hrun, hu, hf, hval, hhash, hother, hl, hd⟩ |
      ⟨t₁, next₁, hrun, hf, hval, hhash, hother, hl, hd⟩
    · rw [hrun] at h
      cases h
      refine ⟨[], i, is, rfl, hu, ?_, fun j hj => absurd hj List.not_mem_nil, fun j hj => ?_,
        fun j _ e => ⟨by rw [hother j e], by rw [hval, Function.update_of_ne e]⟩,
        fun j hj => absurd hj List.not_mem_nil, hl, hd⟩
      · rw [hf, hval, Function.update_self]
      · rcases hj with hj | rfl
        · exact absurd hj List.not_mem_nil
        · exact hhash
    · rw [hrun] at h
      obtain ⟨pre, k, post, rfl, hthrow⟩ := ih hnd' h
      have hik : i ∉ pre ∧ i ≠ k := by
        constructor
        · exact fun hm => hni (List.mem_append_left _ hm)
        · rintro rfl
          exact hni (List.mem_append_right _ List.mem_cons_self)
      obtain ⟨hlater, hlaterv⟩ := hthrow.later i hik.1 hik.2
      refine ⟨i :: pre, k, post, rfl, hthrow.used, hthrow.fails, fun j hj hu => ?_, fun j hj => ?_,
        fun j hj e => ?_, fun j hj => ?_, hthrow.lists.trans hl, hthrow.descends.trans hd⟩
      · rcases List.mem_cons.mp hj with rfl | hj
        · exact hf hu
        · exact hthrow.earlier j hj hu
      · rcases hj with hj | rfl
        · rcases List.mem_cons.mp hj with rfl | hj
          · rw [hlater, hhash]
          · exact hthrow.hash j (.inl hj)
        · exact hthrow.hash _ (.inr rfl)
      · have hji : j ≠ i := fun e' => hj (e' ▸ List.mem_cons_self)
        obtain ⟨h1, h2⟩ := hthrow.later j (fun hm => hj (List.mem_cons_of_mem i hm)) e
        rw [h1, h2, hother j hji, hval, Function.update_of_ne hji]
        exact ⟨rfl, rfl⟩
      · rcases List.mem_cons.mp hj with rfl | hj
        · rw [hlaterv, hval, Function.update_self]
        · have hji : j ≠ i := fun e => hik.1 (e ▸ hj)
          rw [hthrow.values j hj, hval, Function.update_of_ne hji]

/-- no list has been constructed when the overflows have been copied -/
def NoLists (start : Nat) (fail : JoinCopyFail) (s : StoredJoin V) : Prop :=
  start ≤ s.outer ∨ (fail .outer = none ∧ s.table.overflows.items = [])

/-- the copy of the overflows fails, and has constructed no list -/
def NoOverflows (start : Nat) (fail : JoinCopyFail) (s : StoredJoin V) : Prop :=
  ¬ start ≤ s.outer ∧
    ((fail .outer).isSome = true ∨ NoFirstList fail s.table.overflows.items)

theorem copyOverflows_fails {s : StoredJoin V} {b : Nat}
    (h : copyOverflows start c fail s next = .notEnoughSpace b) :
    (b = 0 ↔ NoOverflows start fail s) ∧ ¬ NoLists start fail s := by
  unfold copyOverflows at h
  dsimp only at h
  split_ifs at h with ho hs
  · cases h
    refine ⟨⟨fun _ => ⟨ho, .inl hs⟩, fun _ => rfl⟩, ?_⟩
    rintro (hno | ⟨hno, -⟩)
    · exact ho hno
    · rw [hno] at hs
      cases hs
  · refine ⟨(copyLists_fails h).trans ⟨fun hno => ⟨ho, .inr hno⟩, ?_⟩, ?_⟩
    · rintro ⟨-, hno | hno⟩
      · exact absurd hno hs
      · exact hno
    · rintro (hno | ⟨-, hno⟩)
      · exact ho hno
      · rw [hno] at h
        cases h

theorem copyOverflows_returns {s : StoredJoin V} {ls : List (Nat × PDBVector V)} {n b : Nat}
    (h : copyOverflows start c fail s next = .copied ls n b) :
    (b = 0 ↔ NoLists start fail s) ∧ ¬ NoOverflows start fail s := by
  unfold copyOverflows at h
  dsimp only at h
  split_ifs at h with ho hs
  · cases h
    exact ⟨⟨fun _ => .inl ho, fun _ => rfl⟩, fun hno => hno.1 ho⟩
  · obtain ⟨hiff, hfirst⟩ := copyLists_returns h
    have hnone : fail .outer = none := Option.not_isSome_iff_eq_none.mp hs
    refine ⟨hiff.trans ⟨fun hno => .inr ⟨hnone, hno⟩, ?_⟩, ?_⟩
    · rintro (hno | ⟨-, hno⟩)
      · exact absurd hno ho
      · exact hno
    · rintro ⟨-, hno | hno⟩
      · exact hs hno
      · exact hfirst hno

/-- slot `i` is the first that cannot be copied, its value has been constructed by then, and the
slots behind it look unused in the memory that is not initialised -/
def LastVisited (fail : JoinCopyFail) (fromMe : JoinPairArray V) (t : JoinTarget V) (i : Nat) : Prop :=
  i < fromMe.numSlots ∧ fromMe.Used i ∧ fail (.value i) = some true ∧
    (∀ j < i, fromMe.Used j → fail (.value j) = none) ∧
    ∀ j, i < j → j < fromMe.numSlots → (t.data j).hash = JM_UNUSED

/-- the slots, when the loop throws -/
theorem finishCopy_destroys {outer cap : Nat} {lists : List (Nat × PDBVector V)}
    (hblank : ∀ i, t.values i = false) (hdesc : t.descends = true)
    (h : finishCopy c fail fromMe t outer cap lists next = .notEnoughSpace t') :
    DestroysExactly (t'.destroyed fromMe.numSlots) t'.Constructed ↔
      t.lists = 0 ∧ ∃ i, LastVisited fail fromMe t i := by
  unfold finishCopy at h
  cases hrun : copySlotsTo c fail fromMe (List.range fromMe.numSlots) t next with
  | ret t₁ next₁ =>
    rw [hrun] at h
    cases h
  | notEnoughSpace t₁ =>
    rw [hrun] at h
    cases h
    obtain ⟨pre, i, post, hsplit, hat⟩ := copySlotsTo_throws _ List.nodup_range hrun
    -- `pre` is what is below `i`, and `post` what is above
    have hmem : ∀ j, j < fromMe.numSlots ↔ j ∈ pre ++ i :: post := fun j => by
      rw [← hsplit, List.mem_range]
    have hsorted := List.pairwise_lt_range (n := fromMe.numSlots)
    rw [hsplit, List.pairwise_append] at hsorted
    obtain ⟨-, hpost, hpre⟩ := hsorted
    have hbelow : ∀ j, j ∈ pre ↔ j < i := by
      intro j
      refine ⟨fun hj => hpre j hj i List.mem_cons_self, fun hj => ?_⟩
      have hin : i < fromMe.numSlots := (hmem i).mpr (by simp)
      rcases List.mem_append.mp ((hmem j).mp (by omega)) with hj' | hj'
      · exact hj'
      · rcases List.mem_cons.mp hj' with rfl | hj'
        · omega
        · have := (List.pairwise_cons.mp hpost).1 j hj'
          omega
    have hi : i < fromMe.numSlots := (hmem i).mpr (by simp)
    rw [JoinTarget.destroysExactly_iff, hat.lists, hat.descends, hdesc]
    refine and_congr_right fun _ => ?_
    constructor
    · intro hall
      have hvi : t'.values i = true := by
        refine (hall i).mpr ⟨rfl, hi, ?_⟩
        rw [hat.hash i (.inr rfl)]
        exact hat.used
      refine ⟨i, hi, hat.used, hvi ▸ hat.fails, fun j hj => hat.earlier j ((hbelow j).mpr hj),
        fun j hj hjn => ?_⟩
      obtain ⟨hh, hv⟩ := hat.later j (fun hm => absurd ((hbelow j).mp hm) (by omega)) (by omega)
      by_contra hne
      have := (hall j).mpr ⟨rfl, hjn, by rw [hh]; exact hne⟩
      rw [hv, hblank] at this
      cases this
    · rintro ⟨k, hk, hku, hkf, hearly, hlate⟩ j
      have hik : i = k := by
        rcases Nat.lt_trichotomy i k with hlt | rfl | hlt
        · have := hearly i hlt hat.used
          rw [hat.fails] at this
          cases this
        · rfl
        · have := hat.earlier k ((hbelow k).mpr hlt) hku
          rw [hkf] at this
          cases this
      subst hik
      have hvi : t'.values i = true := Option.some.inj (hat.fails.symm.trans hkf)
      rcases Nat.lt_trichotomy j i with hlt | rfl | hlt
      · have hj := (hbelow j).mpr hlt
        rw [hat.values j hj, hat.hash j (.inl hj), hblank]
        by_cases hu : fromMe.Used j
        · rw [if_pos hu]
          exact ⟨fun _ => ⟨rfl, by omega, hu⟩, fun _ => rfl⟩
        · rw [if_neg hu]
          exact ⟨fun h => Bool.noConfusion h, fun h => absurd h.2.2 hu⟩
      · rw [hvi, hat.hash j (.inr rfl)]
        exact ⟨fun _ => ⟨rfl, hi, hat.used⟩, fun _ => rfl⟩
      · obtain ⟨hh, hv⟩ := hat.later j (fun hm => absurd ((hbelow j).mp hm) (by omega)) (by omega)
        rw [hv, hblank, hh]
        exact ⟨fun h => Bool.noConfusion h, fun h => absurd (hlate j hlt h.2.1) h.2.2⟩

/-- the condition on a copy by `setUpAndCopyFrom` -/
def CopyDestroys (start : Nat) (c : Constituent V) (fail : JoinCopyFail) (s : StoredJoin V)
    (t : JoinTarget V) : Prop :=
  (fail .overflows).isSome = true ∨
  (NoOverflows start fail s ∧
    (c.descendsFromObject = true → ∀ i < s.table.numSlots, (t.data i).hash = JM_UNUSED)) ∨
  (NoLists start fail s ∧ ∃ i, LastVisited fail s.table t i)

/-- **A copy by `setUpAndCopyFrom` that throws.** -/
theorem joinCopy_destroys {s : StoredJoin V} (hblank : ∀ o, ¬ t.Constructed o)
    (h : setUpAndCopyFrom start c fail s t next = .notEnoughSpace t') :
    DestroysExactly (t'.destroyed s.table.numSlots) t'.Constructed ↔ CopyDestroys start c fail s t := by
  have hlists : t.lists = 0 := by
    by_contra hne
    exact hblank (.list 0) (Nat.pos_of_ne_zero hne)
  have hvalues : ∀ i, t.values i = false := fun i => Bool.eq_false_iff.mpr (hblank (.slot i))
  unfold setUpAndCopyFrom at h
  by_cases hover : (fail .overflows).isSome = true
  · rw [if_pos hover] at h
    cases h
    refine ⟨fun _ => .inl hover, fun _ => JoinTarget.destroysExactly_iff.mpr ⟨hlists, fun i => ?_⟩⟩
    rw [hvalues]
    exact ⟨fun h => Bool.noConfusion h, fun h => Bool.noConfusion h.1⟩
  · rw [if_neg hover] at h
    dsimp only at h
    cases hcopy : copyOverflows start c fail s next with
    | notEnoughSpace b =>
      rw [hcopy] at h
      cases h
      obtain ⟨hb, hno⟩ := copyOverflows_fails hcopy
      rw [JoinTarget.destroysExactly_iff]
      constructor
      · rintro ⟨hb', hall⟩
        refine .inr (.inl ⟨hb.mp hb', fun hobj i hi => ?_⟩)
        by_contra hne
        exact absurd ((hvalues i).symm.trans ((hall i).mpr ⟨hobj, hi, hne⟩)) (by decide)
      · rintro (hs | ⟨hs, hraw⟩ | ⟨hs, -⟩)
        · exact absurd hs hover
        · refine ⟨hb.mpr hs, fun i => ?_⟩
          show t.values i = true ↔ _
          rw [hvalues]
          exact ⟨fun h => Bool.noConfusion h, fun h => absurd (hraw h.1 i h.2.1) h.2.2⟩
        · exact absurd hs hno
    | copied ls n b =>
      rw [hcopy] at h
      dsimp only at h
      obtain ⟨hb, hno⟩ := copyOverflows_returns hcopy
      by_cases hobj : (!c.descendsFromObject) = true
      · rw [if_pos hobj] at h
        cases h
      rw [if_neg hobj] at h
      have hdesc : c.descendsFromObject = true := by simpa using hobj
      refine (finishCopy_destroys (t := { t with descends := c.descendsFromObject, lists := b })
        hvalues hdesc h).trans ?_
      constructor
      · rintro ⟨hb', hlast⟩
        exact .inr (.inr ⟨hb.mp hb', hlast⟩)
      · rintro (hs | ⟨hs, -⟩ | ⟨hs, hlast⟩)
        · exact absurd hs hover
        · exact absurd hs hno
        · exact ⟨hb.mpr hs, hlast⟩

end JoinPairArray

namespace JoinMap
variable {V : Type*} {c : Constituent V} {fail : JoinCopyFail} {copyMe : JoinPairArray V}
  {t t' : JoinTarget V} {next : Nat}

theorem le_copyBuckets (ws : List (PDBVector V)) : ∀ {cap outer l next b : Nat},
    b ≤ (copyBuckets c fail cap outer l ws next b).built := by
  induction ws with
  | nil =>
    intro cap outer l next b
    exact Nat.le_refl b
  | cons w ws ih =>
    intro cap outer l next b
    rw [copyBuckets]
    cases (fail (.listArray l)).isSome with
    | true => exact Nat.le_refl b
    | false =>
      rw [if_neg Bool.false_ne_true]
      have hle := @JoinPairArray.le_copyItems V c (fun j => fail (.item l j)) w.items 0 (next + 1) b
      cases hitems : JoinPairArray.copyItems c (fun j => fail (.item l j)) 0 w.items (next + 1) b with
      | notEnoughSpace b₁ =>
        rw [hitems] at hle
        exact hle
      | copied items n₁ b₁ =>
        rw [hitems] at hle
        have hle₁ : b ≤ b₁ := hle
        dsimp only
        cases (fail (.push l)).isSome with
        | true => exact hle
        | false =>
          rw [if_neg Bool.false_ne_true]
          obtain ⟨cap', hcap⟩ : ∃ x, x = if l = cap then cap * 2 else cap := ⟨_, rfl⟩
          obtain ⟨outer', houter⟩ : ∃ x, x = if l = cap then n₁ else outer := ⟨_, rfl⟩
          obtain ⟨b₂, hb₂⟩ : ∃ x, x = b₁ + 1 + if l = cap then l else 0 := ⟨_, rfl⟩
          have hrest := @ih cap' outer' (l + 1) (n₁ + 2) b₂
          rw [← hcap, ← houter, ← hb₂]
          have hle₂ : b ≤ b₂ := by omega
          cases hrun : copyBuckets c fail cap' outer' (l + 1) ws (n₁ + 2) b₂ with
          | notEnoughSpace b' =>
            rw [hrun] at hrest
            exact hle₂.trans hrest
          | copied ls o cap'' n b' =>
            rw [hrun] at hrest
            exact hle₂.trans hrest

/-- the slots leave the lists as they are -/
theorem finishCopy_lists {outer cap : Nat} {lists : List (Nat × PDBVector V)}
    (h : JoinPairArray.finishCopy c fail copyMe t outer cap lists next = .notEnoughSpace t') :
    t'.lists = t.lists := by
  unfold JoinPairArray.finishCopy at h
  cases hrun : JoinPairArray.copySlotsTo c fail copyMe (List.range copyMe.numSlots) t next with
  | ret t₁ next₁ =>
    rw [hrun] at h
    cases h
  | notEnoughSpace t₁ =>
    rw [hrun] at h
    cases h
    obtain ⟨pre, i, post, -, hat⟩ := JoinPairArray.copySlotsTo_throws _ List.nodup_range hrun
    exact hat.lists

/-- **A copy by `deepCopyJoinMap` that throws**: the overflows that the constructor has made are lost
as soon as there is a table. -/
theorem deepCopyJoinMap_destroys (hblank : ∀ o, ¬ t.Constructed o)
    (h : deepCopyJoinMap c fail copyMe t next = .notEnoughSpace t') :
    DestroysExactly (t'.destroyed copyMe.numSlots) t'.Constructed ↔
      ((fail .map).isSome || (fail .table).isSome) = true := by
  unfold deepCopyJoinMap at h
  by_cases htable : ((fail .map).isSome || (fail .table).isSome) = true
  · rw [if_pos htable] at h
    cases h
    refine ⟨fun _ => htable, fun _ => JoinTarget.destroysExactly_iff.mpr ⟨?_, fun i => ?_⟩⟩
    · by_contra hne
      exact hblank (.list 0) (Nat.pos_of_ne_zero hne)
    · exact ⟨fun hv => absurd hv (hblank (.slot i)), fun hv => Bool.noConfusion hv.1⟩
  · rw [if_neg htable] at h
    dsimp only at h
    have hlists : 1 ≤ t'.lists := by
      cases hover : (fail .overflows).isSome with
      | true =>
        rw [hover, if_pos rfl] at h
        cases h
        exact Nat.le_refl 1
      | false =>
        rw [hover, if_neg Bool.false_ne_true] at h
        have hle := @le_copyBuckets V c fail copyMe.overflows.items 1 (next + 5) 0 (next + 6) 1
        cases hrun : copyBuckets c fail 1 (next + 5) 0 copyMe.overflows.items (next + 6) 1 with
        | notEnoughSpace b =>
          rw [hrun] at h hle
          cases h
          exact hle
        | copied ls o cap n b =>
          rw [hrun] at h hle
          rw [finishCopy_lists h]
          exact hle
    refine ⟨fun hd => ?_, fun hno => absurd hno htable⟩
    have := (JoinTarget.destroysExactly_iff.mp hd).1
    omega


end JoinMap

section
variable {K V W : Type*}

/-- **A deep copy that throws**, into memory in which nothing has been constructed: when its
destructor destroys what was constructed. -/
theorem failedCopy_destroys :
    (∀ (ck : Constituent K) (cv : Constituent V) (fail : PairArray.CopyFail) (fromMe : PairArray K V)
      (t t' : PairTarget K V) (next : Nat), (∀ o, ¬ t.Constructed o) →
      PairArray.setUpAndCopyFrom ck cv fail fromMe t next = .notEnoughSpace t' →
      (DestroysExactly (t'.destroyed ck.descendsFromObject cv.descendsFromObject fromMe.numSlots)
        t'.Constructed ↔
        PairArray.FirstObjectFails ck fail fromMe (List.range fromMe.numSlots))) ∧
    (∀ (c : Constituent W) (fail : JoinCopyFail) (s : StoredJoin W) (t t' : JoinTarget W)
      (start next : Nat), (∀ o, ¬ t.Constructed o) →
      JoinPairArray.setUpAndCopyFrom start c fail s t next = .notEnoughSpace t' →
      (DestroysExactly (t'.destroyed s.table.numSlots) t'.Constructed ↔
        JoinPairArray.CopyDestroys start c fail s t)) ∧
    ∀ (c : Constituent W) (fail : JoinCopyFail) (copyMe : JoinPairArray W) (t t' : JoinTarget W)
      (next : Nat), (∀ o, ¬ t.Constructed o) →
      JoinMap.deepCopyJoinMap c fail copyMe t next = .notEnoughSpace t' →
      (DestroysExactly (t'.destroyed copyMe.numSlots) t'.Constructed ↔
        ((fail .map).isSome || (fail .table).isSome) = true) :=
  ⟨fun _ _ _ _ _ _ _ hblank h => PairArray.pairCopy_destroys hblank h,
    fun _ _ _ _ _ _ _ hblank h => JoinPairArray.joinCopy_destroys hblank h,
    fun _ _ _ _ _ _ hblank h => JoinMap.deepCopyJoinMap_destroys hblank h⟩

end

/-- numbers in objects of their own -/
def boxType : Constituent Nat := ⟨true, fun v next => (v, next + 1), id, fun v => {v}⟩

/-- memory that is not initialised; every slot has the hash `hash` -/
def rawTable (hash : Nat) : JoinTarget Nat := ⟨fun _ => ⟨hash, 0, 0⟩, false, fun _ => false, 0⟩

theorem rawTable_blank (hash : Nat) (o : JoinObject) : ¬ (rawTable hash).Constructed o := by
  cases o with
  | slot i => exact Bool.false_ne_true
  | list k => exact Nat.not_lt_zero k

/-- the value in slot `2` is constructed, and does not get its storage -/
def failAtTwo : JoinCopyFail := fun site => if site = .value 2 then some true else none

/-- nothing fits: the first value of a map; slots that look unused; no table -/
theorem failedCopy_destroys_nothing :
    (∃ (a : PairArray Nat Nat) (t' : PairTarget Nat Nat),
      PairArray.setUpAndCopyFrom numberType boxType (fun _ => some false) a
        ⟨fun _ => ⟨0, 0, 0⟩, fun _ => false, fun _ => false⟩ 20 = .notEnoughSpace t' ∧
      DestroysExactly (t'.destroyed false true a.numSlots) t'.Constructed) ∧
    (∃ (m : JoinMap Nat) (t' : JoinTarget Nat), m.lookup 5 = some [50] ∧
      JoinPairArray.setUpAndCopyFrom 10 boxType failAtTwo ⟨m.myArray, 0, 1, fun _ => 2⟩
        (rawTable JM_UNUSED) 20 = .notEnoughSpace t' ∧ t'.destroyed 4 = [.slot 2] ∧
      DestroysExactly (t'.destroyed m.myArray.numSlots) t'.Constructed) ∧
    ∃ (m : JoinMap Nat) (t' : JoinTarget Nat), m.lookup 5 = some [50] ∧
      JoinMap.deepCopyJoinMap boxType (fun _ => some false) m.myArray (rawTable 0) 20 =
        .notEnoughSpace t' ∧
      DestroysExactly (t'.destroyed m.myArray.numSlots) t'.Constructed := by
  obtain ⟨hpair, hjoin, hmap⟩ := failedCopy_destroys (K := Nat) (V := Nat) (W := Nat)
  have hsome : (oneHash.map fun m => (m.lookup 5, m.myArray.numSlots)) = some (some [50], 4) := by
    decide +kernel
  obtain ⟨m, hm, hfacts⟩ := Option.map_eq_some_iff.mp hsome
  obtain ⟨hlook, hfour⟩ := Prod.mk.inj hfacts
  refine ⟨?_, ⟨m, ?_⟩, ⟨m, ?_⟩⟩
  · obtain ⟨a, ha⟩ : ∃ a : PairArray Nat Nat, a = ⟨⟨16, 32, 0, by decide⟩, 1, 2, 1,
      fun _ => ⟨7, 7, 7⟩⟩ := ⟨_, rfl⟩
    have hnum : a.numSlots = 2 := by rw [ha]
    obtain ⟨t', ht'⟩ : ∃ t', PairArray.setUpAndCopyFrom numberType boxType (fun _ => some false) a
        ⟨fun _ => ⟨0, 0, 0⟩, fun _ => false, fun _ => false⟩ 20 = .notEnoughSpace t' := by
      rw [ha]
      exact ⟨_, rfl⟩
    refine ⟨a, t', ht', (hpair _ _ _ _ _ _ _ ?_ ht').mpr ?_⟩
    · rintro ⟨i, part⟩
      cases part with
      | key => exact Bool.false_ne_true
      | value => exact Bool.false_ne_true
    · rw [hnum, ha]
      exact ⟨0, by decide, rfl⟩
  · have hrun : (oneHash.bind fun m =>
        match JoinPairArray.setUpAndCopyFrom 10 boxType failAtTwo ⟨m.myArray, 0, 1, fun _ => 2⟩
          (rawTable JM_UNUSED) 20 with
        | .ret _ _ _ _ => none
        | .notEnoughSpace t => some (t.destroyed 4, decide (m.myArray.Used 2),
            m.myArray.overflows.items.length, decide (m.myArray.Used 0), decide (m.myArray.Used 1))) =
        some ([.slot 2], true, 0, false, false) := by decide +kernel
    rw [hm, Option.bind_some] at hrun
    cases hcopy : JoinPairArray.setUpAndCopyFrom 10 boxType failAtTwo
        ⟨m.myArray, 0, 1, fun _ => 2⟩ (rawTable JM_UNUSED) 20 with
    | ret t o cap ls =>
      rw [hcopy] at hrun
      cases hrun
    | notEnoughSpace t' =>
      rw [hcopy] at hrun
      simp only [Option.some.injEq, Prod.mk.injEq, decide_eq_true_eq, decide_eq_false_iff_not] at hrun
      obtain ⟨hdes, hu2, hnil, hu0, hu1⟩ := hrun
      refine ⟨t', hlook, rfl, hdes, (hjoin _ _ _ _ _ _ _ (rawTable_blank _) hcopy).mpr ?_⟩
      refine .inr (.inr ⟨.inr ⟨rfl, List.length_eq_zero_iff.mp hnil⟩, 2, ?_, hu2, rfl, ?_, ?_⟩)
      · show 2 < m.myArray.numSlots
        omega
      · intro j hj hu
        obtain rfl | rfl : j = 0 ∨ j = 1 := by omega
        · exact absurd hu hu0
        · exact absurd hu hu1
      · exact fun _ _ _ => rfl
  · cases hcopy : JoinMap.deepCopyJoinMap boxType (fun _ => some false) m.myArray (rawTable 0) 20 with
    | ret t o cap ls => cases hcopy
    | notEnoughSpace t' =>
      exact ⟨t', hlook, rfl, (hmap _ _ _ _ _ _ (rawTable_blank 0) hcopy).mpr rfl⟩

/-- **The value of slot `2` does not fit**: the destructor visits slot `3`, which nothing has been
written to -/
theorem failedCopy_not_always :
    ∃ (m : JoinMap Nat) (t' : JoinTarget Nat), m.lookup 5 = some [50] ∧
      (∀ o, ¬ (rawTable 0).Constructed o) ∧
      JoinPairArray.setUpAndCopyFrom 10 boxType failAtTwo ⟨m.myArray, 0, 1, fun _ => 2⟩
        (rawTable 0) 20 = .notEnoughSpace t' ∧
      t'.destroyed m.myArray.numSlots = [.slot 2, .slot 3] ∧ ¬ t'.Constructed (.slot 3) ∧
      ¬ DestroysExactly (t'.destroyed m.myArray.numSlots) t'.Constructed := by
  have hrun : (oneHash.bind fun m =>
      match JoinPairArray.setUpAndCopyFrom 10 boxType failAtTwo ⟨m.myArray, 0, 1, fun _ => 2⟩
        (rawTable 0) 20 with
      | .ret _ _ _ _ => none
      | .notEnoughSpace t => some (t.destroyed m.myArray.numSlots, t.values 3, m.lookup 5)) =
      some ([.slot 2, .slot 3], false, some [50]) := by decide +kernel
  obtain ⟨m, hm, hrun⟩ := Option.bind_eq_some_iff.mp hrun
  cases hcopy : JoinPairArray.setUpAndCopyFrom 10 boxType failAtTwo
      ⟨m.myArray, 0, 1, fun _ => 2⟩ (rawTable 0) 20 with
  | ret t o cap ls =>
    rw [hcopy] at hrun
    cases hrun
  | notEnoughSpace t' =>
    rw [hcopy] at hrun
    simp only [Option.some.injEq, Prod.mk.injEq] at hrun
    obtain ⟨hdes, hval, hlook⟩ := hrun
    have hno : ¬ t'.Constructed (.slot 3) := by
      rw [JoinTarget.Constructed, hval]
      exact Bool.false_ne_true
    refine ⟨m, t', hlook, rawTable_blank 0, hcopy, hdes, hno, fun hd => hno ((hd.2 (.slot 3)).mp ?_)⟩
    rw [hdes]
    decide

end Netsdb
