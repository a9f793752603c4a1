import Netsdb.ObjectModel.HandleFrame

/-!
# Pointing a handle to something, with the deep copy

While nothing is being destroyed (`Calm`), the shared part of constructors and assignments keeps
the counts exact, but for the handle's old target, which loses one.

* `shallowCopies`    the handles to an object that a deep copy will make;
* `copyDepthLE`      how deep a deep copy goes;
* `Grows`            what a copy leaves alone: all handles but the one it is about;
* `pointTo_spec`     the counts, and what the handle points to afterwards.
-/

namespace Netsdb
open Finset

/-- does the handle count for `a`? -/
def holds (h : Handle) (a : Nat) : Nat := if h.target = .obj a then 1 else 0

theorem holds_before {h : Handle} {l : Loc} (e : h.target = .before l) (a : Nat) :
    holds h a = 0 := by
  simp [holds, e]

theorem refsOf_set {l : List Handle} {i : Nat} {old : Handle} (h : l[i]? = some old) (x : Handle)
    (a : Nat) : refsOf (l.set i x) a + holds old a = refsOf l a + holds x a := by
  obtain ⟨hi, he⟩ := List.getElem?_eq_some_iff.mp h
  have hcount := List.countP_set (p := fun h : Handle => decide (h.target = .obj a)) (a := x) hi
  rw [he] at hcount
  have hpos : (if decide (old.target = .obj a) = true then 1 else 0) ≤ refsOf l a := by
    split
    · next hc =>
      exact List.countP_pos_iff.mpr ⟨old, List.mem_of_getElem? h, hc⟩
    · exact Nat.zero_le _
  unfold refsOf holds at *
  simp only [decide_eq_true_eq] at hcount hpos
  omega

namespace Store

/-- no destructor is running -/
def Calm (s : Store) : Prop := ∀ a o, s.objs a = some o → ¬ s.isDying o

section
variable {s : Store} {l : Loc} {x old : Handle} {a : Nat} {o : RefCountedObject}

/-! ## writing one handle -/

theorem Calm.memberRefs (h : s.Calm) (ha : s.objs a = some o) (b : Nat) :
    s.memberRefs b (s.objs a) = refsOf o.fields b := by
  rw [ha]
  exact memberRefs_of_not_dying (h a o ha) b

theorem setHandle_isDying (s : Store) (l : Loc) (x : Handle) (o : RefCountedObject) :
    (s.setHandle l x).isDying o ↔ s.isDying o := by
  simp only [isDying, setHandle_managedBlock]

theorem setHandle_rc (s : Store) (l : Loc) (x : Handle) (a : Nat) :
    (s.setHandle l x).rc a = s.rc a := by
  simp only [rc, setHandle_objs]
  cases s.objs a <;> rfl

theorem Calm.setHandle (h : s.Calm) (l : Loc) (x : Handle) : (s.setHandle l x).Calm := by
  intro a o ho hd
  rw [setHandle_objs] at ho
  obtain ⟨o', ho', rfl⟩ := Option.map_eq_some_iff.mp ho
  exact h a o' ho' ((setHandle_isDying s l x _).mp hd)

theorem setHandle_fixed (s : Store) (l : Loc) (x : Handle) :
    (s.setHandle l x).next = s.next ∧ (s.setHandle l x).numRoots = s.numRoots ∧
      (s.setHandle l x).active = s.active ∧ (s.setHandle l x).inactive = s.inactive ∧
      (s.setHandle l x).freed = s.freed ∧ (s.setHandle l x).deleted = s.deleted ∧
      (s.setHandle l x).stray = s.stray := by
  cases l with
  | root n =>
    simp only [Store.setHandle]
    cases s.roots n <;> simp
  | field b i =>
    simp only [Store.setHandle]
    cases s.objs b <;> simp [setObj]

theorem setHandle_counted (s : Store) (l : Loc) (x : Handle) (a : Nat) :
    (s.setHandle l x).Counted a ↔ s.Counted a := by
  unfold Counted
  simp only [setHandle_objs, setHandle_managedBlock, Option.map_eq_some_iff]
  constructor
  · intro h o ho
    have hm := h _ ⟨o, ho, rfl⟩
    exact hm
  · rintro h o ⟨o', ho', rfl⟩
    exact h o' ho'

/-- the census after one handle has been written -/
theorem census_setHandle (h : s.Sane) (hc : s.Calm) (hl : s.handleAt l = some old) (x : Handle)
    (a : Nat) : (s.setHandle l x).census a + holds old a = s.census a + holds x a := by
  cases l with
  | root n =>
    obtain ⟨r, hr, rfl⟩ := Option.map_eq_some_iff.mp hl
    have hset : s.setHandle (.root n) x =
        { s with roots := Function.update s.roots n (some { r with handle := x }) } := by
      simp only [setHandle, hr]
    have hsum := sum_range_update (rootRefs a) s.roots (h.roots_lt n r hr)
      (some { r with handle := x })
    have hcen : (s.setHandle (.root n) x).census a =
        ∑ m ∈ range s.numRoots,
          rootRefs a (Function.update s.roots n (some { r with handle := x }) m) +
        ∑ b ∈ range s.next, s.memberRefs a (s.objs b) := by
      rw [hset]
      rfl
    rw [hcen]
    rw [hr] at hsum
    unfold census holds
    simp only [rootRefs] at hsum ⊢
    omega
  | field b i =>
    obtain ⟨o, ho, hi⟩ := Option.bind_eq_some_iff.mp hl
    have hset : s.setHandle (.field b i) x = s.setObj b { o with fields := o.fields.set i x } := by
      simp only [setHandle, ho]
    have hnd := hc b o ho
    have hsum := census_setObj (o := { o with fields := o.fields.set i x }) (h.objs_lt b o ho) a
    have hnew : s.memberRefs a (some { o with fields := o.fields.set i x }) =
        refsOf (o.fields.set i x) a :=
      memberRefs_of_not_dying (o := { o with fields := o.fields.set i x }) hnd a
    rw [hnew, ho, memberRefs_of_not_dying hnd] at hsum
    have hrefs := refsOf_set hi x a
    rw [hset]
    omega

/-- a handle may be written where its type's destructor will find it -/
def CanHold (s : Store) (l : Loc) (x : Handle) : Prop :=
  (∃ m, x.target = .before m) ∨
    ∀ b i o, l = .field b i → s.objs b = some o → destroysMembers o.typeInfo = true

theorem setHandle_roots (s : Store) (l : Loc) (x : Handle) (n : Nat) (r : Root)
    (hr : (s.setHandle l x).roots n = some r) :
    ∃ r', s.roots n = some r' ∧ r'.block = r.block ∧
      (r.handle = r'.handle ∨ l = .root n ∧ r.handle = x) := by
  cases l with
  | field b i =>
    have hsame : (s.setHandle (.field b i) x).roots = s.roots := by
      simp only [setHandle]
      cases s.objs b <;> rfl
    rw [hsame] at hr
    exact ⟨r, hr, rfl, Or.inl rfl⟩
  | root m =>
    simp only [setHandle] at hr
    cases hm : s.roots m with
    | none =>
      rw [hm] at hr
      exact ⟨r, hr, rfl, Or.inl rfl⟩
    | some r' =>
      simp only [hm] at hr
      by_cases e : n = m
      · subst e
        rw [Function.update_self] at hr
        cases hr
        exact ⟨r', hm, rfl, Or.inr ⟨rfl, rfl⟩⟩
      · rw [Function.update_of_ne e] at hr
        exact ⟨r, hr, rfl, Or.inl rfl⟩

theorem setHandle_proper {m : Loc} {y : Handle} (h : s.Proper m y) :
    (s.setHandle l x).Proper m y := by
  rcases h with h | ⟨b, hb, ht⟩
  · exact Or.inl h
  · refine Or.inr ⟨b, hb, fun o ho => ?_⟩
    rw [setHandle_objs] at ho
    obtain ⟨o', ho', rfl⟩ := Option.map_eq_some_iff.mp ho
    exact ht o' ho'

theorem Sane.setHandle (h : s.Sane) (hp : s.Proper l x) (hh : s.CanHold l x) :
    (s.setHandle l x).Sane := by
  obtain ⟨f1, f2, f3, f4, f5, f6, f7⟩ := setHandle_fixed s l x
  have hobj : ∀ c y, (s.setHandle l x).objs c = some y → ∃ y', s.objs c = some y' ∧
      y.refCount = y'.refCount ∧ y.typeInfo = y'.typeInfo ∧
      ∀ i z, y.fields[i]? = some z → y'.fields[i]? = some z ∨ (l = .field c i ∧ z = x) := by
    intro c y hy
    rw [setHandle_objs] at hy
    obtain ⟨y', hy', rfl⟩ := Option.map_eq_some_iff.mp hy
    refine ⟨y', hy', rfl, rfl, fun i z hz => ?_⟩
    cases l with
    | root n => exact Or.inl hz
    | field b j =>
      by_cases e : c = b
      · subst e
        simp only [if_true] at hz
        by_cases e' : i = j
        · subst e'
          right
          obtain ⟨hi, he⟩ := List.getElem?_eq_some_iff.mp hz
          rw [List.getElem_set_self] at he
          exact ⟨rfl, he.symm⟩
        · left
          rwa [List.getElem?_set_ne (fun e => e' e.symm)] at hz
      · simp only [if_neg e] at hz
        exact Or.inl hz
  refine ⟨?_, ?_, ?_, ?_, ?_, ?_, ?_, ?_, ?_, ?_, ?_⟩
  · intro c y hy
    obtain ⟨y', hy', -⟩ := hobj c y hy
    rw [f1]
    exact h.objs_lt c y' hy'
  · intro c y hy
    obtain ⟨y', hy', e, -⟩ := hobj c y hy
    rw [e]
    exact h.counts_lt c y' hy'
  · intro n r hr
    obtain ⟨r', hr', -⟩ := setHandle_roots s l x n r hr
    rw [f2]
    exact h.roots_lt n r' hr'
  · intro n r hr
    obtain ⟨r', hr', -, e | ⟨e1, e2⟩⟩ := setHandle_roots s l x n r hr
    · rw [e]
      exact setHandle_proper (h.roots_ok n r' hr')
    · rw [e2, ← e1]
      exact setHandle_proper hp
  · intro c y i z hy hz
    obtain ⟨y', hy', -, -, hf⟩ := hobj c y hy
    rcases hf i z hz with hz' | ⟨e1, e2⟩
    · exact setHandle_proper (h.fields_ok c y' i z hy' hz')
    · rw [e2, ← e1]
      exact setHandle_proper hp
  · intro c y hy hdm z hz b hb
    obtain ⟨y', hy', -, et, hf⟩ := hobj c y hy
    obtain ⟨i, hi⟩ := List.mem_iff_getElem?.mp hz
    rw [et] at hdm
    rcases hf i z hi with hz' | ⟨e1, e2⟩
    · exact h.members c y' hy' hdm z (List.mem_of_getElem? hz') b hb
    · rcases hh with ⟨m, hm⟩ | hh
      · rw [e2, hm] at hb
        cases hb
      · rw [hh c i y' e1 hy'] at hdm
        cases hdm
  · rw [f5]
    exact h.freed_nodup
  · intro c
    rw [f5, f1, setHandle_objs, Option.map_eq_none_iff]
    exact h.freed_iff c
  · rw [f6]
    exact h.deleted_nodup
  · intro c
    have hdy : (s.setHandle l x).Dying c ↔ s.Dying c := by
      unfold Dying
      simp only [setHandle_objs, Option.map_eq_some_iff, setHandle_isDying]
      constructor
      · rintro ⟨y, ⟨y', hy', rfl⟩, hd⟩
        exact ⟨y', hy', hd⟩
      · rintro ⟨y', hy', hd⟩
        exact ⟨_, ⟨y', hy', rfl⟩, hd⟩
    rw [f6, f5, hdy]
    exact h.deleted_iff c
  · rw [f7]
    exact h.stray

/-! ## what a copy leaves alone -/

/-- from `s` to `s'` only the handles at places in `P` were written; counts may have changed and
objects were added -/
structure Grows (P : Loc → Prop) (s s' : Store) : Prop where
  next : s.next ≤ s'.next
  active : s'.active = s.active
  inactive : s'.inactive = s.inactive
  objs : ∀ a o, s.objs a = some o → ∃ o', s'.objs a = some o' ∧ o'.block = o.block ∧
    o'.typeInfo = o.typeInfo ∧ o'.data = o.data ∧ o'.fields.length = o.fields.length
  old : ∀ a, a < s.next → s.objs a = none → s'.objs a = none
  new : ∀ a o, s.next ≤ a → s'.objs a = some o → o.block = s.active
  handles : ∀ l h, ¬ P l → s.handleAt l = some h → s'.handleAt l = some h

theorem Sane.grows_refl (h : s.Sane) (P : Loc → Prop) : Grows P s s where
  next := Nat.le_refl _
  active := rfl
  inactive := rfl
  objs := fun _ o ho => ⟨o, ho, rfl, rfl, rfl, rfl⟩
  old := fun _ _ ho => ho
  new := fun a o ha ho => absurd (h.objs_lt a o ho) (Nat.not_lt_of_le ha)
  handles := fun _ _ _ hl => hl

theorem Grows.trans {P : Loc → Prop} {s s' s'' : Store} (h : Grows P s s') (h' : Grows P s' s'') :
    Grows P s s'' where
  next := h.next.trans h'.next
  active := h'.active.trans h.active
  inactive := h'.inactive.trans h.inactive
  objs := by
    intro a o ho
    obtain ⟨o', ho', e1, e2, e3, e4⟩ := h.objs a o ho
    obtain ⟨o'', ho'', e5, e6, e7, e8⟩ := h'.objs a o' ho'
    exact ⟨o'', ho'', e5.trans e1, e6.trans e2, e7.trans e3, e8.trans e4⟩
  old := fun a ha ho => h'.old a (Nat.lt_of_lt_of_le ha h.next) (h.old a ha ho)
  new := by
    intro a o'' ha ho''
    by_cases hlt : a < s'.next
    · cases ho' : s'.objs a with
      | none =>
        rw [h'.old a hlt ho'] at ho''
        cases ho''
      | some o' =>
        obtain ⟨y, hy, e, -⟩ := h'.objs a o' ho'
        rw [ho''] at hy
        cases hy
        rw [e]
        exact h.new a o' ha ho'
    · rw [h'.new a o'' (Nat.le_of_not_lt hlt) ho'', h.active]
  handles := fun l x hl hx => h'.handles l x hl (h.handles l x hl hx)

theorem Grows.mono {P Q : Loc → Prop} {s s' : Store} (h : Grows P s s') (hpq : ∀ l, P l → Q l) :
    Grows Q s s' :=
  ⟨h.next, h.active, h.inactive, h.objs, h.old, h.new,
    fun l x hl => h.handles l x fun hp => hl (hpq l hp)⟩

theorem Grows.managedBlock {P : Loc → Prop} {s s' : Store} (h : Grows P s s') (b : Nat) :
    s'.managedBlock b = s.managedBlock b := by
  simp [Store.managedBlock, h.active, h.inactive]

theorem Grows.contains {P : Loc → Prop} {s s' : Store} (h : Grows P s s') (ha : s.objs a = some o) :
    s'.contains (.obj a) = s.contains (.obj a) := by
  obtain ⟨o', ho', e, -⟩ := h.objs a o ha
  simp [Store.contains, ha, ho', e, h.active]

theorem Grows.counted {P : Loc → Prop} {s s' : Store} (h : Grows P s s') (ha : a < s.next) :
    s'.Counted a ↔ s.Counted a := by
  cases hx : s.objs a with
  | none =>
    have hx' := h.old a ha hx
    simp [Counted, hx, hx']
  | some o =>
    obtain ⟨o', ho', e, -⟩ := h.objs a o hx
    simp [Counted, hx, ho', e, h.managedBlock]

/-- an object none of whose members is in `P` keeps all its handles -/
theorem Grows.fields {P : Loc → Prop} {s s' : Store} (h : Grows P s s') {o' : RefCountedObject}
    (ha : s.objs a = some o) (ha' : s'.objs a = some o') (hp : ∀ i, ¬ P (.field a i)) :
    o'.fields = o.fields := by
  obtain ⟨o'', ho'', -, -, -, hlen⟩ := h.objs a o ha
  rw [ha'] at ho''
  cases ho''
  refine List.ext_getElem? fun i => ?_
  cases hi : o.fields[i]? with
  | none =>
    rw [List.getElem?_eq_none_iff] at hi ⊢
    omega
  | some y =>
    have hat : s.handleAt (.field a i) = some y := by
      simp [handleAt, ha, hi]
    have := h.handles _ y (hp i) hat
    simpa [handleAt, ha'] using this

theorem Sane.setHandle_grows (h : s.Sane) (l : Loc) (x : Handle) :
    Grows (· = l) s (s.setHandle l x) := by
  obtain ⟨f1, -, f3, f4, -⟩ := setHandle_fixed s l x
  refine ⟨Nat.le_of_eq f1.symm, f3, f4, ?_, ?_, ?_, ?_⟩
  · intro a o ho
    have hobj := setHandle_objs s l x a
    rw [ho] at hobj
    refine ⟨_, hobj, rfl, rfl, rfl, ?_⟩
    cases l with
    | root n => rfl
    | field b i =>
      simp only
      split
      · exact List.length_set
      · rfl
  · intro a _ ho
    rw [setHandle_objs, ho]
    rfl
  · intro a o ha ho
    rw [setHandle_objs] at ho
    obtain ⟨o', ho', -⟩ := Option.map_eq_some_iff.mp ho
    exact absurd (h.objs_lt a o' ho') (Nat.not_lt_of_le ha)
  · intro m y hm hy
    cases m with
    | root n =>
      cases l with
      | field b i =>
        simp only [Store.setHandle]
        cases s.objs b <;> exact hy
      | root k =>
        have e : n ≠ k := by
          rintro rfl
          exact hm rfl
        simp only [Store.setHandle]
        cases hk : s.roots k with
        | none => exact hy
        | some r => simpa [handleAt, e] using hy
    | field c j =>
      obtain ⟨o, ho, hj⟩ := Option.bind_eq_some_iff.mp hy
      simp only [handleAt, setHandle_objs, ho, Option.map_some, Option.bind_some]
      cases l with
      | root n => exact hj
      | field b i =>
        by_cases e : c = b
        · subst e
          have e' : i ≠ j := by
            rintro rfl
            exact hm rfl
          simpa [List.getElem?_set_ne e'] using hj
        · simpa [e] using hj

/-! ## one more reference -/

theorem incRefCount_obj (ha : s.objs a = some o) : s.incRefCount (.obj a) =
    if s.managedBlock o.block = true then s.setObj a { o with refCount := u32 (o.refCount + 1) }
    else s := by
  simp only [incRefCount, isManaged_obj_some ha, ha]

theorem Sane.setCount_grows (h : s.Sane) (ha : s.objs a = some o) (n : Nat) :
    Grows (fun _ => False) s (s.setObj a { o with refCount := n }) := by
  refine ⟨Nat.le_refl _, rfl, rfl, ?_, ?_, ?_, ?_⟩
  · intro b y hy
    by_cases e : b = a
    · subst e
      rw [ha] at hy
      cases hy
      exact ⟨_, Function.update_self _ _ _, rfl, rfl, rfl, rfl⟩
    · exact ⟨y, by rw [setObj_objs, Function.update_of_ne e, hy], rfl, rfl, rfl, rfl⟩
  · intro b _ hb
    exact (setObj_none_iff ha b).mpr hb
  · intro b y hb hy
    obtain ⟨y', hy', -⟩ := sameShape_setCount ha n b y hy
    exact absurd (h.objs_lt b y' hy') (Nat.not_lt_of_le hb)
  · intro l y _ hy
    cases l with
    | root n => exact hy
    | field b i =>
      by_cases e : b = a
      · subst e
        simpa [handleAt, ha] using hy
      · simpa [handleAt, e] using hy

/-- **`incRefCount` of an object that is there.** -/
theorem incRefCount_spec (h : s.Sane) (hc : s.Calm) (ha : s.objs a = some o)
    (hroom : s.Counted a → s.rc a + 1 < 2^32) :
    (s.incRefCount (.obj a)).Sane ∧ (s.incRefCount (.obj a)).Calm ∧
      Grows (fun _ => False) s (s.incRefCount (.obj a)) ∧
      (∀ b, (s.incRefCount (.obj a)).census b = s.census b) ∧
      ∀ b, s.Counted b → (s.incRefCount (.obj a)).rc b = s.rc b + if a = b then 1 else 0 := by
  rw [incRefCount_obj ha]
  by_cases hm : s.managedBlock o.block = true
  · rw [if_pos hm]
    have hcounted : s.Counted a := by
      intro o' ho'
      rw [ha] at ho'
      cases ho'
      exact hm
    have hlt := hroom hcounted
    rw [rc_eq ha] at hlt
    rw [u32_of_lt hlt]
    have hnd := hc a o ha
    have hkeep : s.isDying { o with refCount := o.refCount + 1 } ↔ s.isDying o := by
      constructor
      · rintro ⟨-, hz⟩
        cases hz
      · exact fun hd => absurd hd hnd
    refine ⟨h.setCount ha hlt hkeep, ?_, h.setCount_grows ha _, fun b => ?_, fun b _ => ?_⟩
    · intro b y hy hd
      by_cases e : b = a
      · subst e
        rw [setObj_objs, Function.update_self] at hy
        cases hy
        exact hnd (hkeep.mp hd)
      · rw [setObj_objs, Function.update_of_ne e] at hy
        exact hc b y hy hd
    · have hsum := census_setObj (o := { o with refCount := o.refCount + 1 }) (h.objs_lt a o ha) b
      have hsame : s.memberRefs b (some { o with refCount := o.refCount + 1 }) =
          s.memberRefs b (s.objs a) := by
        rw [ha]
        simp only [Store.memberRefs, hkeep]
      omega
    · rw [rc_setObj]
      by_cases e : b = a
      · subst e
        rw [if_pos rfl, if_pos rfl, rc_eq ha]
      · rw [if_neg e, if_neg (fun e' => e e'.symm)]
        rfl
  · rw [if_neg hm]
    refine ⟨h, hc, h.grows_refl _, fun _ => rfl, fun b hb => ?_⟩
    have e : a ≠ b := by
      rintro rfl
      exact hm (hb o ha)
    rw [if_neg e]
    rfl

/-! ## a new object -/

/-- a store with one more object -/
def born (s : Store) (o : RefCountedObject) : Store :=
  { s with objs := Function.update s.objs s.next (some o), next := s.next + 1 }

theorem nullFields_getElem? {n k i : Nat} {y : Handle} (h : (nullFields n k)[i]? = some y) :
    y = nullHandle (.field n i) := by
  simp only [nullFields, List.getElem?_map, Option.map_eq_some_iff] at h
  obtain ⟨j, hj, rfl⟩ := h
  obtain ⟨hi, rfl⟩ := List.getElem?_eq_some_iff.mp hj
  simp

theorem refsOf_nullFields (n k a : Nat) : refsOf (nullFields n k) a = 0 := by
  refine refsOf_eq_zero (fun x hx b hb => ?_) a
  obtain ⟨i, hi⟩ := List.mem_iff_getElem?.mp hx
  rw [nullFields_getElem? hi] at hb
  cases hb

/-- a handle is counted -/
theorem holds_le_census (h : s.Sane) (hc : s.Calm) (hl : s.handleAt l = some x) (a : Nat) :
    holds x a ≤ s.census a := by
  cases l with
  | root n =>
    obtain ⟨r, hr, rfl⟩ := Option.map_eq_some_iff.mp hl
    have hle := le_sum_range (fun m => rootRefs a (s.roots m)) (h.roots_lt n r hr)
    have hone : rootRefs a (s.roots n) = holds r.handle a := by
      rw [hr]
      rfl
    simp only [hone] at hle
    unfold census
    omega
  | field b i =>
    obtain ⟨o, ho, hi⟩ := Option.bind_eq_some_iff.mp hl
    have hle := le_sum_range (fun m => s.memberRefs a (s.objs m)) (h.objs_lt b o ho)
    simp only [hc.memberRefs ho] at hle
    have hone : holds x a ≤ refsOf o.fields a := by
      unfold holds
      split
      · next e =>
        exact List.countP_pos_iff.mpr ⟨x, List.mem_of_getElem? hi, by simpa using e⟩
      · exact Nat.zero_le _
    unfold census
    omega

/-- what a handle points to is there -/
theorem exists_of_handle {w : Nat → Nat} (h : s.Sane) (hc : s.Calm) (he : s.Exact w)
    (hl : s.handleAt l = some x) (hx : x.target = .obj a) : ∃ o, s.objs a = some o := by
  cases e : s.objs a with
  | some o => exact ⟨o, rfl⟩
  | none =>
    have hle := holds_le_census h hc hl a
    have hex := he a (fun o ho => by rw [e] at ho; cases ho)
    rw [holds, if_pos hx] at hle
    simp only [rc, e, Option.elim_none] at hex
    omega

/-- **A new object with null members and count one.** -/
theorem born_spec {w : Nat → Nat} (h : s.Sane) (hc : s.Calm) (he : s.Exact w) {k : Nat}
    (hcount : o.refCount = 1) (hf : o.fields = nullFields s.next k) (hb : o.block = s.active) :
    (s.born o).Sane ∧ (s.born o).Calm ∧ Grows (fun _ => False) s (s.born o) ∧
      (∀ b, (s.born o).census b = s.census b) ∧
      ∀ b, (s.born o).rc b = if b = s.next then 1 else s.rc b := by
  have hnone : s.objs s.next = none := by
    cases e : s.objs s.next with
    | none => rfl
    | some y => exact absurd (h.objs_lt _ y e) (Nat.lt_irrefl _)
  have hself : (s.born o).objs s.next = some o := Function.update_self _ _ _
  have hkeep : ∀ x, x ≠ s.next → (s.born o).objs x = s.objs x :=
    fun x e => Function.update_of_ne e _ _
  have hdying : ∀ y, (s.born o).isDying y ↔ s.isDying y := fun _ => Iff.rfl
  have hno : ¬ s.isDying o := fun hd => by
    have := hd.2
    omega
  have hproper : ∀ m y, s.handleAt m = some y → s.Proper m y → (s.born o).Proper m y := by
    rintro m y hm (hy | ⟨b, hb, ht⟩)
    · exact Or.inl hy
    · obtain ⟨ob, hob⟩ := exists_of_handle h hc he hm hb
      have e : b ≠ s.next := by
        rintro rfl
        rw [hnone] at hob
        cases hob
      exact Or.inr ⟨b, hb, fun y' hy' => ht y' (by rw [← hkeep b e]; exact hy')⟩
  have hcalm : (s.born o).Calm := by
    intro x y hy hd
    by_cases e : x = s.next
    · subst e
      rw [hself] at hy
      cases hy
      exact hno hd
    · rw [hkeep x e] at hy
      exact hc x y hy hd
  refine ⟨?_, hcalm, ?_, ?_, ?_⟩
  · refine ⟨?_, ?_, h.roots_lt, ?_, ?_, ?_, h.freed_nodup, ?_, h.deleted_nodup, ?_, h.stray⟩
    · intro x y hy
      show x < s.next + 1
      by_cases e : x = s.next
      · omega
      · rw [hkeep x e] at hy
        have := h.objs_lt x y hy
        omega
    · intro x y hy
      by_cases e : x = s.next
      · subst e
        rw [hself] at hy
        cases hy
        rw [hcount]
        decide
      · rw [hkeep x e] at hy
        exact h.counts_lt x y hy
    · intro n r hr
      have hr' : s.roots n = some r := hr
      exact hproper _ _ (by simp [handleAt, hr']) (h.roots_ok n r hr')
    · intro x y i z hy hz
      by_cases e : x = s.next
      · subst e
        rw [hself] at hy
        cases hy
        rw [hf] at hz
        rw [nullFields_getElem? hz]
        exact Or.inl rfl
      · rw [hkeep x e] at hy
        exact hproper _ _ (by simp [handleAt, hy, hz]) (h.fields_ok x y i z hy hz)
    · intro x y hy hdm z hz b hzb
      by_cases e : x = s.next
      · subst e
        rw [hself] at hy
        cases hy
        rw [hf] at hz
        obtain ⟨i, hi⟩ := List.mem_iff_getElem?.mp hz
        rw [nullFields_getElem? hi] at hzb
        cases hzb
      · rw [hkeep x e] at hy
        exact h.members x y hy hdm z hz b hzb
    · intro x
      show x ∈ s.freed ↔ x < s.next + 1 ∧ (s.born o).objs x = none
      rw [h.freed_iff x]
      by_cases e : x = s.next
      · subst e
        simp [hself]
      · rw [hkeep x e]
        have : x < s.next ↔ x < s.next + 1 := by omega
        rw [this]
    · intro x
      show x ∈ s.deleted ↔ x ∈ s.freed ∨ (s.born o).Dying x
      rw [h.deleted_iff x]
      have h1 : ¬ s.Dying x := fun ⟨y, hy, hd⟩ => hc x y hy hd
      have h2 : ¬ (s.born o).Dying x := fun ⟨y, hy, hd⟩ => hcalm x y hy hd
      simp [h1, h2]
  · refine ⟨Nat.le_succ _, rfl, rfl, ?_, ?_, ?_, ?_⟩
    · intro x y hy
      have e : x ≠ s.next := Nat.ne_of_lt (h.objs_lt x y hy)
      exact ⟨y, by rw [hkeep x e, hy], rfl, rfl, rfl, rfl⟩
    · intro x hx hn
      rw [hkeep x (Nat.ne_of_lt hx), hn]
    · intro x y hx hy
      by_cases e : x = s.next
      · subst e
        rw [hself] at hy
        cases hy
        exact hb
      · rw [hkeep x e] at hy
        exact absurd (h.objs_lt x y hy) (Nat.not_lt_of_le hx)
    · intro m y _ hy
      cases m with
      | root n => exact hy
      | field b i =>
        obtain ⟨y', hy', hi⟩ := Option.bind_eq_some_iff.mp hy
        have e : b ≠ s.next := Nat.ne_of_lt (h.objs_lt b y' hy')
        simp [handleAt, hkeep b e, hy', hi]
  · intro b
    have hsum : ∑ x ∈ range (s.next + 1), (s.born o).memberRefs b ((s.born o).objs x) =
        ∑ x ∈ range s.next, s.memberRefs b (s.objs x) := by
      rw [sum_range_succ, hself]
      have hlast : (s.born o).memberRefs b (some o) = 0 := by
        have hnd : ¬ (s.born o).isDying o := hno
        rw [memberRefs_of_not_dying hnd, hf, refsOf_nullFields]
      rw [hlast, Nat.add_zero]
      refine sum_congr rfl fun x hx => ?_
      rw [hkeep x (Nat.ne_of_lt (mem_range.mp hx))]
      rfl
    show _ + ∑ x ∈ range (s.next + 1), (s.born o).memberRefs b ((s.born o).objs x) = _
    rw [hsum]
    rfl
  · intro b
    by_cases e : b = s.next
    · subst e
      rw [if_pos rfl, rc_eq hself, hcount]
    · rw [if_neg e]
      simp only [rc, hkeep b e]

/-! ## how much a deep copy makes -/

/-- the handles to `a` that are made when a handle in the current block is pointed to `t`; `k`
bounds the depth -/
def shallowCopies : Nat → Store → Target → Nat → Nat
  | 0, _, _, _ => 0
  | k + 1, s, t, a =>
    if s.contains t then (if t = .obj a then 1 else 0)
    else
      match t with
      | .obj b =>
        match s.objs b with
        | some o => (o.fields.map fun h => shallowCopies k s h.target a).sum
        | none => 0
      | .before _ => 0

/-- the copy goes less than `k` objects deep -/
def copyDepthLE : Nat → Store → Target → Bool
  | 0, _, _ => false
  | k + 1, s, t =>
    match t with
    | .obj b =>
      s.contains (.obj b) ||
        match s.objs b with
        | some o => o.fields.all fun h => copyDepthLE k s h.target
        | none => true
    | .before _ => true

/-- the same for any handle: outside of the current block there is no deep copy -/
def added (k : Nat) (s : Store) (this : Loc) (t : Target) (a : Nat) : Nat :=
  if s.contains t = false ∧ s.containsLoc this = true then shallowCopies k s t a
  else if t = .obj a then 1 else 0

theorem shallowCopies_before (k : Nat) (s : Store) (m : Loc) (a : Nat) :
    shallowCopies k s (.before m) a = 0 := by
  cases k with
  | zero => rfl
  | succ k =>
    unfold shallowCopies
    split
    · simp
    · rfl

/-- what a handle points to is there -/
def NoDangling (s : Store) : Prop :=
  ∀ m y b, s.handleAt m = some y → y.target = .obj b → ∃ o, s.objs b = some o

/-- the places in `P` that are members belong to objects of the current block -/
def Near (s : Store) (P : Loc → Prop) : Prop :=
  ∀ b i o, P (.field b i) → s.objs b = some o → o.block = s.active

theorem handleAt_of_mem (ha : s.objs a = some o) {y : Handle} (hy : y ∈ o.fields) :
    ∃ i, s.handleAt (.field a i) = some y := by
  obtain ⟨i, hi⟩ := List.mem_iff_getElem?.mp hy
  exact ⟨i, by simp [handleAt, ha, hi]⟩

/-- an object outside of the current block keeps its handles -/
theorem Grows.far_fields {P : Loc → Prop} {s s' : Store} (h : Grows P s s') (hn : s.Near P)
    {o o' : RefCountedObject} (ha : s.objs a = some o) (ha' : s'.objs a = some o')
    (hfar : o.block ≠ s.active) : o'.fields = o.fields :=
  h.fields ha ha' fun i hp => hfar (hn a i o hp ha)

theorem contains_obj_eq_false (ha : s.objs a = some o) (h : s.contains (.obj a) = false) :
    o.block ≠ s.active := by
  simpa [contains, ha] using h

theorem Grows.copies {P : Loc → Prop} {s s' : Store} (h : Grows P s s') (hn : s.Near P)
    (hd : s.NoDangling) (k : Nat) : ∀ t, (∀ b, t = .obj b → ∃ o, s.objs b = some o) →
      (∀ a, shallowCopies k s' t a = shallowCopies k s t a) ∧
        copyDepthLE k s' t = copyDepthLE k s t := by
  induction k with
  | zero => exact fun t _ => ⟨fun _ => rfl, rfl⟩
  | succ k ih =>
    intro t ht
    cases t with
    | before m => exact ⟨fun a => by rw [shallowCopies_before, shallowCopies_before], rfl⟩
    | obj b =>
      obtain ⟨o, ho⟩ := ht b rfl
      obtain ⟨o', ho', -⟩ := h.objs b o ho
      have hcont := h.contains ho
      by_cases hb : s.contains (.obj b) = true
      · constructor
        · intro a
          simp only [shallowCopies, hcont, hb, if_true]
        · simp only [copyDepthLE, hcont, hb, Bool.true_or]
      · have hb' : s.contains (.obj b) = false := by simpa using hb
        have hf := h.far_fields hn ho ho' (contains_obj_eq_false ho hb')
        have hrec : ∀ y ∈ o.fields, (∀ a, shallowCopies k s' y.target a =
            shallowCopies k s y.target a) ∧ copyDepthLE k s' y.target = copyDepthLE k s y.target := by
          intro y hy
          obtain ⟨i, hi⟩ := handleAt_of_mem ho hy
          exact ih y.target fun c hc => hd _ y c hi hc
        constructor
        · intro a
          simp only [shallowCopies, hcont, hb', ho, ho', hf]
          refine congrArg List.sum (List.map_congr_left fun y hy => ?_)
          exact (hrec y hy).1 a
        · simp only [copyDepthLE, hcont, hb', ho, ho', hf, Bool.false_or]
          rw [Bool.eq_iff_iff, List.all_eq_true, List.all_eq_true]
          exact forall₂_congr fun y hy => by rw [(hrec y hy).2]

/-! ## books -/

/-- the counts are exact but for `w` decrements to come, and no destructor is running -/
structure Booked (s : Store) (w : Nat → Nat) : Prop where
  sane : s.Sane
  calm : s.Calm
  exact : s.Exact w

theorem Booked.noDangling {w : Nat → Nat} (h : s.Booked w) : s.NoDangling :=
  fun _ _ _ hm hy => exists_of_handle h.sane h.calm h.exact hm hy

/-- the objects that existed when the operation started have numbers below `N`, and what is
outside of the current block points to such objects only -/
structure Frozen (N : Nat) (s : Store) : Prop where
  le : N ≤ s.next
  far : ∀ b o, s.objs b = some o → o.block ≠ s.active → ∀ y ∈ o.fields, ∀ c,
    y.target = .obj c → c < N

theorem Frozen.grows {N : Nat} {P : Loc → Prop} {s s' : Store} (hf : Frozen N s)
    (h : Grows P s s') (hn : s.Near P) : Frozen N s' where
  le := hf.le.trans h.next
  far := by
    intro b o' ho' hfar y hy c hc
    rw [h.active] at hfar
    cases ho : s.objs b with
    | none =>
      by_cases hlt : b < s.next
      · rw [h.old b hlt ho] at ho'
        cases ho'
      · exact absurd (h.new b o' (Nat.le_of_not_lt hlt) ho') hfar
    | some o =>
      obtain ⟨o'', ho'', eb, -⟩ := h.objs b o ho
      rw [ho'] at ho''
      cases ho''
      rw [eb] at hfar
      rw [h.far_fields hn ho ho' hfar] at hy
      exact hf.far b o ho hfar y hy c hc

theorem handleAt_setHandle (hl : s.handleAt l = some old) : (s.setHandle l x).handleAt l = some x := by
  cases l with
  | root n =>
    obtain ⟨r, hr, -⟩ := Option.map_eq_some_iff.mp hl
    simp [handleAt, setHandle, hr]
  | field b i =>
    obtain ⟨o, ho, hi⟩ := Option.bind_eq_some_iff.mp hl
    obtain ⟨hlt, -⟩ := List.getElem?_eq_some_iff.mp hi
    simp [handleAt, setHandle, ho, hlt]

theorem setHandle_setHandle (s : Store) (l : Loc) (x y : Handle) :
    (s.setHandle l y).setHandle l x = s.setHandle l x := by
  cases l with
  | root n =>
    simp only [setHandle]
    cases hr : s.roots n with
    | none => simp [hr]
    | some r => simp
  | field b i =>
    simp only [setHandle]
    cases ho : s.objs b with
    | none => simp [ho]
    | some o => simp [setObj]

theorem setHandle_self (hl : s.handleAt l = some x) : s.setHandle l x = s := by
  cases l with
  | root n =>
    obtain ⟨r, hr, rfl⟩ := Option.map_eq_some_iff.mp hl
    simp only [setHandle, hr]
    rw [show some { r with handle := r.handle } = s.roots n from hr.symm, Function.update_eq_self]
  | field b i =>
    obtain ⟨o, ho, hi⟩ := Option.bind_eq_some_iff.mp hl
    obtain ⟨hlt, he⟩ := List.getElem?_eq_some_iff.mp hi
    have hset : o.fields.set i x = o.fields := by
      rw [← he]
      exact List.set_getElem_self hlt
    simp only [setHandle, ho, hset, setObj]
    rw [show some { o with fields := o.fields } = s.objs b from ho.symm, Function.update_eq_self]

end

end Store

end Netsdb
