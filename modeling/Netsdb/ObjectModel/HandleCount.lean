import Mathlib.Algebra.BigOperators.Group.Finset.Piecewise
import Mathlib.Algebra.Order.BigOperators.Group.Finset
import Netsdb.ObjectModel.Handle

/-!
# Counting handles

`census s a` is the number of handles to object `a`, the members of objects that are being
destroyed left out.  `Exact s w`: every managed object's reference count is its census plus the
`w` decrements that are still to come.

* `decRefCount_spec`   a decrement with its cascade takes one pending decrement away and leaves
                       the counts exact.
-/

namespace Netsdb
open Finset

/-! ## sums over a range, one term changed -/

theorem sum_range_update {α : Type*} (g : α → Nat) (f : Nat → α) {n i : Nat} (hi : i < n) (v : α) :
    ∑ x ∈ range n, g (Function.update f i v x) + g (f i) = ∑ x ∈ range n, g (f x) + g v := by
  have hmem : i ∈ range n := mem_range.mpr hi
  have hrest : ∑ x ∈ (range n).erase i, g (Function.update f i v x) =
      ∑ x ∈ (range n).erase i, g (f x) :=
    sum_congr rfl fun x hx => by rw [Function.update_of_ne (ne_of_mem_erase hx)]
  rw [← add_sum_erase _ _ hmem, ← add_sum_erase (range n) (fun x => g (f x)) hmem, hrest,
    Function.update_self]
  omega

theorem le_sum_range (g : Nat → Nat) {n i : Nat} (hi : i < n) : g i ≤ ∑ x ∈ range n, g x :=
  single_le_sum (fun _ _ => Nat.zero_le _) (mem_range.mpr hi)

/-! ## the census -/

/-- number of handles to `a` in a list -/
def refsOf (l : List Handle) (a : Nat) : Nat := l.countP fun h => h.target = .obj a

def rootRefs (a : Nat) : Option Root → Nat
  | some r => if r.handle.target = .obj a then 1 else 0
  | none => 0

namespace Store

/-- the count has reached zero, and the destructor is running -/
def isDying (s : Store) (o : RefCountedObject) : Prop :=
  s.managedBlock o.block = true ∧ o.refCount = 0

instance (s : Store) (o : RefCountedObject) : Decidable (s.isDying o) :=
  inferInstanceAs (Decidable (_ ∧ _))

def Dying (s : Store) (a : Nat) : Prop := ∃ o, s.objs a = some o ∧ s.isDying o

/-- the members of an object, unless it is being destroyed -/
def memberRefs (s : Store) (a : Nat) : Option RefCountedObject → Nat
  | some o => if s.isDying o then 0 else refsOf o.fields a
  | none => 0

def census (s : Store) (a : Nat) : Nat :=
  ∑ n ∈ range s.numRoots, rootRefs a (s.roots n) +
    ∑ b ∈ range s.next, s.memberRefs a (s.objs b)

/-- the reference count, with zero for what is not an object -/
def rc (s : Store) (a : Nat) : Nat := (s.objs a).elim 0 RefCountedObject.refCount

/-- objects outside of the managed blocks are not counted -/
def Counted (s : Store) (a : Nat) : Prop :=
  ∀ o, s.objs a = some o → s.managedBlock o.block = true

def Exact (s : Store) (w : Nat → Nat) : Prop := ∀ a, s.Counted a → s.rc a = s.census a + w a

/-- the right way for a handle to be: null, or to an object of the handle's type -/
def Proper (s : Store) (l : Loc) (h : Handle) : Prop :=
  h.target = .before l ∨
    ∃ b, h.target = .obj b ∧ ∀ o, s.objs b = some o → o.typeInfo = h.typeInfo

/-- the shape of a store -/
structure Sane (s : Store) : Prop where
  objs_lt : ∀ a o, s.objs a = some o → a < s.next
  /-- counts are `unsigned` -/
  counts_lt : ∀ a o, s.objs a = some o → o.refCount < 2^32
  roots_lt : ∀ n r, s.roots n = some r → n < s.numRoots
  roots_ok : ∀ n r, s.roots n = some r → s.Proper (.root n) r.handle
  fields_ok : ∀ a o i h, s.objs a = some o → o.fields[i]? = some h → s.Proper (.field a i) h
  /-- types whose deletion destroys no members hold no handles -/
  members : ∀ a o, s.objs a = some o → destroysMembers o.typeInfo = false →
    ∀ h ∈ o.fields, ∀ b, h.target ≠ .obj b
  freed_nodup : s.freed.Nodup
  freed_iff : ∀ a, a ∈ s.freed ↔ a < s.next ∧ s.objs a = none
  deleted_nodup : s.deleted.Nodup
  deleted_iff : ∀ a, a ∈ s.deleted ↔ a ∈ s.freed ∨ s.Dying a
  stray : s.stray = false

/-- number of objects with a nonzero count -/
def aliveCount (s : Store) : Nat :=
  ∑ a ∈ range s.next, if s.rc a = 0 then 0 else 1

variable {s : Store} {a b : Nat} {o : RefCountedObject}

@[simp] theorem setObj_objs (s : Store) (a : Nat) (o : RefCountedObject) :
    (s.setObj a o).objs = Function.update s.objs a (some o) := rfl

@[simp] theorem setObj_managedBlock (s : Store) (a : Nat) (o : RefCountedObject) (x : Nat) :
    (s.setObj a o).managedBlock x = s.managedBlock x := rfl

@[simp] theorem freeRAM_objs (s : Store) (a : Nat) :
    (s.freeRAM a).objs = Function.update s.objs a none := rfl

@[simp] theorem freeRAM_managedBlock (s : Store) (a x : Nat) :
    (s.freeRAM a).managedBlock x = s.managedBlock x := rfl

theorem rc_eq (h : s.objs a = some o) : s.rc a = o.refCount := by
  simp [rc, h]

theorem rc_setObj (s : Store) (b : Nat) (o : RefCountedObject) (a : Nat) :
    (s.setObj b o).rc a = if a = b then o.refCount else s.rc a := by
  by_cases e : a = b
  · subst e
    simp [rc]
  · simp [rc, e]

/-- one object changed -/
theorem census_setObj (hb : b < s.next) (a : Nat) :
    (s.setObj b o).census a + s.memberRefs a (s.objs b) =
      s.census a + s.memberRefs a (some o) := by
  have h := sum_range_update (s.memberRefs a) s.objs hb (some o)
  have hc : (s.setObj b o).census a = ∑ n ∈ range s.numRoots, rootRefs a (s.roots n) +
      ∑ x ∈ range s.next, s.memberRefs a (Function.update s.objs b (some o) x) := rfl
  rw [hc]
  unfold census
  omega

/-- the RAM of an object is freed -/
theorem census_freeRAM (hb : b < s.next) (a : Nat) :
    (s.freeRAM b).census a + s.memberRefs a (s.objs b) = s.census a := by
  have h := sum_range_update (s.memberRefs a) s.objs hb none
  have hc : (s.freeRAM b).census a = ∑ n ∈ range s.numRoots, rootRefs a (s.roots n) +
      ∑ x ∈ range s.next, s.memberRefs a (Function.update s.objs b none x) := rfl
  have h0 : s.memberRefs a none = 0 := rfl
  rw [hc]
  unfold census
  omega

theorem aliveCount_setObj (hb : b < s.next) :
    (s.setObj b o).aliveCount + (if s.rc b = 0 then 0 else 1) =
      s.aliveCount + (if o.refCount = 0 then 0 else 1) := by
  let g : Option RefCountedObject → Nat := fun x =>
    if x.elim 0 RefCountedObject.refCount = 0 then 0 else 1
  have h := sum_range_update g s.objs hb (some o)
  exact h

theorem aliveCount_freeRAM (hb : b < s.next) :
    (s.freeRAM b).aliveCount + (if s.rc b = 0 then 0 else 1) = s.aliveCount := by
  let g : Option RefCountedObject → Nat := fun x =>
    if x.elim 0 RefCountedObject.refCount = 0 then 0 else 1
  have h := sum_range_update g s.objs hb none
  exact h

/-! ## what a cascade of decrements may change -/

structure Cascade (s s' : Store) : Prop where
  roots : s'.roots = s.roots
  numRoots : s'.numRoots = s.numRoots
  next : s'.next = s.next
  active : s'.active = s.active
  inactive : s'.inactive = s.inactive
  /-- the objects that are left have their old contents -/
  kept : ∀ a o', s'.objs a = some o' → ∃ o, s.objs a = some o ∧
    o' = { o with refCount := o'.refCount }
  dying : ∀ a o, s.objs a = some o → s.isDying o → s'.objs a = some o
  newDying : ∀ a, s'.Dying a → s.Dying a
  alive_le : s'.aliveCount ≤ s.aliveCount

theorem Cascade.refl (s : Store) : Cascade s s where
  roots := rfl
  numRoots := rfl
  next := rfl
  active := rfl
  inactive := rfl
  kept := fun _ o' h => ⟨o', h, rfl⟩
  dying := fun _ _ h _ => h
  newDying := fun _ h => h
  alive_le := Nat.le_refl _

theorem Cascade.managedBlock {s' : Store} (h : Cascade s s') (x : Nat) :
    s'.managedBlock x = s.managedBlock x := by
  simp [Store.managedBlock, h.active, h.inactive]

theorem Cascade.isDying {s' : Store} (h : Cascade s s') (o : RefCountedObject) :
    s'.isDying o ↔ s.isDying o := by
  simp [Store.isDying, h.managedBlock]

theorem Cascade.trans {s' s'' : Store} (h : Cascade s s') (h' : Cascade s' s'') :
    Cascade s s'' where
  roots := h'.roots.trans h.roots
  numRoots := h'.numRoots.trans h.numRoots
  next := h'.next.trans h.next
  active := h'.active.trans h.active
  inactive := h'.inactive.trans h.inactive
  kept := by
    intro a o'' ho''
    obtain ⟨o', ho', e'⟩ := h'.kept a o'' ho''
    obtain ⟨o, ho, e⟩ := h.kept a o' ho'
    refine ⟨o, ho, ?_⟩
    rw [e', e]
  dying := fun a o ho hd => h'.dying a o (h.dying a o ho hd) ((h.isDying o).mpr hd)
  newDying := fun a hd => h.newDying a (h'.newDying a hd)
  alive_le := h'.alive_le.trans h.alive_le

theorem Cascade.proper {s' : Store} (h : Cascade s s') {l : Loc} {x : Handle}
    (hx : s.Proper l x) : s'.Proper l x := by
  rcases hx with hx | ⟨b, hb, ht⟩
  · exact Or.inl hx
  · refine Or.inr ⟨b, hb, fun o' ho' => ?_⟩
    obtain ⟨o, ho, e⟩ := h.kept b o' ho'
    rw [e]
    exact ht o ho

/-! ## the primitive steps of a decrement -/

/-- the objects that are left have the handles and the type they had -/
def SameShape (s s' : Store) : Prop :=
  ∀ x o', s'.objs x = some o' →
    ∃ o, s.objs x = some o ∧ o'.fields = o.fields ∧ o'.typeInfo = o.typeInfo

theorem SameShape.proper {s' : Store} (h : SameShape s s') {l : Loc} {x : Handle}
    (hx : s.Proper l x) : s'.Proper l x := by
  rcases hx with hx | ⟨b, hb, ht⟩
  · exact Or.inl hx
  · refine Or.inr ⟨b, hb, fun o' ho' => ?_⟩
    obtain ⟨o, ho, -, e⟩ := h b o' ho'
    rw [e]
    exact ht o ho

theorem Sane.of_shape {s' : Store} (h : s.Sane) (hs : SameShape s s')
    (hcount : ∀ a o, s'.objs a = some o → o.refCount < 2^32) (hr : s'.roots = s.roots)
    (hnr : s'.numRoots = s.numRoots) (hn : s'.next = s.next) (hfn : s'.freed.Nodup)
    (hf : ∀ a, a ∈ s'.freed ↔ a < s'.next ∧ s'.objs a = none) (hdn : s'.deleted.Nodup)
    (hd : ∀ a, a ∈ s'.deleted ↔ a ∈ s'.freed ∨ s'.Dying a) (hstray : s'.stray = false) :
    s'.Sane := by
  refine ⟨?_, hcount, ?_, ?_, ?_, ?_, hfn, hf, hdn, hd, hstray⟩
  · intro x o' ho'
    obtain ⟨o, ho, -⟩ := hs x o' ho'
    rw [hn]
    exact h.objs_lt x o ho
  · rw [hr, hnr]
    exact h.roots_lt
  · rw [hr]
    exact fun x r hxr => hs.proper (h.roots_ok x r hxr)
  · intro x o' i y ho' hy
    obtain ⟨o, ho, ef, -⟩ := hs x o' ho'
    rw [ef] at hy
    exact hs.proper (h.fields_ok x o i y ho hy)
  · intro x o' ho' hdm y hy
    obtain ⟨o, ho, ef, et⟩ := hs x o' ho'
    rw [et] at hdm
    rw [ef] at hy
    exact h.members x o ho hdm y hy

theorem sameShape_setCount (ha : s.objs a = some o) (n : Nat) :
    SameShape s (s.setObj a { o with refCount := n }) := by
  intro x o' ho'
  by_cases e : x = a
  · subst e
    rw [setObj_objs, Function.update_self] at ho'
    cases ho'
    exact ⟨o, ha, rfl, rfl⟩
  · rw [setObj_objs, Function.update_of_ne e] at ho'
    exact ⟨o', ho', rfl, rfl⟩

theorem counts_setObj (h : s.Sane) (a : Nat) {o' : RefCountedObject} (ho : o'.refCount < 2^32) :
    ∀ x y, (s.setObj a o').objs x = some y → y.refCount < 2^32 := by
  intro x y hy
  by_cases e : x = a
  · subst e
    rw [setObj_objs, Function.update_self] at hy
    cases hy
    exact ho
  · rw [setObj_objs, Function.update_of_ne e] at hy
    exact h.counts_lt x y hy

theorem setObj_none_iff (ha : s.objs a = some o) {o' : RefCountedObject} (x : Nat) :
    (s.setObj a o').objs x = none ↔ s.objs x = none := by
  by_cases e : x = a
  · subst e
    simp [ha]
  · simp [e]

theorem dying_setObj_of_ne {x : Nat} (e : x ≠ a) : (s.setObj a o).Dying x ↔ s.Dying x := by
  unfold Dying
  rw [setObj_objs, Function.update_of_ne e]
  rfl

theorem dying_iff (ha : s.objs a = some o) : s.Dying a ↔ s.isDying o := by
  constructor
  · rintro ⟨o', ho', hd⟩
    rw [ha] at ho'
    cases ho'
    exact hd
  · exact fun hd => ⟨o, ha, hd⟩

/-- an object gets another count, and starts no destructor -/
theorem Sane.setCount (h : s.Sane) (ha : s.objs a = some o) {n : Nat} (hn : n < 2^32)
    (hd : s.isDying { o with refCount := n } ↔ s.isDying o) :
    (s.setObj a { o with refCount := n }).Sane := by
  refine h.of_shape (sameShape_setCount ha n) (counts_setObj h a hn) rfl rfl rfl h.freed_nodup ?_ h.deleted_nodup ?_
    h.stray
  · intro x
    rw [setObj_none_iff ha]
    exact h.freed_iff x
  · intro x
    have hx : (s.setObj a { o with refCount := n }).Dying x ↔ s.Dying x := by
      by_cases e : x = a
      · subst e
        rw [dying_iff ha, dying_iff (Function.update_self _ _ _)]
        exact hd
      · exact dying_setObj_of_ne e
    rw [hx]
    exact h.deleted_iff x

/-- a count reaches zero, and the destructor starts -/
theorem Sane.setZero (h : s.Sane) (ha : s.objs a = some o) (hm : s.managedBlock o.block = true)
    (hd : ¬ s.isDying o) :
    ({ s.setObj a { o with refCount := 0 } with deleted := a :: s.deleted } : Store).Sane := by
  have hfresh : a ∉ s.deleted := by
    rw [h.deleted_iff a, dying_iff ha, h.freed_iff a]
    rintro (⟨-, hf⟩ | hd')
    · rw [ha] at hf
      cases hf
    · exact hd hd'
  refine h.of_shape (sameShape_setCount ha 0) (counts_setObj h a (Nat.two_pow_pos 32)) rfl rfl rfl
    h.freed_nodup ?_
    (List.nodup_cons.mpr ⟨hfresh, h.deleted_nodup⟩) ?_ h.stray
  · intro x
    show x ∈ s.freed ↔ x < s.next ∧ (s.setObj a { o with refCount := 0 }).objs x = none
    rw [setObj_none_iff ha]
    exact h.freed_iff x
  · intro x
    show x ∈ a :: s.deleted ↔ x ∈ s.freed ∨ (s.setObj a { o with refCount := 0 }).Dying x
    rw [List.mem_cons, h.deleted_iff x]
    by_cases e : x = a
    · subst e
      exact ⟨fun _ => Or.inr ⟨{ o with refCount := 0 }, by simp, hm, rfl⟩, fun _ => Or.inl rfl⟩
    · rw [dying_setObj_of_ne e]
      simp [e]

/-- the RAM of an object whose destructor has run is freed -/
theorem Sane.freeRAM (h : s.Sane) (ha : s.objs a = some o) (hd : s.isDying o) :
    (s.freeRAM a).Sane := by
  have hlt := h.objs_lt a o ha
  have hfresh : a ∉ s.freed := by
    rw [h.freed_iff a, ha]
    rintro ⟨-, hf⟩
    cases hf
  have hold : ∀ x o', (s.freeRAM a).objs x = some o' → s.objs x = some o' := by
    intro x o' ho'
    by_cases e : x = a
    · subst e
      simp at ho'
    · rwa [freeRAM_objs, Function.update_of_ne e] at ho'
  refine h.of_shape (fun x o' ho' => ⟨o', hold x o' ho', rfl, rfl⟩)
    (fun x o' ho' => h.counts_lt x o' (hold x o' ho')) rfl rfl rfl
    (List.nodup_cons.mpr ⟨hfresh, h.freed_nodup⟩) ?_ h.deleted_nodup ?_ h.stray
  · intro x
    show x ∈ a :: s.freed ↔ x < s.next ∧ Function.update s.objs a none x = none
    rw [List.mem_cons, h.freed_iff x]
    by_cases e : x = a
    · subst e
      simp [hlt]
    · rw [Function.update_of_ne e]
      simp [e]
  · intro x
    show x ∈ s.deleted ↔ x ∈ a :: s.freed ∨ (s.freeRAM a).Dying x
    rw [h.deleted_iff x, List.mem_cons]
    by_cases e : x = a
    · subst e
      exact ⟨fun _ => Or.inl (Or.inl rfl), fun _ => Or.inr ⟨o, ha, hd⟩⟩
    · have hx : (s.freeRAM a).Dying x ↔ s.Dying x := by
        unfold Dying
        rw [freeRAM_objs, Function.update_of_ne e]
        rfl
      rw [hx]
      simp [e]

/-! ## decrements -/

/-- number of handles to `a` among handles still to be destroyed -/
def pending (l : List (Loc × Handle)) (a : Nat) : Nat := l.countP fun x => x.2.target = .obj a

theorem pending_members_reverse (b : Nat) (o : RefCountedObject) (a : Nat) :
    pending (members b o).reverse a = refsOf o.fields a := by
  have hmap : (members b o).map Prod.snd = o.fields := by
    refine List.ext_getElem? fun i => ?_
    simp [members, Function.comp_def]
  unfold pending refsOf
  rw [List.countP_reverse]
  conv_rhs => rw [← hmap]
  rw [List.countP_map]
  rfl

theorem members_proper (h : s.Sane) (ha : s.objs a = some o) :
    ∀ x ∈ members a o, s.Proper x.1 x.2 := by
  intro x hx
  obtain ⟨i, hi⟩ := List.mem_iff_getElem?.mp hx
  simp only [members, List.getElem?_mapIdx, Option.map_eq_some_iff] at hi
  obtain ⟨y, hy, rfl⟩ := hi
  exact h.fields_ok a o i y ha hy

theorem refsOf_eq_zero {l : List Handle} (h : ∀ x ∈ l, ∀ b, x.target ≠ .obj b) (a : Nat) :
    refsOf l a = 0 := by
  unfold refsOf
  rw [List.countP_eq_zero]
  intro x hx
  simpa using h x hx a

/-- `dec` does its work on stores with fewer than `k` objects alive -/
def DecSpec (dec : Store → Target → Int → Option Store) (k : Nat) : Prop :=
  ∀ (s : Store) (t : Nat) (info : Int) (w : Nat → Nat), s.Sane →
    s.Exact (fun a => w a + if t = a then 1 else 0) → (∀ o, s.objs t = some o → o.typeInfo = info) →
    s.aliveCount < k →
    ∃ s', dec s (.obj t) info = some s' ∧ s'.Sane ∧ s'.Exact w ∧ s.Cascade s'

theorem isManaged_obj_some (ha : s.objs a = some o) :
    s.isManaged (.obj a) = s.managedBlock o.block := by
  simp [isManaged, ha]

theorem isManaged_obj_none (ha : s.objs a = none) : s.isManaged (.obj a) = true := by
  simp [isManaged, ha]

theorem isManaged_of_counted (h : s.Counted a) : s.isManaged (.obj a) = true := by
  cases e : s.objs a with
  | none => exact isManaged_obj_none e
  | some o => exact (isManaged_obj_some e).trans (h o e)

theorem counted_of_isManaged (h : s.isManaged (.obj a) = true) : s.Counted a := by
  intro o ho
  rwa [isManaged_obj_some ho] at h

/-- one handle destroyed -/
theorem destroyHandle_spec {dec : Store → Target → Int → Option Store} {k : Nat}
    (hdec : DecSpec dec k) {w : Nat → Nat} {l : Loc} {x : Handle} (h : s.Sane)
    (hx : s.Proper l x) (he : s.Exact fun a => w a + if x.target = .obj a then 1 else 0)
    (hk : s.aliveCount < k) :
    ∃ s', destroyHandle dec s l x = some s' ∧ s'.Sane ∧ s'.Exact w ∧ s.Cascade s' := by
  rcases hx with hnull | ⟨b, hb, ht⟩
  · refine ⟨s, if_neg fun hc => hc.1 hnull, h, fun a ha => ?_, Cascade.refl s⟩
    have : s.rc a = s.census a + (w a + if x.target = .obj a then 1 else 0) := he a ha
    rwa [hnull, if_neg (by simp)] at this
  · have hne : x.target ≠ .before l := by
      rw [hb]
      simp
    simp only [hb, Target.obj.injEq] at he
    by_cases hm : s.isManaged (.obj b) = true
    · obtain ⟨s', hs', h1, h2, h3⟩ := hdec s b x.typeInfo w h he ht hk
      refine ⟨s', ?_, h1, h2, h3⟩
      unfold destroyHandle
      rw [if_pos ⟨hne, by rw [hb]; exact hm⟩, hb]
      exact hs'
    · refine ⟨s, if_neg fun hc => hm (by rw [← hb]; exact hc.2), h, fun a ha => ?_,
        Cascade.refl s⟩
      have hne' : b ≠ a := by
        rintro rfl
        exact hm (isManaged_of_counted ha)
      have : s.rc a = s.census a + (w a + if b = a then 1 else 0) := he a ha
      rwa [if_neg hne'] at this

/-- the members of an object destroyed one after the other -/
theorem destroyHandles_spec {dec : Store → Target → Int → Option Store} {k : Nat}
    (hdec : DecSpec dec k) (l : List (Loc × Handle)) :
    ∀ {s : Store} {w : Nat → Nat}, s.Sane → (∀ x ∈ l, s.Proper x.1 x.2) →
      s.Exact (fun a => w a + pending l a) → s.aliveCount < k →
      ∃ s', destroyHandles dec l s = some s' ∧ s'.Sane ∧ s'.Exact w ∧ s.Cascade s' := by
  induction l with
  | nil => exact fun {s w} h _ he _ => ⟨s, rfl, h, he, Cascade.refl s⟩
  | cons y l ih =>
    intro s w h hp he hk
    have he' : s.Exact fun a => (w a + pending l a) + if y.2.target = .obj a then 1 else 0 := by
      intro a ha
      have := he a ha
      simp only [pending, List.countP_cons, decide_eq_true_eq] at this
      simp only [pending]
      omega
    obtain ⟨s₁, hs₁, h₁, he₁, hc₁⟩ :=
      destroyHandle_spec hdec h (hp y List.mem_cons_self) he' hk
    obtain ⟨s₂, hs₂, h₂, he₂, hc₂⟩ := ih h₁
      (fun x hx => hc₁.proper (hp x (List.mem_cons_of_mem _ hx))) he₁
      (Nat.lt_of_le_of_lt hc₁.alive_le hk)
    refine ⟨s₂, ?_, h₂, he₂, hc₁.trans hc₂⟩
    show (destroyHandle dec s y.1 y.2).bind (destroyHandles dec l) = some s₂
    rw [hs₁]
    exact hs₂

theorem counted_setCount (ha : s.objs a = some o) (n x : Nat) :
    (s.setObj a { o with refCount := n }).Counted x ↔ s.Counted x := by
  unfold Counted
  by_cases e : x = a
  · subst e
    simp [ha]
  · simp [e]

theorem memberRefs_of_not_dying (hd : ¬ s.isDying o) (x : Nat) :
    s.memberRefs x (some o) = refsOf o.fields x := if_neg hd

theorem memberRefs_of_dying (hd : s.isDying o) (x : Nat) : s.memberRefs x (some o) = 0 := if_pos hd

/-- a count that stays above zero -/
theorem Exact.setCount {w w' : Nat → Nat} {n : Nat} (h : s.Exact w) (hlt : a < s.next)
    (ha : s.objs a = some o) (hd : s.isDying { o with refCount := n } ↔ s.isDying o)
    (hn : s.Counted a → n + w a = o.refCount + w' a) (hw : ∀ x, x ≠ a → w' x = w x) :
    (s.setObj a { o with refCount := n }).Exact w' := by
  intro x hx
  have hc : (s.setObj a { o with refCount := n }).census x = s.census x := by
    have := census_setObj (o := { o with refCount := n }) hlt x
    have hsame : s.memberRefs x (some { o with refCount := n }) = s.memberRefs x (s.objs a) := by
      rw [ha]
      simp only [memberRefs, hd]
    omega
  have hx' := (counted_setCount ha n x).mp hx
  have hex := h x hx'
  rw [hc, rc_setObj]
  by_cases e : x = a
  · subst e
    rw [if_pos rfl]
    rw [rc_eq ha] at hex
    have := hn hx'
    show n = _
    omega
  · rw [if_neg e, hw x e]
    exact hex

/-- a count that reaches zero: the members of the object leave the census -/
theorem Exact.setZero {w : Nat → Nat} (h : s.Exact fun x => w x + if a = x then 1 else 0)
    (hlt : a < s.next) (ha : s.objs a = some o) (hm : s.managedBlock o.block = true)
    (hone : o.refCount = 1) :
    (s.setObj a { o with refCount := 0 }).Exact fun x => w x + refsOf o.fields x := by
  intro x hx
  have hnd : ¬ s.isDying o := by
    rintro ⟨-, hz⟩
    omega
  have hcensus := census_setObj (o := { o with refCount := 0 }) hlt x
  rw [ha, memberRefs_of_not_dying hnd,
    memberRefs_of_dying (o := { o with refCount := 0 }) ⟨hm, rfl⟩] at hcensus
  have hex : s.rc x = s.census x + (w x + if a = x then 1 else 0) :=
    h x ((counted_setCount ha 0 x).mp hx)
  show (s.setObj a { o with refCount := 0 }).rc x = _ + (w x + refsOf o.fields x)
  rw [rc_setObj]
  by_cases e : x = a
  · subst e
    rw [rc_eq ha] at hex
    simp only [if_true] at hex ⊢
    omega
  · rw [if_neg e]
    rw [if_neg (fun h => e h.symm)] at hex
    omega

theorem exact_freeRAM {w : Nat → Nat} (h : s.Exact w) (hlt : a < s.next) (ha : s.objs a = some o)
    (hd : s.isDying o) : (s.freeRAM a).Exact w := by
  intro x hx
  have hcensus := census_freeRAM hlt x
  rw [ha, memberRefs_of_dying hd] at hcensus
  by_cases e : x = a
  · subst e
    have hex := h x (fun o' ho' => by rw [ha] at ho'; cases ho'; exact hd.1)
    rw [rc_eq ha, hd.2] at hex
    have hrc : (s.freeRAM x).rc x = 0 := by simp [rc]
    omega
  · have hcx : s.Counted x := by
      intro o' ho'
      exact hx o' (by rw [freeRAM_objs, Function.update_of_ne e]; exact ho')
    have hrc : (s.freeRAM a).rc x = s.rc x := by simp [rc, e]
    have hex := h x hcx
    omega

theorem cascade_setCount (hlt : a < s.next) (ha : s.objs a = some o) {n : Nat}
    (h0 : o.refCount ≠ 0) (hn : n ≠ 0) : s.Cascade (s.setObj a { o with refCount := n }) where
  roots := rfl
  numRoots := rfl
  next := rfl
  active := rfl
  inactive := rfl
  kept := by
    intro x o' ho'
    by_cases e : x = a
    · subst e
      rw [setObj_objs, Function.update_self] at ho'
      cases ho'
      exact ⟨o, ha, rfl⟩
    · rw [setObj_objs, Function.update_of_ne e] at ho'
      exact ⟨o', ho', rfl⟩
  dying := by
    intro x o' ho' hd
    have e : x ≠ a := by
      rintro rfl
      rw [ha] at ho'
      cases ho'
      exact h0 hd.2
    rw [setObj_objs, Function.update_of_ne e]
    exact ho'
  newDying := by
    intro x hd
    by_cases e : x = a
    · subst e
      obtain ⟨o', ho', -, hz⟩ := hd
      rw [setObj_objs, Function.update_self] at ho'
      cases ho'
      exact absurd hz hn
    · exact (dying_setObj_of_ne e).mp hd
  alive_le := by
    have := aliveCount_setObj (o := { o with refCount := n }) hlt
    rw [rc_eq ha, if_neg h0, if_neg hn] at this
    omega

/-- the destructor of an object starts, runs, and the RAM is freed -/
theorem cascade_free {s₁ s₂ : Store} (hlt : a < s.next) (ha : s.objs a = some o)
    (h0 : o.refCount ≠ 0) (hm : s.managedBlock o.block = true)
    (h₁ : s₁ = { s.setObj a { o with refCount := 0 } with deleted := a :: s.deleted })
    (hc : s₁.Cascade s₂) : s.Cascade (s₂.freeRAM a) := by
  have hself : s₁.objs a = some { o with refCount := 0 } := by
    rw [h₁]
    exact Function.update_self _ _ _
  have hother : ∀ x, x ≠ a → s₁.objs x = s.objs x := by
    intro x e
    rw [h₁]
    exact Function.update_of_ne e _ _
  have hblock : ∀ x, s₁.managedBlock x = s.managedBlock x := by
    intro x
    rw [h₁]
    rfl
  have hdy : s₁.isDying { o with refCount := 0 } := ⟨(hblock _).trans hm, rfl⟩
  have hthere := hc.dying a _ hself hdy
  have hnext : s₁.next = s.next := by rw [h₁]; rfl
  refine ⟨hc.roots.trans (by rw [h₁]; rfl), hc.numRoots.trans (by rw [h₁]; rfl),
    hc.next.trans hnext, hc.active.trans (by rw [h₁]; rfl), hc.inactive.trans (by rw [h₁]; rfl),
    ?_, ?_, ?_, ?_⟩
  · intro x o' ho'
    by_cases e : x = a
    · subst e
      simp at ho'
    · rw [freeRAM_objs, Function.update_of_ne e] at ho'
      obtain ⟨o₁, ho₁, heq⟩ := hc.kept x o' ho'
      rw [hother x e] at ho₁
      exact ⟨o₁, ho₁, heq⟩
  · intro x o' ho' hd
    have e : x ≠ a := by
      rintro rfl
      rw [ha] at ho'
      cases ho'
      exact h0 hd.2
    rw [freeRAM_objs, Function.update_of_ne e]
    refine hc.dying x o' (by rw [hother x e]; exact ho') ⟨(hblock _).trans hd.1, hd.2⟩
  · rintro x ⟨o', ho', hd⟩
    by_cases e : x = a
    · subst e
      simp at ho'
    · rw [freeRAM_objs, Function.update_of_ne e] at ho'
      obtain ⟨o₁, ho₁, hd₁⟩ := hc.newDying x ⟨o', ho', hd⟩
      exact ⟨o₁, by rw [← hother x e]; exact ho₁, (hblock _).symm.trans hd₁.1, hd₁.2⟩
  · have hfree := aliveCount_freeRAM (s := s₂) (b := a) (by rw [hc.next, hnext]; exact hlt)
    have hset := aliveCount_setObj (o := { o with refCount := 0 }) hlt
    have hsame : s₁.aliveCount = (s.setObj a { o with refCount := 0 }).aliveCount := by
      rw [h₁]
      rfl
    have hle := hc.alive_le
    rw [rc_eq ha, if_neg h0, if_pos rfl] at hset
    omega

/-- **A decrement with its cascade.** -/
theorem decRefCount_spec (k : Nat) : DecSpec (decRefCount k) k := by
  induction k with
  | zero =>
    intro s t info w _ _ _ hk
    exact absurd hk (Nat.not_lt_zero _)
  | succ k ih =>
    intro s t info w h he ht hk
    by_cases hm : s.isManaged (.obj t) = true
    · have hct := counted_of_isManaged hm
      have het : s.rc t = s.census t + (w t + if t = t then 1 else 0) := he t hct
      rw [if_pos rfl] at het
      -- the handle that goes away is counted, so the object is there
      obtain ⟨o, ho⟩ : ∃ o, s.objs t = some o := by
        cases e : s.objs t with
        | none => exact absurd het (by simp [rc, e])
        | some o => exact ⟨o, rfl⟩
      have hmo := hct o ho
      have hlt := h.objs_lt t o ho
      rw [rc_eq ho] at het
      have h0 : o.refCount ≠ 0 := by omega
      have hnd : ¬ s.isDying o := fun hd => h0 hd.2
      have hcount := h.counts_lt t o ho
      obtain ⟨n, hn⟩ : ∃ n, o.refCount = n + 1 := ⟨o.refCount - 1, by omega⟩
      have hpred : u32 (o.refCount + (2^32 - 1)) = n := by
        rw [hn]
        exact u32_pred (by omega)
      have hunfold : decRefCount (k + 1) s (.obj t) info =
          if n = 0 then
            (deleteConstituentObject (decRefCount k) (s.setObj t { o with refCount := n }) t o
              info).map fun s'' => s''.freeRAM t
          else some (s.setObj t { o with refCount := n }) := by
        simp only [decRefCount, hm, ho, hpred, if_true]
      rw [hunfold]
      by_cases hz : n = 0
      · subst hz
        rw [if_pos rfl]
        obtain ⟨s₁, h₁⟩ : ∃ s₁ : Store, s₁ =
          { s.setObj t { o with refCount := 0 } with deleted := t :: s.deleted } := ⟨_, rfl⟩
        have hs₁ : s₁.Sane := h₁ ▸ h.setZero ho hmo hnd
        have he₁ : s₁.Exact fun x => w x + refsOf o.fields x := by
          rw [h₁]
          exact he.setZero hlt ho hmo hn
        have halive : s₁.aliveCount < k := by
          have hset := aliveCount_setObj (o := { o with refCount := 0 }) hlt
          have hsame : s₁.aliveCount = (s.setObj t { o with refCount := 0 }).aliveCount := by
            rw [h₁]
            rfl
          rw [rc_eq ho, if_neg h0, if_pos rfl] at hset
          omega
        have hself : s₁.objs t = some { o with refCount := 0 } := by
          rw [h₁]
          exact Function.update_self _ _ _
        have hdy : s₁.isDying { o with refCount := 0 } := by
          rw [h₁]
          exact ⟨hmo, rfl⟩
        obtain ⟨s₂, hrun, hs₂, he₂, hc⟩ : ∃ s₂,
            deleteConstituentObject (decRefCount k) (s.setObj t { o with refCount := 0 }) t o info =
              some s₂ ∧ s₂.Sane ∧ s₂.Exact w ∧ s₁.Cascade s₂ := by
          by_cases hdm : destroysMembers info = true
          · have hrun : deleteConstituentObject (decRefCount k)
                (s.setObj t { o with refCount := 0 }) t o info =
                destroyHandles (decRefCount k) (members t o).reverse s₁ := by
              rw [h₁]
              exact if_pos hdm
            rw [hrun]
            refine destroyHandles_spec ih _ hs₁ (fun x hx => ?_) (fun x hx => ?_) halive
            · have hp := members_proper h ho x (List.mem_reverse.mp hx)
              rw [h₁]
              exact (sameShape_setCount ho 0).proper hp
            · show s₁.rc x = s₁.census x + (w x + pending (members t o).reverse x)
              rw [pending_members_reverse]
              exact he₁ x hx
          · have hrun : deleteConstituentObject (decRefCount k)
                (s.setObj t { o with refCount := 0 }) t o info = some s₁ := by
              rw [h₁]
              exact if_neg hdm
            have hnone := h.members t o ho (by rw [ht o ho]; simpa using hdm)
            refine ⟨s₁, hrun, hs₁, fun x hx => ?_, Cascade.refl s₁⟩
            have : s₁.rc x = s₁.census x + (w x + refsOf o.fields x) := he₁ x hx
            rwa [refsOf_eq_zero hnone] at this
        have hthere := hc.dying t _ hself hdy
        have hnext : t < s₂.next := by
          rw [hc.next, h₁]
          exact hlt
        have hdy₂ : s₂.isDying { o with refCount := 0 } := (hc.isDying _).mpr hdy
        exact ⟨s₂.freeRAM t, by rw [hrun]; rfl, hs₂.freeRAM hthere hdy₂,
          exact_freeRAM he₂ hnext hthere hdy₂, cascade_free hlt ho h0 hmo h₁ hc⟩
      · rw [if_neg hz]
        have hkeep : s.isDying { o with refCount := n } ↔ s.isDying o := by
          simp only [isDying]
          omega
        refine ⟨_, rfl, h.setCount ho (by omega) hkeep, ?_, cascade_setCount hlt ho h0 hz⟩
        refine he.setCount hlt ho hkeep (fun _ => ?_) fun x hx => ?_
        · simp only [if_true]
          omega
        · rw [if_neg (fun e => hx e.symm)]
          rfl
    · refine ⟨s, by simp only [decRefCount, if_neg hm], h, fun a ha => ?_, Cascade.refl s⟩
      have hne : t ≠ a := by
        rintro rfl
        exact hm (isManaged_of_counted ha)
      have : s.rc a = s.census a + (w a + if t = a then 1 else 0) := he a ha
      rwa [if_neg hne] at this

end Store

end Netsdb
