import Netsdb.ObjectModel.HandleCount

/-!
# Fuel, and what a cascade does not touch

* `assignHandle_mono`       more fuel gives the same result;
* `decRefCount_setHandle`   a decrement commutes with writing a handle that is not a member of
                            an object it can reach, so it does not matter whether `offset = -1`
                            comes before or after.
-/

namespace Netsdb
namespace Store

/-! ## more fuel -/

section
variable {dec dec' : Store → Target → Int → Option Store}

theorem destroyHandle_mono (h : ∀ s t i r, dec s t i = some r → dec' s t i = some r) {s r : Store}
    {l : Loc} {x : Handle} (hr : destroyHandle dec s l x = some r) :
    destroyHandle dec' s l x = some r := by
  unfold destroyHandle at *
  split at hr
  · next hc => rw [if_pos hc, h _ _ _ _ hr]
  · next hc => rw [if_neg hc, hr]

theorem destroyHandles_mono (h : ∀ s t i r, dec s t i = some r → dec' s t i = some r)
    (l : List (Loc × Handle)) : ∀ {s r : Store}, destroyHandles dec l s = some r →
      destroyHandles dec' l s = some r := by
  induction l with
  | nil => exact fun {s r} hr => hr
  | cons y l ih =>
    intro s r hr
    obtain ⟨s', hs', hr'⟩ := Option.bind_eq_some_iff.mp hr
    exact Option.bind_eq_some_iff.mpr ⟨s', destroyHandle_mono h hs', ih hr'⟩

theorem deleteConstituentObject_mono (h : ∀ s t i r, dec s t i = some r → dec' s t i = some r)
    {s r : Store} {a : Nat} {o : RefCountedObject} {info : Int}
    (hr : deleteConstituentObject dec s a o info = some r) :
    deleteConstituentObject dec' s a o info = some r := by
  simp only [deleteConstituentObject] at *
  split at hr
  · next hc => rw [if_pos hc, destroyHandles_mono h _ hr]
  · next hc => rw [if_neg hc, hr]

end

theorem decRefCount_mono (k : Nat) : ∀ {s r : Store} {t : Target} {i : Int},
    decRefCount k s t i = some r → decRefCount (k + 1) s t i = some r := by
  induction k with
  | zero =>
    intro s r t i hr
    cases hr
  | succ k ih =>
    intro s r t i hr
    by_cases hm : s.isManaged t = true
    · cases t with
      | before l => simpa only [decRefCount, if_pos hm] using hr
      | obj a =>
        cases ho : s.objs a with
        | none => simpa only [decRefCount, if_pos hm, ho] using hr
        | some o =>
          simp only [decRefCount, if_pos hm, ho] at hr ⊢
          split at hr
          · next hz =>
            rw [if_pos hz]
            obtain ⟨s', hs', hr'⟩ := Option.map_eq_some_iff.mp hr
            exact Option.map_eq_some_iff.mpr
              ⟨s', deleteConstituentObject_mono (fun _ _ _ _ => ih) hs', hr'⟩
          · next hz => rw [if_neg hz, hr]
    · simpa only [decRefCount, if_neg hm] using hr

theorem decOldRefCount_mono {k : Nat} {s r : Store} {l : Loc} {x : Handle}
    (hr : decOldRefCount k s l x = some r) : decOldRefCount (k + 1) s l x = some r := by
  unfold decOldRefCount at *
  split at hr
  · next hc => rw [if_pos hc, decRefCount_mono k hr]
  · next hc => rw [if_neg hc, hr]

section
variable {f g : Store → Loc → Loc → Option Store}

theorem copyMembers_mono (h : ∀ s l m r, f s l m = some r → g s l m = some r) (n b : Nat)
    (l : List Nat) : ∀ {s r : Store}, copyMembers f n b l s = some r →
      copyMembers g n b l s = some r := by
  induction l with
  | nil => exact fun {s r} hr => hr
  | cons i l ih =>
    intro s r hr
    obtain ⟨s', hs', hr'⟩ := Option.bind_eq_some_iff.mp hr
    exact Option.bind_eq_some_iff.mpr ⟨s', h _ _ _ _ hs', ih hr'⟩

theorem setUpAndCopyFrom_mono (h : ∀ s l m r, f s l m = some r → g s l m = some r) {s r : Store}
    {n : Nat} {t : Target} (hr : setUpAndCopyFrom f s n t = some r) :
    setUpAndCopyFrom g s n t = some r := by
  unfold setUpAndCopyFrom at *
  split at hr
  · simp only at hr ⊢
    split at hr
    · exact copyMembers_mono h _ _ _ hr
    · cases hr
  · cases hr

theorem pointTo_mono (h : ∀ s l m r, f s l m = some r → g s l m = some r) {s r : Store}
    {l m : Loc} {x : Handle} (hr : pointTo f s l m x = some r) : pointTo g s l m x = some r := by
  unfold pointTo at *
  split at hr
  · next hc =>
    rw [if_pos hc]
    split at hr
    · split at hr
      · obtain ⟨y, hy, hr'⟩ := Option.bind_eq_some_iff.mp hr
        exact Option.bind_eq_some_iff.mpr ⟨y, hy, setUpAndCopyFrom_mono h hr'⟩
      · cases hr
    · cases hr
  · next hc => rw [if_neg hc, hr]

end

theorem assignHandle_mono (k : Nat) : ∀ {s r : Store} {l m : Loc},
    assignHandle k s l m = some r → assignHandle (k + 1) s l m = some r := by
  induction k with
  | zero =>
    intro s r l m hr
    cases hr
  | succ k ih =>
    intro s r l m hr
    unfold assignHandle at hr ⊢
    split at hr
    · split at hr
      · next hc =>
        rw [if_pos hc]
        obtain ⟨s', hs', hr'⟩ := Option.map_eq_some_iff.mp hr
        exact Option.map_eq_some_iff.mpr ⟨s', decOldRefCount_mono hs', hr'⟩
      · next hc =>
        rw [if_neg hc]
        obtain ⟨s', hs', hr'⟩ := Option.bind_eq_some_iff.mp hr
        exact Option.bind_eq_some_iff.mpr
          ⟨s', pointTo_mono (fun _ _ _ _ => ih) hs', decOldRefCount_mono hr'⟩
    · cases hr

theorem exec_mono {k : Nat} {s r : Store} {op : HandleOp} (hr : s.exec k op = some r) :
    s.exec (k + 1) op = some r := by
  cases op with
  | constructNull block info => exact hr
  | construct block m =>
    obtain ⟨x, hx, hr'⟩ := Option.bind_eq_some_iff.mp hr
    refine Option.bind_eq_some_iff.mpr ⟨x, hx, ?_⟩
    split at hr'
    · next hc => rw [if_pos hc, hr']
    · next hc => rw [if_neg hc, pointTo_mono (fun _ _ _ _ => assignHandle_mono k) hr']
  | assign l m => exact assignHandle_mono k hr
  | assignNull l =>
    obtain ⟨x, hx, hr'⟩ := Option.bind_eq_some_iff.mp hr
    obtain ⟨s', hs', hr''⟩ := Option.map_eq_some_iff.mp hr'
    exact Option.bind_eq_some_iff.mpr
      ⟨x, hx, Option.map_eq_some_iff.mpr ⟨s', decOldRefCount_mono hs', hr''⟩⟩
  | unsafe_cast l => exact hr
  | destroy n =>
    obtain ⟨x, hx, hr'⟩ := Option.bind_eq_some_iff.mp hr
    obtain ⟨s', hs', hr''⟩ := Option.map_eq_some_iff.mp hr'
    exact Option.bind_eq_some_iff.mpr ⟨x, hx, Option.map_eq_some_iff.mpr
      ⟨s', destroyHandle_mono (fun _ _ _ _ => decRefCount_mono k) hs', hr''⟩⟩

theorem exec_mono_le {k m : Nat} {s r : Store} {op : HandleOp} (hle : k ≤ m)
    (hr : s.exec k op = some r) : s.exec m op = some r := by
  induction hle with
  | refl => exact hr
  | step _ ih => exact exec_mono ih

/-! ## a handle out of reach -/

/-- a set of objects that no member handle leads out of -/
def Closed (s : Store) (R : Nat → Prop) : Prop :=
  ∀ a o, R a → s.objs a = some o → ∀ h ∈ o.fields, ∀ b, h.target = .obj b → R b

/-- the handle at `l` is not a member of an object of `R` -/
def Outside (R : Nat → Prop) : Loc → Prop
  | .root _ => True
  | .field b _ => ¬ R b

section
variable {s : Store} {R : Nat → Prop} {l : Loc} {x : Handle} {a : Nat}

theorem setHandle_managedBlock (s : Store) (l : Loc) (x : Handle) (b : Nat) :
    (s.setHandle l x).managedBlock b = s.managedBlock b := by
  cases l with
  | root n =>
    simp only [setHandle]
    cases s.roots n <;> rfl
  | field c i =>
    simp only [setHandle]
    cases s.objs c <;> rfl

/-- writing a handle leaves every object where it is, with its block, type, count and data -/
theorem setHandle_objs (s : Store) (l : Loc) (x : Handle) (a : Nat) :
    (s.setHandle l x).objs a = (s.objs a).map fun o =>
      { o with fields := match l with
        | .root _ => o.fields
        | .field b i => if a = b then o.fields.set i x else o.fields } := by
  cases l with
  | root n =>
    simp only [setHandle]
    cases s.roots n <;> simp
  | field c i =>
    simp only [setHandle]
    cases hc : s.objs c with
    | none =>
      by_cases e : a = c
      · subst e
        simp [hc]
      · simp [e]
    | some o =>
      by_cases e : a = c
      · subst e
        simp [hc]
      · simp [e]

theorem setHandle_objs_of_outside (hl : Outside R l) (ha : R a) :
    (s.setHandle l x).objs a = s.objs a := by
  rw [setHandle_objs]
  cases l with
  | root n => simp
  | field b i =>
    have e : a ≠ b := by
      rintro rfl
      exact hl ha
    simp [e]

theorem setHandle_locBlock (s : Store) (l : Loc) (x : Handle) (m : Loc) :
    (s.setHandle l x).locBlock m = s.locBlock m := by
  cases m with
  | field b i =>
    simp only [locBlock, setHandle_objs, Option.map_map]
    rfl
  | root n =>
    cases l with
    | field c i =>
      simp only [setHandle, locBlock]
      cases s.objs c <;> rfl
    | root k =>
      simp only [setHandle, locBlock]
      cases hk : s.roots k with
      | none => rfl
      | some r =>
        by_cases e : n = k
        · subst e
          simp [hk]
        · simp [e]

theorem setHandle_isManaged (s : Store) (l : Loc) (x : Handle) (t : Target) :
    (s.setHandle l x).isManaged t = s.isManaged t := by
  cases t with
  | before m => simp only [isManaged, setHandle_locBlock, setHandle_managedBlock]
  | obj a =>
    simp only [isManaged, setHandle_objs, setHandle_managedBlock]
    cases s.objs a <;> rfl

theorem setHandle_setObj (hl : Outside R l) (ha : R a) (o : RefCountedObject) :
    (s.setHandle l x).setObj a o = (s.setObj a o).setHandle l x := by
  cases l with
  | root n =>
    simp only [setHandle, setObj]
    cases s.roots n <;> rfl
  | field b i =>
    have e : b ≠ a := by
      rintro rfl
      exact hl ha
    simp only [setHandle, setObj, Function.update_of_ne e]
    cases s.objs b with
    | none => rfl
    | some o' => simp only [Function.update_comm e]

theorem setHandle_freeRAM (hl : Outside R l) (ha : R a) :
    (s.setHandle l x).freeRAM a = (s.freeRAM a).setHandle l x := by
  cases l with
  | root n =>
    simp only [setHandle, freeRAM]
    cases s.roots n <;> rfl
  | field b i =>
    have e : b ≠ a := by
      rintro rfl
      exact hl ha
    simp only [setHandle, freeRAM, setObj, Function.update_of_ne e]
    cases s.objs b with
    | none => rfl
    | some o' => simp only [Function.update_comm e]

theorem setHandle_deleted (s : Store) (l : Loc) (x : Handle) (a : Nat) :
    { s.setHandle l x with deleted := a :: (s.setHandle l x).deleted } =
      ({ s with deleted := a :: s.deleted } : Store).setHandle l x := by
  cases l with
  | root n =>
    simp only [setHandle]
    cases s.roots n <;> rfl
  | field b i =>
    simp only [setHandle]
    cases s.objs b <;> rfl

theorem setHandle_stray (s : Store) (l : Loc) (x : Handle) :
    { s.setHandle l x with stray := true } = ({ s with stray := true } : Store).setHandle l x := by
  cases l with
  | root n =>
    simp only [setHandle]
    cases s.roots n <;> rfl
  | field b i =>
    simp only [setHandle]
    cases s.objs b <;> rfl

/-- `dec` does the same with and without the handle at `l` written -/
def Commutes (dec : Store → Target → Int → Option Store) (R : Nat → Prop) (l : Loc) (x : Handle) :
    Prop :=
  ∀ (s : Store) (t : Target) (i : Int), s.Closed R → (∀ a, t = .obj a → R a) →
    dec (s.setHandle l x) t i = (dec s t i).map (fun r => r.setHandle l x) ∧
      ∀ r, dec s t i = some r → r.Closed R ∧ ∀ b, ¬ R b → r.objs b = s.objs b

theorem destroyHandles_commutes {dec : Store → Target → Int → Option Store}
    (hdec : Commutes dec R l x) (ys : List (Loc × Handle)) : ∀ {s : Store}, s.Closed R →
      (∀ y ∈ ys, ∀ a, y.2.target = .obj a → R a) →
      destroyHandles dec ys (s.setHandle l x) =
        (destroyHandles dec ys s).map (fun r => r.setHandle l x) ∧
        ∀ r, destroyHandles dec ys s = some r → r.Closed R ∧ ∀ b, ¬ R b → r.objs b = s.objs b := by
  induction ys with
  | nil =>
    intro s hs _
    refine ⟨rfl, fun r hr => ?_⟩
    cases hr
    exact ⟨hs, fun _ _ => rfl⟩
  | cons y ys ih =>
    intro s hs hy
    have hone : destroyHandle dec (s.setHandle l x) y.1 y.2 =
        (destroyHandle dec s y.1 y.2).map (fun r => r.setHandle l x) ∧
        ∀ r, destroyHandle dec s y.1 y.2 = some r →
          r.Closed R ∧ ∀ b, ¬ R b → r.objs b = s.objs b := by
      unfold destroyHandle
      rw [setHandle_isManaged]
      split
      · exact hdec s y.2.target y.2.typeInfo hs (hy y List.mem_cons_self)
      · refine ⟨rfl, fun r hr => ?_⟩
        cases hr
        exact ⟨hs, fun _ _ => rfl⟩
    simp only [destroyHandles, hone.1]
    cases hr : destroyHandle dec s y.1 y.2 with
    | none => simp
    | some r =>
      obtain ⟨hc, hframe⟩ := hone.2 r hr
      obtain ⟨h1, h2⟩ := ih hc fun z hz => hy z (List.mem_cons_of_mem _ hz)
      refine ⟨h1, fun r' hr' => ?_⟩
      obtain ⟨hc', hframe'⟩ := h2 r' hr'
      exact ⟨hc', fun b hb => (hframe' b hb).trans (hframe b hb)⟩

theorem Closed.setCount (h : s.Closed R) {o : RefCountedObject} (ha : s.objs a = some o) (n : Nat) :
    (s.setObj a { o with refCount := n }).Closed R := by
  intro c o' hc ho' y hy b hb
  obtain ⟨o'', ho'', ef, -⟩ := sameShape_setCount ha n c o' ho'
  rw [ef] at hy
  exact h c o'' hc ho'' y hy b hb

theorem Closed.freeRAM (h : s.Closed R) (a : Nat) : (s.freeRAM a).Closed R := by
  intro c o' hc ho' y hy b hb
  by_cases e : c = a
  · subst e
    simp at ho'
  · rw [freeRAM_objs, Function.update_of_ne e] at ho'
    exact h c o' hc ho' y hy b hb

/-- **A decrement commutes with writing a handle it cannot reach.** -/
theorem decRefCount_setHandle (hl : Outside R l) (k : Nat) : Commutes (decRefCount k) R l x := by
  induction k with
  | zero => exact fun s t i _ _ => ⟨rfl, fun r hr => nomatch hr⟩
  | succ k ih =>
    intro s t i hs ht
    simp only [decRefCount, setHandle_isManaged]
    by_cases hm : s.isManaged t = true
    · rw [if_pos hm, if_pos hm]
      cases t with
      | before m =>
        refine ⟨congrArg some (setHandle_stray s l x), fun r hr => ?_⟩
        cases hr
        exact ⟨hs, fun _ _ => rfl⟩
      | obj a =>
        have ha := ht a rfl
        simp only [setHandle_objs_of_outside hl ha]
        cases ho : s.objs a with
        | none =>
          refine ⟨congrArg some (setHandle_stray s l x), fun r hr => ?_⟩
          cases hr
          exact ⟨hs, fun _ _ => rfl⟩
        | some o =>
          simp only [setHandle_setObj hl ha]
          obtain ⟨n, hn⟩ : ∃ n, u32 (o.refCount + (2^32 - 1)) = n := ⟨_, rfl⟩
          simp only [hn]
          have hs₁ := hs.setCount ho n
          have hframe₁ : ∀ b, ¬ R b → (s.setObj a { o with refCount := n }).objs b = s.objs b := by
            intro b hb
            have e : b ≠ a := by
              rintro rfl
              exact hb ha
            rw [setObj_objs, Function.update_of_ne e]
          by_cases hz : n = 0
          · rw [if_pos hz, if_pos hz]
            have hdel : deleteConstituentObject (decRefCount k)
                ((s.setObj a { o with refCount := n }).setHandle l x) a o i =
                (deleteConstituentObject (decRefCount k) (s.setObj a { o with refCount := n }) a o
                  i).map (fun r => r.setHandle l x) ∧
                ∀ r, deleteConstituentObject (decRefCount k) (s.setObj a { o with refCount := n })
                  a o i = some r → r.Closed R ∧ ∀ b, ¬ R b → r.objs b = s.objs b := by
              simp only [deleteConstituentObject, setHandle_deleted]
              split
              · obtain ⟨h1, h2⟩ := destroyHandles_commutes ih (members a o).reverse
                  (s := { s.setObj a { o with refCount := n } with
                    deleted := a :: (s.setObj a { o with refCount := n }).deleted }) hs₁
                  (fun y hy c hc => by
                    refine hs a o ha ho y.2 ?_ c hc
                    obtain ⟨j, hj⟩ := List.mem_iff_getElem?.mp (List.mem_reverse.mp hy)
                    simp only [members, List.getElem?_mapIdx, Option.map_eq_some_iff] at hj
                    obtain ⟨z, hz, rfl⟩ := hj
                    exact List.mem_of_getElem? hz)
                refine ⟨h1, fun r hr => ?_⟩
                obtain ⟨hc, hframe⟩ := h2 r hr
                exact ⟨hc, fun b hb => (hframe b hb).trans (hframe₁ b hb)⟩
              · refine ⟨rfl, fun r hr => ?_⟩
                cases hr
                exact ⟨hs₁, hframe₁⟩
            rw [hdel.1]
            refine ⟨?_, fun r hr => ?_⟩
            · rw [Option.map_map, Option.map_map]
              refine congrArg (fun f => Option.map f _) (funext fun r => ?_)
              exact setHandle_freeRAM hl ha
            · obtain ⟨r', hr', rfl⟩ := Option.map_eq_some_iff.mp hr
              obtain ⟨hc, hframe⟩ := hdel.2 r' hr'
              refine ⟨hc.freeRAM a, fun b hb => ?_⟩
              have e : b ≠ a := by
                rintro rfl
                exact hb ha
              rw [freeRAM_objs, Function.update_of_ne e]
              exact hframe b hb
          · rw [if_neg hz, if_neg hz]
            refine ⟨rfl, fun r hr => ?_⟩
            cases hr
            exact ⟨hs₁, hframe₁⟩
    · rw [if_neg hm, if_neg hm]
      refine ⟨rfl, fun r hr => ?_⟩
      cases hr
      exact ⟨hs, fun _ _ => rfl⟩

end

end Store

end Netsdb
