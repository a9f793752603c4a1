import Netsdb.ObjectModel.HandleCopy

/-!
# Pointing a handle to something (`pointTo`, `assignHandle`)

* `copyMembers_spec`     memberwise assignment into a new object;
* `pointTo_spec`         the counts stay exact, but for the handle's old target, which loses one;
* `assignHandle_copy`    enough fuel for the depth of the copy is enough.
-/

namespace Netsdb
open Finset

namespace Store

section
variable {s : Store} {l this fromMe : Loc} {x y old rhs : Handle} {a b : Nat} {o : RefCountedObject}
  {f : Store → Loc → Loc → Option Store} {w : Nat → Nat} {N k : Nat}

/-! ## where the deep copy starts -/

theorem setHandle_containsLoc (s : Store) (l : Loc) (x : Handle) (m : Loc) :
    (s.setHandle l x).containsLoc m = s.containsLoc m := by
  obtain ⟨-, -, f3, -⟩ := setHandle_fixed s l x
  simp only [containsLoc, setHandle_locBlock, f3]

theorem setHandle_contains (s : Store) (l : Loc) (x : Handle) (t : Target) :
    (s.setHandle l x).contains t = s.contains t := by
  cases t with
  | before m => exact setHandle_containsLoc s l x m
  | obj a =>
    obtain ⟨-, -, f3, -⟩ := setHandle_fixed s l x
    simp only [contains, setHandle_objs, Option.map_map, f3]
    rfl

/-- a handle that is there is no member of the next object -/
theorem outside_next (h : s.Sane) (hl : s.handleAt l = some x) : Outside (· = s.next) l := by
  cases l with
  | root n => exact True.intro
  | field b i =>
    obtain ⟨o, ho, -⟩ := Option.bind_eq_some_iff.mp hl
    exact Nat.ne_of_lt (h.objs_lt b o ho)

theorem setHandle_born (hl : Outside (· = s.next) l) (x : Handle) (o : RefCountedObject) :
    (s.setHandle l x).born o = (s.born o).setHandle l x := by
  cases l with
  | root n =>
    simp only [setHandle, born]
    cases s.roots n <;> rfl
  | field b i =>
    have e : b ≠ s.next := hl
    simp only [setHandle, born, Function.update_of_ne e]
    cases s.objs b with
    | none => rfl
    | some o' => simp only [setObj, Function.update_comm e]

/-- writing a member leaves the number of members -/
theorem setHandle_fields_length (ha : s.objs a = some o) (l : Loc) (x : Handle) :
    ∃ o', (s.setHandle l x).objs a = some o' ∧ o'.fields.length = o.fields.length := by
  rw [setHandle_objs, ha]
  refine ⟨_, rfl, ?_⟩
  cases l with
  | root n => rfl
  | field b i =>
    simp only
    split
    · exact List.length_set
    · rfl

/-- what was at `this` before is not read -/
theorem pointTo_setHandle (fromMe : Loc) (rhs : Handle) (hl : Outside (· = s.next) this) (y : Handle) :
    pointTo f (s.setHandle this y) this fromMe rhs = pointTo f s this fromMe rhs := by
  obtain ⟨f1, -, f3, -⟩ := setHandle_fixed s this y
  simp only [pointTo, setHandle_contains, setHandle_containsLoc, setHandle_setHandle]
  split
  · cases rhs.target with
    | before m => rfl
    | obj b =>
      cases hb : s.objs b with
      | none =>
        have hb' : (s.setHandle this y).objs b = none := by
          rw [setHandle_objs, hb]
          rfl
        simp only [hb, hb']
      | some o =>
        obtain ⟨o', ho', hlen⟩ := setHandle_fields_length hb this y
        have hnew : ((s.setHandle this y).allocate rhs.typeInfo o'.fields.length).setHandle this
            ⟨.obj s.next, rhs.typeInfo⟩ =
            (s.allocate rhs.typeInfo o.fields.length).setHandle this
              ⟨.obj s.next, rhs.typeInfo⟩ := by
          have hborn := setHandle_born hl y
            ⟨s.active, 1, rhs.typeInfo, 0, nullFields s.next o.fields.length⟩
          have halloc : (s.setHandle this y).allocate rhs.typeInfo o'.fields.length =
              (s.setHandle this y).born
                ⟨s.active, 1, rhs.typeInfo, 0, nullFields s.next o.fields.length⟩ := by
            rw [hlen]
            simp only [allocate, born, f1, f3]
          rw [halloc, hborn, setHandle_setHandle]
          rfl
        simp only [hb, ho', hnew, f1]
  · rfl

/-- the object a deep copy starts with: the data, but no handles yet -/
def blankCopy (s : Store) (info : Int) (o : RefCountedObject) : RefCountedObject :=
  ⟨s.active, 1, info, o.data, nullFields s.next o.fields.length⟩

/-- the store in which a deep copy starts to copy members -/
def startCopy (s : Store) (this : Loc) (info : Int) (o : RefCountedObject) : Store :=
  (s.born (s.blankCopy info o)).setHandle this ⟨.obj s.next, info⟩

theorem pointTo_shallow (h : ¬ (s.contains rhs.target = false ∧ s.containsLoc this = true)) :
    pointTo f s this fromMe rhs = some ((s.setHandle this rhs).incRefCount rhs.target) := if_neg h

theorem handleAt_setHandle_of_ne (s : Store) (x : Handle) {m : Loc} (e : m ≠ l) :
    (s.setHandle l x).handleAt m = s.handleAt m := by
  cases m with
  | root n =>
    cases l with
    | field b i =>
      simp only [Store.setHandle]
      cases s.objs b <;> rfl
    | root k =>
      have e' : n ≠ k := fun h => e (h ▸ rfl)
      simp only [Store.setHandle]
      cases hk : s.roots k with
      | none => rfl
      | some r => simp [handleAt, e']
  | field c j =>
    simp only [handleAt, setHandle_objs]
    cases s.objs c with
    | none => rfl
    | some o =>
      cases l with
      | root n => rfl
      | field b i =>
        simp only [Option.map_some, Option.bind_some]
        split
        · next hc =>
          have e' : i ≠ j := by
            rintro rfl
            exact e (hc ▸ rfl)
          exact List.getElem?_set_ne e'
        · rfl

theorem handleAt_born (h : s.Sane) (hl : s.handleAt l = some x) (o : RefCountedObject) :
    (s.born o).handleAt l = some x := by
  cases l with
  | root n => exact hl
  | field b i =>
    have e : b ≠ s.next := outside_next h hl
    simpa only [handleAt, born, Function.update_of_ne e] using hl

theorem pointTo_deep (h : s.Sane) (hd : s.contains rhs.target = false ∧ s.containsLoc this = true)
    (ht : rhs.target = .obj b) (hb : s.objs b = some o) (hthis : s.handleAt this = some old)
    (hfrom : s.handleAt fromMe = some rhs) (hne : fromMe ≠ this) :
    pointTo f s this fromMe rhs =
      copyMembers f s.next b (List.range o.fields.length) (s.startCopy this rhs.typeInfo o) := by
  have hout := outside_next h hthis
  have hbn : b ≠ s.next := Nat.ne_of_lt (h.objs_lt b o hb)
  obtain ⟨s₁, hs₁⟩ : ∃ s₁, (s.allocate rhs.typeInfo o.fields.length).setHandle this
    ⟨.obj s.next, rhs.typeInfo⟩ = s₁ := ⟨_, rfl⟩
  have hread : s₁.handleAt fromMe = some rhs := by
    rw [← hs₁, handleAt_setHandle_of_ne _ _ hne]
    exact handleAt_born h hfrom _
  have hself : s₁.objs s.next =
      some ⟨s.active, 1, rhs.typeInfo, 0, nullFields s.next o.fields.length⟩ := by
    rw [← hs₁, setHandle_objs_of_outside (R := (· = s.next)) hout rfl]
    exact Function.update_self _ _ _
  obtain ⟨ob, hob, hlen, hdata⟩ : ∃ ob, s₁.objs b = some ob ∧
      ob.fields.length = o.fields.length ∧ ob.data = o.data := by
    have hold : (s.allocate rhs.typeInfo o.fields.length).objs b = some o :=
      (Function.update_of_ne hbn _ _).trans hb
    rw [← hs₁]
    obtain ⟨o', ho', hlen⟩ := setHandle_fields_length hold this ⟨.obj s.next, rhs.typeInfo⟩
    refine ⟨o', ho', hlen, ?_⟩
    rw [setHandle_objs, hold] at ho'
    cases ho'
    rfl
  have hstart : s₁.setObj s.next (s.blankCopy rhs.typeInfo o) =
      s.startCopy this rhs.typeInfo o := by
    have hcomm := setHandle_setObj (s := s.allocate rhs.typeInfo o.fields.length)
      (R := (· = s.next)) (x := ⟨.obj s.next, rhs.typeInfo⟩) hout rfl (s.blankCopy rhs.typeInfo o)
    rw [← hs₁, hcomm]
    simp only [startCopy, allocate, born, setObj, Function.update_idem]
  have hsetup : setUpAndCopyFrom f s₁ s.next (.obj b) =
      copyMembers f s.next b (List.range o.fields.length) (s.startCopy this rhs.typeInfo o) := by
    simp only [setUpAndCopyFrom, hself, setObj_objs, Function.update_of_ne hbn, hob, nullFields,
      List.length_map, List.length_range, hlen, hdata]
    rw [← hstart]
    simp only [setObj, Function.update_idem, blankCopy, nullFields]
  simp only [ht] at hd
  simp only [pointTo, ht, hd, hb, and_self, if_true, hs₁, hread, Option.bind_some, hsetup]

theorem CanHold.of_obj (h : s.CanHold l x) (hx : x.target = .obj b) (y : Handle) :
    s.CanHold l y := by
  rcases h with ⟨m, hm⟩ | h
  · rw [hx] at hm
    cases hm
  · exact Or.inr h

theorem Grows.canHold {P : Loc → Prop} {s s' : Store} (h : Grows P s s') (hl : s.handleAt l = some y)
    (hx : s.CanHold l x) : s'.CanHold l x := by
  rcases hx with hx | hx
  · exact Or.inl hx
  · refine Or.inr fun b i o' e ho' => ?_
    subst e
    obtain ⟨o, ho, -⟩ := Option.bind_eq_some_iff.mp hl
    obtain ⟨o'', ho'', -, et, -⟩ := h.objs b o ho
    rw [ho'] at ho''
    cases ho''
    rw [et]
    exact hx b i o rfl ho

/-- objects that come later are counted before they are there -/
theorem Grows.counted_before {P : Loc → Prop} {s s' : Store} (h : Grows P s s') (hs : s.Sane)
    (ha : s'.Counted a) : s.Counted a := by
  by_cases hlt : a < s.next
  · exact (h.counted hlt).mp ha
  · exact fun o ho => absurd (hs.objs_lt a o ho) hlt

theorem startCopy_spec (h : s.Booked w) (hthis : s.handleAt this = some old) {info : Int}
    (hcan : s.CanHold this ⟨.obj s.next, info⟩) (o : RefCountedObject) :
    (s.startCopy this info o).Booked (fun a => w a + holds old a) ∧
      Grows (· = this) s (s.startCopy this info o) ∧
      (∀ a, a < s.next → (s.startCopy this info o).rc a = s.rc a) ∧
      (s.startCopy this info o).objs s.next = some (s.blankCopy info o) ∧
      (s.startCopy this info o).handleAt this = some ⟨.obj s.next, info⟩ := by
  obtain ⟨hsane, hcalm, hgrows, hcensus, hrc⟩ :=
    born_spec (o := s.blankCopy info o) h.sane h.calm h.exact rfl rfl rfl
  have hself : (s.born (s.blankCopy info o)).objs s.next = some (s.blankCopy info o) :=
    Function.update_self _ _ _
  have hat := handleAt_born h.sane hthis (s.blankCopy info o)
  have hproper : (s.born (s.blankCopy info o)).Proper this ⟨.obj s.next, info⟩ := by
    refine Or.inr ⟨s.next, rfl, fun y hy => ?_⟩
    rw [hself] at hy
    cases hy
    rfl
  have hsane' := hsane.setHandle hproper (hgrows.canHold hthis hcan)
  have hgrows' : Grows (· = this) s (s.startCopy this info o) :=
    (hgrows.mono fun _ hf => hf.elim).trans (hsane.setHandle_grows _ _)
  have hrc' : ∀ a, (s.startCopy this info o).rc a = if a = s.next then 1 else s.rc a :=
    fun a => (setHandle_rc _ _ _ a).trans (hrc a)
  refine ⟨⟨hsane', hcalm.setHandle _ _, fun a ha => ?_⟩, hgrows', fun a ha => ?_, ?_,
    handleAt_setHandle hat⟩
  · have hex := h.exact a (hgrows'.counted_before h.sane ha)
    have hsum : (s.startCopy this info o).census a + holds old a =
        (s.born (s.blankCopy info o)).census a + holds ⟨.obj s.next, info⟩ a :=
      census_setHandle hsane hcalm hat _ a
    rw [hcensus a] at hsum
    rw [hrc' a]
    by_cases e : a = s.next
    · subst e
      have hzero : s.rc s.next = 0 := by
        have hnone : s.objs s.next = none := by
          cases e : s.objs s.next with
          | none => rfl
          | some y => exact absurd (h.sane.objs_lt _ y e) (Nat.lt_irrefl _)
        simp [rc, hnone]
      simp only [holds, if_true] at hsum ⊢
      omega
    · have hno : holds ⟨.obj s.next, info⟩ a = 0 := if_neg (by simp [Ne.symm e])
      rw [if_neg e]
      omega
  · rw [hrc' a, if_neg (Nat.ne_of_lt ha)]
  · show ((s.born (s.blankCopy info o)).setHandle this _).objs s.next = _
    rw [setHandle_objs_of_outside (R := (· = s.next)) (outside_next h.sane hthis) rfl]
    exact hself

/-! ## memberwise assignment -/

/-- what `f` does for a null handle in the current block, as far as depth `k` -/
def CopySpec (f : Store → Loc → Loc → Option Store) (k : Nat) : Prop :=
  ∀ (N : Nat) (s : Store) (w : Nat → Nat) (this fromMe : Loc) (old rhs : Handle),
    s.Booked w → Frozen N s → s.handleAt this = some old → old.target = .before this →
    s.containsLoc this = true → s.handleAt fromMe = some rhs → s.CanHold this rhs →
    (∀ c, rhs.target = .obj c → c < N) → copyDepthLE k s rhs.target = true →
    (∀ a, a < N → s.Counted a → s.rc a + shallowCopies k s rhs.target a < 2^32) →
    ∃ s', f s this fromMe = some s' ∧ s'.Booked w ∧ Grows (· = this) s s' ∧
      ∀ a, a < N → s.Counted a → s'.rc a = s.rc a + shallowCopies k s rhs.target a

/-- the members `js` of object `n` are assigned from those of object `b`, which are `ys` -/
theorem copyMembers_spec (hf : CopySpec f k) {n : Nat} (hne : b ≠ n) (ys : Nat → Handle)
    (js : List Nat) (hjs : js.Nodup) : ∀ {t : Store} {on : RefCountedObject}, t.Booked w →
      Frozen N t → t.objs n = some on → on.block = t.active →
      (∀ i ∈ js, t.handleAt (.field n i) = some (nullHandle (.field n i))) →
      (∀ i ∈ js, t.handleAt (.field b i) = some (ys i)) →
      (∀ i ∈ js, (∃ m, (ys i).target = .before m) ∨ destroysMembers on.typeInfo = true) →
      (∀ i ∈ js, ∀ c, (ys i).target = .obj c → c < N) →
      (∀ i ∈ js, copyDepthLE k t (ys i).target = true) →
      (∀ a, a < N → t.Counted a →
        t.rc a + (js.map fun i => shallowCopies k t (ys i).target a).sum < 2^32) →
      ∃ t', copyMembers f n b js t = some t' ∧ t'.Booked w ∧
        Grows (fun l => ∃ i, l = .field n i) t t' ∧
        ∀ a, a < N → t.Counted a →
          t'.rc a = t.rc a + (js.map fun i => shallowCopies k t (ys i).target a).sum := by
  induction js with
  | nil => exact fun {t on} h _ _ _ _ _ _ _ _ _ => ⟨t, rfl, h, h.sane.grows_refl _, fun _ _ _ => rfl⟩
  | cons i js ih =>
    intro t on h hN hn hblock hnull hys hcan hlt hdepth hroom
    obtain ⟨hi, hnd⟩ := List.nodup_cons.mp hjs
    have hloc : t.containsLoc (.field n i) = true := by
      simp [containsLoc, locBlock, hn, hblock]
    have hcanI : t.CanHold (.field n i) (ys i) := by
      rcases hcan i List.mem_cons_self with hc | hc
      · exact Or.inl hc
      · refine Or.inr fun c j oc e hoc => ?_
        cases e
        rw [hn] at hoc
        cases hoc
        exact hc
    obtain ⟨t₁, hrun, h₁, hg, hrc⟩ := hf N t w (.field n i) (.field b i) _ (ys i) h hN
      (hnull i List.mem_cons_self) rfl hloc (hys i List.mem_cons_self) hcanI
      (hlt i List.mem_cons_self) (hdepth i List.mem_cons_self) (fun a ha hc => by
        have := hroom a ha hc
        simp only [List.map_cons, List.sum_cons] at this
        omega)
    have hnear : t.Near (· = .field n i) := by
      intro c j oc e hoc
      cases e
      rw [hn] at hoc
      cases hoc
      exact hblock
    obtain ⟨on₁, hn₁, eb, et, -⟩ := hg.objs n on hn
    -- nothing that is still to be copied has changed
    have hcopies : ∀ j ∈ i :: js, (∀ a, shallowCopies k t₁ (ys j).target a =
        shallowCopies k t (ys j).target a) ∧
          copyDepthLE k t₁ (ys j).target = copyDepthLE k t (ys j).target := fun j hj =>
      hg.copies hnear h.noDangling k _ fun c hc => h.noDangling _ _ c (hys j hj) hc
    have hsum : ∀ a, (js.map fun j => shallowCopies k t₁ (ys j).target a).sum =
        (js.map fun j => shallowCopies k t (ys j).target a).sum := fun a =>
      congrArg List.sum (List.map_congr_left fun j hj =>
        (hcopies j (List.mem_cons_of_mem _ hj)).1 a)
    obtain ⟨t', hrun', h', hg', hrc'⟩ := ih hnd h₁ (hN.grows hg hnear) hn₁
      (by rw [eb, hg.active, hblock])
      (fun j hj => hg.handles _ _ (fun e => by cases e; exact hi hj)
        (hnull j (List.mem_cons_of_mem _ hj)))
      (fun j hj => hg.handles _ _ (fun e => by cases e; exact hne rfl)
        (hys j (List.mem_cons_of_mem _ hj)))
      (fun j hj => by rw [et]; exact hcan j (List.mem_cons_of_mem _ hj))
      (fun j hj => hlt j (List.mem_cons_of_mem _ hj))
      (fun j hj => by
        have hj' := List.mem_cons_of_mem i hj
        rw [(hcopies j hj').2]
        exact hdepth j hj')
      (fun a ha hc => by
        have hca := (hg.counted (Nat.lt_of_lt_of_le ha hN.le)).mp hc
        have := hroom a ha hca
        have := hrc a ha hca
        have := hsum a
        simp only [List.map_cons, List.sum_cons] at *
        omega)
    refine ⟨t', ?_, h', (hg.mono fun l hl => ⟨i, hl⟩).trans hg', fun a ha hc => ?_⟩
    · show (f t (.field n i) (.field b i)).bind (copyMembers f n b js) = some t'
      rw [hrun]
      exact hrun'
    · have := hrc a ha hc
      have := hrc' a ha ((hg.counted (Nat.lt_of_lt_of_le ha hN.le)).mpr hc)
      have := hsum a
      simp only [List.map_cons, List.sum_cons] at *
      omega

/-! ## pointing a handle -/

/-- `t'` is in `s'` what `t` is in `s`: an object of the same type with the same data -/
def SameValue (s : Store) (t : Target) (s' : Store) (t' : Target) : Prop :=
  ∃ b o c o', t = .obj b ∧ s.objs b = some o ∧ t' = .obj c ∧ s'.objs c = some o' ∧
    o'.typeInfo = o.typeInfo ∧ o'.data = o.data ∧ o'.fields.length = o.fields.length

/-- the deep copy is taken -/
def Deep (s : Store) (this : Loc) (t : Target) : Prop :=
  s.contains t = false ∧ s.containsLoc this = true

instance (s : Store) (this : Loc) (t : Target) : Decidable (s.Deep this t) :=
  inferInstanceAs (Decidable (_ ∧ _))

theorem proper_of_handle (h : s.Sane) (hl : s.handleAt l = some x) : s.Proper l x := by
  cases l with
  | root n =>
    obtain ⟨r, hr, rfl⟩ := Option.map_eq_some_iff.mp hl
    exact h.roots_ok n r hr
  | field b i =>
    obtain ⟨o, ho, hi⟩ := Option.bind_eq_some_iff.mp hl
    exact h.fields_ok b o i x ho hi

theorem Proper.typeInfo (h : s.Proper l x) (hx : x.target = .obj b) (hb : s.objs b = some o) :
    o.typeInfo = x.typeInfo := by
  rcases h with h | ⟨c, hc, ht⟩
  · rw [hx] at h
    cases h
  · rw [hx] at hc
    cases hc
    exact ht o hb

theorem near_of_containsLoc (h : s.containsLoc this = true) : s.Near (· = this) := by
  intro b i o e ho
  subst e
  simpa [containsLoc, locBlock, ho] using h

/-- what `pointTo` guarantees, apart from how the counts have grown -/
structure Pointed (s : Store) (w : Nat → Nat) (this : Loc) (old rhs : Handle) (s' : Store) :
    Prop where
  booked : s'.Booked fun a => w a + holds old a
  grows : Grows (· = this) s s'
  value : ∃ x, s'.handleAt this = some x ∧ x.typeInfo = rhs.typeInfo ∧
    s.SameValue rhs.target s' x.target ∧ (¬ s.Deep this rhs.target → x = rhs)

theorem shallow_spec (h : s.Booked w) (hthis : s.handleAt this = some old)
    (hfrom : s.handleAt fromMe = some rhs) (ht : rhs.target = .obj b) (hcan : s.CanHold this rhs)
    (hroom : s.Counted b → s.rc b + 1 < 2^32) :
    s.Pointed w this old rhs ((s.setHandle this rhs).incRefCount rhs.target) ∧
      ∀ a, s.Counted a → ((s.setHandle this rhs).incRefCount rhs.target).rc a =
        s.rc a + if rhs.target = .obj a then 1 else 0 := by
  obtain ⟨o, ho⟩ := h.noDangling fromMe rhs b hfrom ht
  have hproper : s.Proper this rhs :=
    Or.inr ⟨b, ht, fun y hy => (proper_of_handle h.sane hfrom).typeInfo ht hy⟩
  have hsane := h.sane.setHandle hproper hcan
  have hcalm := h.calm.setHandle this rhs
  obtain ⟨o₁, ho₁, -, et, ed, el⟩ := (h.sane.setHandle_grows this rhs).objs b o ho
  obtain ⟨hsane', hcalm', hgrows, hcensus, hrc⟩ := incRefCount_spec hsane hcalm ho₁ (fun hc => by
    rw [setHandle_rc]
    exact hroom ((setHandle_counted s this rhs b).mp hc))
  obtain ⟨o₂, ho₂, -, et', ed', el'⟩ := hgrows.objs b o₁ ho₁
  have hcount : ∀ a, s.Counted a → ((s.setHandle this rhs).incRefCount rhs.target).rc a =
      s.rc a + if rhs.target = .obj a then 1 else 0 := by
    intro a ha
    have := hrc a ((setHandle_counted s this rhs a).mpr ha)
    rw [setHandle_rc] at this
    simpa [ht] using this
  have hgrows' : Grows (· = this) s ((s.setHandle this rhs).incRefCount rhs.target) := by
    rw [ht]
    exact (h.sane.setHandle_grows this rhs).trans (hgrows.mono fun _ hf => hf.elim)
  refine ⟨⟨⟨by rw [ht]; exact hsane', by rw [ht]; exact hcalm', fun a ha => ?_⟩, hgrows', rhs, ?_,
    rfl, ⟨b, o, b, o₂, ht, ho, ht, by rw [ht]; exact ho₂, et'.trans et, ed'.trans ed,
      el'.trans el⟩, fun _ => rfl⟩, hcount⟩
  · have hca := hgrows'.counted_before h.sane ha
    have hex := h.exact a hca
    have hsum := census_setHandle h.sane h.calm hthis rhs a
    have hsame := hcensus a
    rw [← ht] at hsame
    rw [hcount a hca, hsame]
    unfold holds at *
    omega
  · rw [ht]
    exact hgrows.handles _ _ (fun hf => hf) (handleAt_setHandle hthis)

theorem map_range_getD {β : Type*} (l : List Handle) (d : Handle) (g : Handle → β) :
    (List.range l.length).map (fun i => g (l[i]?.getD d)) = l.map g := by
  refine List.ext_getElem (by simp) fun i hi _ => ?_
  have hlt : i < l.length := by simpa using hi
  simp [hlt]

/-- the same changes, with fewer places said to be changed -/
theorem Grows.restrict {P Q : Loc → Prop} {s s' : Store} (h : Grows P s s')
    (hpq : ∀ l x, s.handleAt l = some x → P l → Q l) : Grows Q s s' :=
  ⟨h.next, h.active, h.inactive, h.objs, h.old, h.new,
    fun l x hl hx => h.handles l x (fun hp => hl (hpq l x hx hp)) hx⟩

theorem deep_spec (hf : CopySpec f k) (h : s.Booked w) (hN : Frozen N s)
    (hthis : s.handleAt this = some old) (hfrom : s.handleAt fromMe = some rhs)
    (ht : rhs.target = .obj b) (hd : s.Deep this rhs.target) (hcan : s.CanHold this rhs)
    (hne : fromMe ≠ this) (hdepth : copyDepthLE (k + 1) s rhs.target = true)
    (hroom : ∀ a, a < N → s.Counted a → s.rc a + shallowCopies (k + 1) s rhs.target a < 2^32) :
    ∃ s', pointTo f s this fromMe rhs = some s' ∧ s.Pointed w this old rhs s' ∧
      ∀ a, a < N → s.Counted a → s'.rc a = s.rc a + shallowCopies (k + 1) s rhs.target a := by
  obtain ⟨o, ho⟩ := h.noDangling fromMe rhs b hfrom ht
  have hcont : s.contains (.obj b) = false := ht ▸ hd.1
  have hfar := contains_obj_eq_false ho hcont
  have hnear := near_of_containsLoc hd.2
  have hbn : b ≠ s.next := Nat.ne_of_lt (h.sane.objs_lt b o ho)
  have htype := (proper_of_handle h.sane hfrom).typeInfo ht ho
  obtain ⟨hbook, hg, hrc, hself, hat⟩ :=
    startCopy_spec h hthis (hcan.of_obj ht ⟨.obj s.next, rhs.typeInfo⟩) o
  obtain ⟨t, htdef⟩ : ∃ t, s.startCopy this rhs.typeInfo o = t := ⟨_, rfl⟩
  have hpoint := pointTo_deep (f := f) h.sane hd ht ho hthis hfrom hne
  rw [htdef] at hbook hg hrc hself hat hpoint
  -- the members to be copied
  obtain ⟨ys, hysdef⟩ : ∃ ys : Nat → Handle, ys = fun i => o.fields[i]?.getD rhs := ⟨_, rfl⟩
  have hget : ∀ i ∈ List.range o.fields.length, o.fields[i]? = some (ys i) := by
    intro i hi
    have hlt := List.mem_range.mp hi
    simp [hysdef, hlt]
  have hmem : ∀ i ∈ List.range o.fields.length, ys i ∈ o.fields := fun i hi =>
    List.mem_of_getElem? (hget i hi)
  have hys : ∀ i ∈ List.range o.fields.length, s.handleAt (.field b i) = some (ys i) := by
    intro i hi
    simp [handleAt, ho, hget i hi]
  have hcopies : ∀ i ∈ List.range o.fields.length,
      (∀ a, shallowCopies k t (ys i).target a = shallowCopies k s (ys i).target a) ∧
        copyDepthLE k t (ys i).target = copyDepthLE k s (ys i).target := fun i hi =>
    hg.copies hnear h.noDangling k _ fun c hc => h.noDangling _ _ c (hys i hi) hc
  have hsum : ∀ a, ((List.range o.fields.length).map fun i =>
      shallowCopies k t (ys i).target a).sum = shallowCopies (k + 1) s rhs.target a := by
    intro a
    have hmap := map_range_getD o.fields rhs fun x => shallowCopies k s x.target a
    rw [ht]
    simp only [shallowCopies, hcont, ho]
    rw [← hmap]
    refine congrArg List.sum (List.map_congr_left fun i hi => ?_)
    rw [(hcopies i hi).1 a, hysdef]
  have hall : o.fields.all (fun x => copyDepthLE k s x.target) = true := by
    rw [ht] at hdepth
    simpa only [copyDepthLE, hcont, ho, Bool.false_or] using hdepth
  obtain ⟨s', hrun, hbook', hg', hrc'⟩ := copyMembers_spec hf hbn ys _ List.nodup_range hbook
    (hN.grows hg hnear) hself (show s.active = t.active from hg.active.symm)
    (fun i hi => by
      have hlt := List.mem_range.mp hi
      simp [handleAt, hself, blankCopy, nullFields, hlt])
    (fun i hi => hg.handles _ _ (fun e => hfar (hnear b i o e ho)) (hys i hi))
    (fun i hi => by
      by_cases hdm : destroysMembers o.typeInfo = true
      · exact Or.inr (by rw [← hdm, htype]; rfl)
      · have hno := h.sane.members b o ho (by simpa using hdm) (ys i) (hmem i hi)
        cases e : (ys i).target with
        | before m => exact Or.inl ⟨m, rfl⟩
        | obj c => exact absurd e (hno c))
    (fun i hi c hc => hN.far b o ho hfar (ys i) (hmem i hi) c hc)
    (fun i hi => by
      rw [(hcopies i hi).2]
      exact List.all_eq_true.mp hall (ys i) (hmem i hi))
    (fun a ha hc => by
      have hlt := Nat.lt_of_lt_of_le ha hN.le
      rw [hrc a hlt, hsum]
      exact hroom a ha ((hg.counted hlt).mp hc))
  have hgrows : Grows (· = this) s s' := by
    refine ((hg.mono (Q := fun l => l = this ∨ ∃ i, l = .field s.next i) fun _ e => Or.inl e).trans
      (hg'.mono fun _ e => Or.inr e)).restrict fun l x hl hp => ?_
    rcases hp with e | ⟨i, rfl⟩
    · exact e
    · exact absurd rfl (outside_next h.sane hl)
  obtain ⟨on, hon, -, et, ed, el⟩ := hg'.objs s.next _ hself
  have hat' : s'.handleAt this = some ⟨.obj s.next, rhs.typeInfo⟩ := by
    refine hg'.handles _ _ ?_ hat
    rintro ⟨i, rfl⟩
    exact outside_next h.sane hthis rfl
  refine ⟨s', by rw [hpoint]; exact hrun, ⟨hbook', hgrows, _, hat', rfl,
    ⟨b, o, s.next, on, ht, ho, rfl, hon, et.trans htype.symm, ed, ?_⟩, fun hn => absurd hd hn⟩,
    fun a ha hc => ?_⟩
  · rw [el]
    simp [blankCopy, nullFields]
  · have hlt := Nat.lt_of_lt_of_le ha hN.le
    rw [hrc' a ha ((hg.counted hlt).mpr hc), hrc a hlt, hsum]

/-- **Pointing a handle to something.** -/
theorem pointTo_spec (hf : CopySpec f k) (h : s.Booked w) (hN : Frozen N s)
    (hthis : s.handleAt this = some old) (hfrom : s.handleAt fromMe = some rhs)
    (ht : rhs.target = .obj b) (hb : b < N) (hcan : s.CanHold this rhs)
    (hne : s.Deep this rhs.target → fromMe ≠ this)
    (hdepth : s.containsLoc this = true → copyDepthLE (k + 1) s rhs.target = true)
    (hroom : ∀ a, a < N → s.Counted a → s.rc a + added (k + 1) s this rhs.target a < 2^32) :
    ∃ s', pointTo f s this fromMe rhs = some s' ∧ s.Pointed w this old rhs s' ∧
      ∀ a, a < N → s.Counted a → s'.rc a = s.rc a + added (k + 1) s this rhs.target a := by
  by_cases hd : s.Deep this rhs.target
  · have hadd : ∀ a, added (k + 1) s this rhs.target a = shallowCopies (k + 1) s rhs.target a :=
      fun a => if_pos hd
    simp only [hadd] at hroom ⊢
    exact deep_spec hf h hN hthis hfrom ht hd hcan (hne hd) (hdepth hd.2) hroom
  · have hadd : ∀ a, added (k + 1) s this rhs.target a =
        if rhs.target = .obj a then 1 else 0 := fun a => if_neg hd
    obtain ⟨hp, hrc⟩ := shallow_spec h hthis hfrom ht hcan (fun hc => by
      have := hroom b hb hc
      rwa [hadd b, if_pos ht] at this)
    exact ⟨_, pointTo_shallow hd, hp, fun a _ hc => by rw [hrc a hc, hadd a]⟩

/-- **Memberwise assignment, with as much fuel as the copy is deep.** -/
theorem assignHandle_copy (k : Nat) : CopySpec (assignHandle k) k := by
  induction k with
  | zero =>
    intro N s w this fromMe old rhs _ _ _ _ _ _ _ _ hdepth _
    cases hdepth
  | succ k ih =>
    intro N s w this fromMe old rhs h hN hthis hnull hloc hfrom hcan hlt hdepth hroom
    have hold : ∀ r, decOldRefCount k r this old = some r := fun r => if_neg fun e => e hnull
    by_cases hr : rhs.target = .before fromMe
    · have hsame : s.setHandle this ⟨.before this, old.typeInfo⟩ = s := by
        rw [← hnull]
        exact setHandle_self hthis
      refine ⟨s, ?_, h, h.sane.grows_refl _, fun a _ _ => ?_⟩
      · simp only [assignHandle, hthis, hfrom, hr, if_true, hold, Option.map_some, hsame]
      · rw [hr, shallowCopies_before, Nat.add_zero]
    · obtain ⟨b, ht⟩ : ∃ b, rhs.target = .obj b := by
        rcases proper_of_handle h.sane hfrom with hp | ⟨b, hb, -⟩
        · exact absurd hp hr
        · exact ⟨b, hb⟩
      have hne : fromMe ≠ this := by
        rintro rfl
        rw [hthis] at hfrom
        cases hfrom
        exact hr hnull
      have hadd : ∀ a, added (k + 1) s this rhs.target a = shallowCopies (k + 1) s rhs.target a := by
        intro a
        unfold added
        by_cases hc : s.contains rhs.target = true
        · simp [shallowCopies, hc]
        · simp [hc, hloc]
      obtain ⟨s', hrun, hp, hrc⟩ := pointTo_spec ih h hN hthis hfrom ht (hlt b ht) hcan
        (fun _ => hne) (fun _ => hdepth) (by simp only [hadd]; exact hroom)
      simp only [hadd] at hrc
      have hzero : (fun a => w a + holds old a) = w := funext fun a => by
        rw [holds_before hnull, Nat.add_zero]
      refine ⟨s', ?_, hzero ▸ hp.booked, hp.grows, hrc⟩
      have hwrite := pointTo_setHandle (f := assignHandle k) fromMe rhs
        (outside_next h.sane hthis) ⟨old.target, rhs.typeInfo⟩
      simp only [assignHandle, hthis, hfrom, hr, if_false, hwrite, hrun, Option.bind_some, hold]

end

end Store

end Netsdb
