import Netsdb.Lib.Reach
import Netsdb.ObjectModel.HandleAssign

/-!
# Runs of handle operations

`HandlesExact` is the condition on reference counts: every managed object's count is the number
of handles to it, and the objects that were destroyed and freed, each once, are those with no
handle left.

* `handlesExact_of_reach`   every run whose operations are all `Fine` keeps it, and every such
                            operation ends, with a handle that is null or has its source's value;
* `handlesExact_not_always` a cast of a null handle is not fine.
-/

namespace Netsdb
open Finset Machine

namespace Store

/-! ## the condition -/

/-- number of handles to `a` -/
def handleCount (s : Store) (a : Nat) : Nat :=
  ∑ n ∈ range s.numRoots, rootRefs a (s.roots n) +
    ∑ b ∈ range s.next, (s.objs b).elim 0 fun o => refsOf o.fields a

/-- an object graph -/
structure WellFormed (s : Store) : Prop where
  objs_lt : ∀ a o, s.objs a = some o → a < s.next
  counts_lt : ∀ a o, s.objs a = some o → o.refCount < 2^32
  roots_lt : ∀ n r, s.roots n = some r → n < s.numRoots
  roots_ok : ∀ n r, s.roots n = some r → s.Proper (.root n) r.handle
  fields_ok : ∀ a o i h, s.objs a = some o → o.fields[i]? = some h → s.Proper (.field a i) h
  /-- types whose deletion destroys no members hold no handles -/
  members : ∀ a o, s.objs a = some o → destroysMembers o.typeInfo = false →
    ∀ h ∈ o.fields, ∀ b, h.target ≠ .obj b

structure HandlesExact (s : Store) : Prop where
  counts : ∀ a o, s.objs a = some o → s.managedBlock o.block = true →
    o.refCount = s.handleCount a
  gone_iff : ∀ a, s.Counted a → (s.objs a = none ↔ s.handleCount a = 0)
  freed_iff : ∀ a, a ∈ s.freed ↔ a < s.next ∧ s.objs a = none
  freed_nodup : s.freed.Nodup
  deleted : s.deleted.Perm s.freed
  stray : s.stray = false

theorem Calm.handleCount {s : Store} (h : s.Calm) (a : Nat) : s.handleCount a = s.census a := by
  unfold Store.handleCount census
  refine congrArg _ (sum_congr rfl fun b _ => ?_)
  cases hb : s.objs b with
  | none => rfl
  | some o => exact (memberRefs_of_not_dying (h b o hb) a).symm

theorem Booked.wellFormed {s : Store} {w : Nat → Nat} (h : s.Booked w) : s.WellFormed :=
  ⟨h.sane.objs_lt, h.sane.counts_lt, h.sane.roots_lt, h.sane.roots_ok, h.sane.fields_ok,
    h.sane.members⟩

theorem Booked.handlesExact {s : Store} (h : s.Booked fun _ => 0) : s.HandlesExact := by
  have hex : ∀ a, s.Counted a → s.rc a = s.handleCount a := fun a ha =>
    (h.exact a ha).trans (h.calm.handleCount a).symm
  refine ⟨fun a o ho hm => ?_, fun a ha => ?_, h.sane.freed_iff, h.sane.freed_nodup, ?_,
    h.sane.stray⟩
  · rw [← hex a fun o' ho' => by rw [ho] at ho'; cases ho'; exact hm, rc_eq ho]
  · rw [← hex a ha]
    cases ho : s.objs a with
    | none => simp [rc, ho]
    | some o =>
      have hne : s.rc a ≠ 0 := by
        rw [rc_eq ho]
        exact fun hz => h.calm a o ho ⟨ha o ho, hz⟩
      simp [hne]
  · refine (List.perm_ext_iff_of_nodup h.sane.deleted_nodup h.sane.freed_nodup).mpr fun a => ?_
    have hno : ¬ s.Dying a := by
      rintro ⟨o, ho, hd⟩
      exact h.calm a o ho hd
    rw [h.sane.deleted_iff a]
    simp [hno]

theorem HandlesExact.booked {s : Store} (hw : s.WellFormed) (h : s.HandlesExact) :
    s.Booked fun _ => 0 := by
  have hcalm : s.Calm := by
    rintro a o ho ⟨hm, hz⟩
    have hc : s.Counted a := fun o' ho' => by rw [ho] at ho'; cases ho'; exact hm
    have hnone := (h.gone_iff a hc).mpr (by rw [← h.counts a o ho hm, hz])
    rw [ho] at hnone
    cases hnone
  refine ⟨⟨hw.objs_lt, hw.counts_lt, hw.roots_lt, hw.roots_ok, hw.fields_ok, hw.members,
    h.freed_nodup, h.freed_iff, h.deleted.nodup_iff.mpr h.freed_nodup, fun a => ?_, h.stray⟩,
    hcalm, fun a ha => ?_⟩
  · have hno : ¬ s.Dying a := fun ⟨o, ho, hd⟩ => hcalm a o ho hd
    rw [h.deleted.mem_iff]
    simp [hno]
  · rw [← hcalm.handleCount a]
    cases ho : s.objs a with
    | none =>
      rw [(h.gone_iff a ha).mp ho]
      simp [rc, ho]
    | some o => rw [rc_eq ho, h.counts a o ho (ha o ho), Nat.add_zero]

/-! ## when an operation does what it should -/

/-- the handles form no cycle -/
def Acyclic (s : Store) : Prop :=
  ∃ rank : Nat → Nat, ∀ a o h b, s.objs a = some o → h ∈ o.fields → h.target = .obj b →
    rank b < rank a

/-- no count overflows when `this` is pointed to where `h` points -/
def Room (s : Store) (this : Loc) (h : Handle) : Prop :=
  ∀ k a, a < s.next → s.Counted a → s.rc a + added k s this h.target a < 2^32

/-- the condition on an operation, in the state before it -/
def Fine (s : Store) (op : HandleOp) : Prop :=
  s.Acyclic ∧
    match op with
    | .construct block m => ∀ h, s.handleAt m = some h → h.target ≠ .before m →
        (s.constructNull block h.typeInfo).Room (.root s.numRoots) h
    | .assign l m => ∀ h, s.handleAt m = some h → h.target ≠ .before m →
        s.Room l h ∧ s.CanHold l h ∧ (s.Deep l h.target → m ≠ l)
    | .unsafe_cast m => ∀ h, s.handleAt m = some h → h.target ≠ .before m ∧
        ∀ a, h.target = .obj a → s.Counted a → s.rc a + 1 < 2^32
    | _ => True

/-- the handles of an operation are there -/
def Legal (s : Store) : HandleOp → Prop
  | .constructNull _ _ => True
  | .construct _ m => ∃ h, s.handleAt m = some h
  | .assign l m => (∃ h, s.handleAt l = some h) ∧ ∃ h, s.handleAt m = some h
  | .assignNull l => ∃ h, s.handleAt l = some h
  | .unsafe_cast m => ∃ h, s.handleAt m = some h
  | .destroy n => ∃ r, s.roots n = some r

def IsNull (s : Store) (l : Loc) : Prop := ∃ h, s.handleAt l = some h ∧ h.target = .before l

/-- the handle at `l` in `u` is null if the one at `m` in `s` was, else it has its value -/
def Copied (s : Store) (m : Loc) (u : Store) (l : Loc) : Prop :=
  ∀ h, s.handleAt m = some h →
    (h.target = .before m → u.IsNull l) ∧
    (h.target ≠ .before m → ∃ h', u.handleAt l = some h' ∧ h'.typeInfo = h.typeInfo ∧
      s.SameValue h.target u h'.target)

/-- what the handle an operation is about is afterwards -/
def Outcome (s : Store) (op : HandleOp) (u : Store) : Prop :=
  match op with
  | .constructNull _ _ => u.IsNull (.root s.numRoots)
  | .construct _ m => s.Copied m u (.root s.numRoots)
  | .assign l m => s.Copied m u l
  | .assignNull l => u.IsNull l
  | .unsafe_cast m => s.Copied m u (.root s.numRoots)
  | .destroy n => u.roots n = none

section
variable {s : Store} {l this fromMe : Loc} {x h old rhs : Handle} {a b k : Nat}
  {o : RefCountedObject} {w : Nat → Nat}

/-! ## one more handle by itself, one less -/

@[simp] theorem addRoot_roots (s : Store) (block : Option Nat) (x : Handle) :
    (s.addRoot block x).roots = Function.update s.roots s.numRoots (some ⟨block, x⟩) := rfl

theorem addRoot_handleAt (s : Store) (block : Option Nat) (x : Handle) :
    (s.addRoot block x).handleAt (.root s.numRoots) = some x := by
  simp [handleAt, addRoot]

theorem addRoot_grows (hs : s.Sane) (block : Option Nat) (x : Handle) :
    Grows (fun _ => False) s (s.addRoot block x) := by
  refine ⟨Nat.le_refl _, rfl, rfl, fun a o ho => ⟨o, ho, rfl, rfl, rfl, rfl⟩, fun _ _ ho => ho,
    fun a o ha ho => absurd (hs.objs_lt a o ho) (Nat.not_lt_of_le ha), fun m y _ hy => ?_⟩
  cases m with
  | field b i => exact hy
  | root n =>
    obtain ⟨r, hr, rfl⟩ := Option.map_eq_some_iff.mp hy
    have e : n ≠ s.numRoots := Nat.ne_of_lt (hs.roots_lt n r hr)
    simp [handleAt, addRoot, e, hr]

theorem addRoot_sane (hs : s.Sane) (block : Option Nat)
    (hx : s.Proper (.root s.numRoots) x) : (s.addRoot block x).Sane := by
  refine ⟨hs.objs_lt, hs.counts_lt, fun n r hr => ?_, fun n r hr => ?_, hs.fields_ok, hs.members,
    hs.freed_nodup, hs.freed_iff, hs.deleted_nodup, hs.deleted_iff, hs.stray⟩
  · show n < s.numRoots + 1
    by_cases e : n = s.numRoots
    · omega
    · have hr' : s.roots n = some r := by rwa [addRoot_roots, Function.update_of_ne e] at hr
      have := hs.roots_lt n r hr'
      omega
  · by_cases e : n = s.numRoots
    · subst e
      rw [addRoot_roots, Function.update_self] at hr
      cases hr
      exact hx
    · have hr' : s.roots n = some r := by rwa [addRoot_roots, Function.update_of_ne e] at hr
      exact hs.roots_ok n r hr'

theorem addRoot_census (s : Store) (block : Option Nat) (x : Handle) (a : Nat) :
    (s.addRoot block x).census a = s.census a + holds x a := by
  have hroots : ∑ n ∈ range (s.numRoots + 1), rootRefs a ((s.addRoot block x).roots n) =
      ∑ n ∈ range s.numRoots, rootRefs a (s.roots n) + holds x a := by
    rw [sum_range_succ]
    have hlast : (s.addRoot block x).roots s.numRoots = some ⟨block, x⟩ :=
      Function.update_self _ _ _
    rw [hlast]
    refine congrArg (· + holds x a) (sum_congr rfl fun n hn => ?_)
    rw [addRoot_roots, Function.update_of_ne (Nat.ne_of_lt (mem_range.mp hn))]
  have hobjs : ∑ b ∈ range s.next, (s.addRoot block x).memberRefs a ((s.addRoot block x).objs b) =
      ∑ b ∈ range s.next, s.memberRefs a (s.objs b) := rfl
  show ∑ n ∈ range (s.numRoots + 1), rootRefs a ((s.addRoot block x).roots n) +
    ∑ b ∈ range s.next, (s.addRoot block x).memberRefs a ((s.addRoot block x).objs b) = _
  rw [hroots, hobjs]
  unfold census
  omega

/-- a new null handle -/
theorem constructNull_spec (hb : s.Booked w) (block : Option Nat) (info : Int) :
    (s.constructNull block info).Booked w ∧
      Grows (fun _ => False) s (s.constructNull block info) ∧
      (s.constructNull block info).handleAt (.root s.numRoots) =
        some ⟨.before (.root s.numRoots), info⟩ := by
  refine ⟨⟨addRoot_sane hb.sane block (Or.inl rfl), hb.calm, fun a ha => ?_⟩,
    addRoot_grows hb.sane _ _, addRoot_handleAt _ _ _⟩
  have hex : s.rc a = s.census a + w a := hb.exact a ha
  have hsum : (s.constructNull block info).census a = s.census a + _ := addRoot_census _ _ _ a
  rw [hsum, holds_before rfl, Nat.add_zero]
  exact hex

/-- the memory of a null handle is given up -/
theorem removeRoot_spec (hb : s.Booked w) {n : Nat} (hn : s.IsNull (.root n)) :
    ({ s with roots := Function.update s.roots n none } : Store).Booked w := by
  obtain ⟨x, hx, hnull⟩ := hn
  obtain ⟨r, hr, rfl⟩ := Option.map_eq_some_iff.mp hx
  have hold : ∀ m r', Function.update s.roots n none m = some r' → s.roots m = some r' := by
    intro m r' hr'
    by_cases e : m = n
    · subst e
      simp at hr'
    · rwa [Function.update_of_ne e] at hr'
  have hs := hb.sane
  refine ⟨⟨hs.objs_lt, hs.counts_lt, fun m r' hr' => hs.roots_lt m r' (hold m r' hr'),
    fun m r' hr' => hs.roots_ok m r' (hold m r' hr'), hs.fields_ok, hs.members, hs.freed_nodup,
    hs.freed_iff, hs.deleted_nodup, hs.deleted_iff, hs.stray⟩, hb.calm, fun a ha => ?_⟩
  have hsum := sum_range_update (rootRefs a) s.roots (hs.roots_lt n r hr) none
  have hzero : rootRefs a (s.roots n) = 0 := by
    rw [hr]
    exact holds_before hnull a
  have hnone : rootRefs a none = 0 := rfl
  have hex : s.rc a = s.census a + w a := hb.exact a ha
  have hcen : ({ s with roots := Function.update s.roots n none } : Store).census a =
      ∑ m ∈ range s.numRoots, rootRefs a (Function.update s.roots n none m) +
        ∑ b ∈ range s.next, s.memberRefs a (s.objs b) := rfl
  show s.rc a = _
  rw [hcen, hex]
  unfold census
  omega

/-! ## the old target loses a handle -/

/-- the objects that the old target of the handle at `this` can reach, or more -/
theorem exists_region (hb : s.Booked w) (hac : s.Acyclic) (hthis : s.handleAt this = some old) :
    ∃ R : Nat → Prop, s.Closed R ∧ Outside R this ∧ (∀ b, old.target = .obj b → R b) ∧
      ∀ a, R a → a < s.next := by
  obtain ⟨rank, hrank⟩ := hac
  refine ⟨fun a => a < s.next ∧ ∃ b, old.target = .obj b ∧ rank a ≤ rank b, ?_, ?_, ?_,
    fun a ha => ha.1⟩
  · rintro a o ⟨-, b, hob, hle⟩ ho y hy c hc
    obtain ⟨i, hi⟩ := handleAt_of_mem ho hy
    obtain ⟨oc, hoc⟩ := hb.noDangling _ y c hi hc
    exact ⟨hb.sane.objs_lt c oc hoc, b, hob, (hrank a o y c ho hy hc).le.trans hle⟩
  · cases this with
    | root n => exact True.intro
    | field d i =>
      rintro ⟨-, b, hob, hle⟩
      obtain ⟨o, ho, hi⟩ := Option.bind_eq_some_iff.mp hthis
      exact absurd (hrank d o old b ho (List.mem_of_getElem? hi) hob) (Nat.not_lt_of_le hle)
  · intro b hob
    obtain ⟨ob, hobj⟩ := hb.noDangling _ old b hthis hob
    exact ⟨hb.sane.objs_lt b ob hobj, b, hob, Nat.le_refl _⟩

theorem Closed.grows {R : Nat → Prop} {t : Store} (hc : s.Closed R) (hR : ∀ a, R a → a < s.next)
    (hout : Outside R this) (hg : Grows (· = this) s t) : t.Closed R := by
  intro a o' ha ho' y hy b hb
  cases ho : s.objs a with
  | none =>
    rw [hg.old a (hR a ha) ho] at ho'
    cases ho'
  | some o =>
    rw [hg.fields ho ho' fun i e => by subst e; exact hout ha] at hy
    exact hc a o ha ho y hy b hb

theorem Grows.proper {P : Loc → Prop} {t : Store} (hg : Grows P s t) (hb : s.Booked w)
    (hthis : s.handleAt this = some old) : t.Proper this old := by
  rcases proper_of_handle hb.sane hthis with hp | ⟨b, hob, ht⟩
  · exact Or.inl hp
  · obtain ⟨o, ho⟩ := hb.noDangling _ old b hthis hob
    refine Or.inr ⟨b, hob, fun o' ho' => ?_⟩
    obtain ⟨o'', ho'', -, et, -⟩ := hg.objs b o ho
    rw [ho'] at ho''
    cases ho''
    rw [et]
    exact ht o ho

/-- **`DEC_OLD_REF_COUNT`.** -/
theorem decOldRefCount_spec {R : Nat → Prop} (hb : s.Booked fun a => w a + holds old a)
    (hp : s.Proper this old) (hc : s.Closed R) (hout : Outside R this)
    (hR : ∀ b, old.target = .obj b → R b) (hk : s.aliveCount < k) :
    ∃ u, decOldRefCount k s this old = some u ∧ u.Booked w ∧ s.Cascade u ∧
      u.handleAt this = s.handleAt this := by
  rcases hp with hnull | ⟨b, hob, ht⟩
  · have hzero : (fun a => w a + holds old a) = w := funext fun a => by
      rw [holds_before hnull, Nat.add_zero]
    exact ⟨s, if_neg fun e => e hnull, hzero ▸ hb, Cascade.refl s, rfl⟩
  · have hne : old.target ≠ .before this := by
      rw [hob]
      simp
    have hex : s.Exact fun a => w a + if b = a then 1 else 0 := by
      have := hb.exact
      simpa only [holds, hob, Target.obj.injEq] using this
    obtain ⟨u, hu, hs, he, hcas⟩ := decRefCount_spec k s b old.typeInfo w hb.sane hex ht hk
    have hcalm : u.Calm := fun a o ho hd => by
      obtain ⟨o', ho', hd'⟩ := hcas.newDying a ⟨o, ho, hd⟩
      exact hb.calm a o' ho' hd'
    obtain ⟨-, hframe⟩ := ((decRefCount_setHandle (x := old) hout k) s (.obj b) old.typeInfo hc
      (fun a e => hR a (by rw [hob, e]))).2 u hu
    refine ⟨u, ?_, ⟨hs, hcalm, he⟩, hcas, ?_⟩
    · unfold decOldRefCount
      rw [if_pos hne, hob]
      exact hu
    · cases this with
      | root n => simp only [handleAt, hcas.roots]
      | field d i => simp only [handleAt, hframe d hout]

theorem setHandle_aliveCount (s : Store) (l : Loc) (x : Handle) :
    (s.setHandle l x).aliveCount = s.aliveCount := by
  obtain ⟨f1, -⟩ := setHandle_fixed s l x
  simp only [aliveCount, setHandle_rc, f1]

/-- **A handle is set to null**, after its old target has lost it. -/
theorem clear_spec (hb : s.Booked fun _ => 0) (hac : s.Acyclic) (hthis : s.handleAt this = some old)
    (hk : s.aliveCount < k) :
    ∃ u, (decOldRefCount k s this old).map
        (fun s' => s'.setHandle this ⟨.before this, old.typeInfo⟩) = some u ∧
      u.Booked (fun _ => 0) ∧ u.IsNull this := by
  obtain ⟨R, hc, hout, hR, hlt⟩ := exists_region hb hac hthis
  obtain ⟨y, hy⟩ : ∃ y : Handle, y = ⟨.before this, old.typeInfo⟩ := ⟨_, rfl⟩
  have hynull : y.target = .before this := by rw [hy]
  have hgrows := hb.sane.setHandle_grows this y
  have hproper : s.Proper this y := Or.inl hynull
  have hb₀ : (s.setHandle this y).Booked fun a => 0 + holds old a := by
    refine ⟨hb.sane.setHandle hproper (Or.inl ⟨_, hynull⟩), hb.calm.setHandle _ _, fun a ha => ?_⟩
    have hex : s.rc a = s.census a + 0 := hb.exact a ((setHandle_counted s this y a).mp ha)
    have hsum := census_setHandle hb.sane hb.calm hthis y a
    rw [holds_before hynull] at hsum
    rw [setHandle_rc]
    omega
  obtain ⟨u, hu, hbu, -, hat⟩ := decOldRefCount_spec hb₀ (hgrows.proper hb hthis)
    (hc.grows hlt hout hgrows) hout hR (by rw [setHandle_aliveCount]; exact hk)
  rw [handleAt_setHandle hthis] at hat
  refine ⟨u, ?_, hbu, y, hat, hynull⟩
  rw [← hy, ← hu]
  -- the offset becomes -1 after the decrement, but could as well before
  unfold decOldRefCount
  split
  · exact ((decRefCount_setHandle hout k) s old.target old.typeInfo hc
      fun b e => hR b e).1.symm
  · rfl

/-! ## assignment and construction -/

theorem copyDepthLE_of_rank {rank : Nat → Nat} (hrank : ∀ a o h b, s.objs a = some o →
    h ∈ o.fields → h.target = .obj b → rank b < rank a) (n : Nat) :
    ∀ b, rank b + 1 < n → copyDepthLE n s (.obj b) = true := by
  induction n with
  | zero => exact fun b hb => absurd hb (Nat.not_lt_zero _)
  | succ n ih =>
    intro b hb
    simp only [copyDepthLE, Bool.or_eq_true]
    refine Or.inr ?_
    cases ho : s.objs b with
    | none => rfl
    | some o =>
      refine List.all_eq_true.mpr fun y hy => ?_
      cases hy' : y.target with
      | before m =>
        obtain ⟨n', rfl⟩ : ∃ n', n = n' + 1 := ⟨n - 1, by omega⟩
        rfl
      | obj c =>
        have := hrank b o y c ho hy hy'
        exact ih c (by omega)

theorem pointTo_mono_le {m : Nat} (hle : k ≤ m) {r : Store}
    (hr : pointTo (assignHandle k) s this fromMe rhs = some r) :
    pointTo (assignHandle m) s this fromMe rhs = some r := by
  induction hle with
  | refl => exact hr
  | step _ ih => exact pointTo_mono (fun _ _ _ _ => assignHandle_mono _) ih

/-- pointing a handle somewhere, with enough fuel -/
theorem exists_pointTo (hb : s.Booked w) (hac : s.Acyclic) (hthis : s.handleAt this = some old)
    (hfrom : s.handleAt fromMe = some rhs) (ht : rhs.target = .obj b) (hroom : s.Room this rhs)
    (hcan : s.CanHold this rhs) (hne : s.Deep this rhs.target → fromMe ≠ this) :
    ∃ k t, (∀ m, k ≤ m → pointTo (assignHandle m) s this fromMe rhs = some t) ∧
      s.Pointed w this old rhs t := by
  obtain ⟨rank, hrank⟩ := hac
  obtain ⟨o, ho⟩ := hb.noDangling _ _ b hfrom ht
  have hfrozen : Frozen s.next s := by
    refine ⟨Nat.le_refl _, fun c oc hoc _ y hy d hd => ?_⟩
    obtain ⟨i, hi⟩ := handleAt_of_mem hoc hy
    obtain ⟨od, hod⟩ := hb.noDangling _ y d hi hd
    exact hb.sane.objs_lt d od hod
  obtain ⟨t, hrun, hp, -⟩ := pointTo_spec (assignHandle_copy (rank b + 1)) hb hfrozen hthis hfrom
    ht (hb.sane.objs_lt b o ho) hcan hne
    (fun _ => by rw [ht]; exact copyDepthLE_of_rank hrank _ b (Nat.lt_succ_self _)) (hroom _)
  exact ⟨rank b + 1, t, fun m hm => pointTo_mono_le hm hrun, hp⟩

theorem SameValue.cascade {t u : Store} {c d : Target} (h : s.SameValue c t d) (hc : t.Cascade u)
    (hd : ∀ a, d = .obj a → ∃ o, u.objs a = some o) : s.SameValue c u d := by
  obtain ⟨b, o, a, o', h1, h2, h3, h4, h5, h6, h7⟩ := h
  obtain ⟨o'', ho''⟩ := hd a h3
  obtain ⟨ot, hot, e⟩ := hc.kept a o'' ho''
  rw [h4] at hot
  cases hot
  exact ⟨b, o, a, o'', h1, h2, h3, ho'', by rw [e, ← h5], by rw [e, ← h6], by rw [e, ← h7]⟩

/-- **Assignment from a handle that is not null.** -/
theorem assignHandle_spec (hb : s.Booked fun _ => 0) (hac : s.Acyclic)
    (hthis : s.handleAt this = some old) (hfrom : s.handleAt fromMe = some rhs)
    (hnn : rhs.target ≠ .before fromMe) (hroom : s.Room this rhs) (hcan : s.CanHold this rhs)
    (hne : s.Deep this rhs.target → fromMe ≠ this) :
    ∃ k u, assignHandle k s this fromMe = some u ∧ u.Booked (fun _ => 0) ∧
      ∃ x, u.handleAt this = some x ∧ x.typeInfo = rhs.typeInfo ∧
        s.SameValue rhs.target u x.target := by
  obtain ⟨b, ht⟩ : ∃ b, rhs.target = .obj b := by
    rcases proper_of_handle hb.sane hfrom with hp | ⟨b, hb, -⟩
    · exact absurd hp hnn
    · exact ⟨b, hb⟩
  obtain ⟨R, hc, hout, hR, hlt⟩ := exists_region hb hac hthis
  obtain ⟨k, t, hrun, hp⟩ := exists_pointTo hb hac hthis hfrom ht hroom hcan hne
  obtain ⟨x, hx, hinfo, hval, -⟩ := hp.value
  obtain ⟨u, hu, hbu, hcas, hat⟩ := decOldRefCount_spec (k := max k (t.aliveCount + 1)) hp.booked
    (hp.grows.proper hb hthis) (hc.grows hlt hout hp.grows) hout hR (by omega)
  rw [hx] at hat
  refine ⟨max k (t.aliveCount + 1) + 1, u, ?_, hbu, x, hat, hinfo,
    hval.cascade hcas fun a ha => hbu.noDangling _ x a hat ha⟩
  simp only [assignHandle, hthis, hfrom, hnn, if_false,
    pointTo_setHandle _ _ (outside_next hb.sane hthis), hrun _ (le_max_left k _), Option.bind_some, hu]

theorem root_numRoots_ne (hs : s.Sane) (hm : s.handleAt l = some x) : l ≠ .root s.numRoots := by
  rintro rfl
  obtain ⟨r, hr, -⟩ := Option.map_eq_some_iff.mp hm
  exact Nat.lt_irrefl _ (hs.roots_lt _ r hr)

theorem obj_of_not_null (hs : s.Sane) (hm : s.handleAt l = some x) (hx : x.target ≠ .before l) :
    ∃ b, x.target = .obj b := by
  rcases proper_of_handle hs hm with hp | ⟨b, hb, -⟩
  · exact absurd hp hx
  · exact ⟨b, hb⟩

theorem construct_spec (hb : s.Booked fun _ => 0) (hac : s.Acyclic) (block : Option Nat)
    (hfrom : s.handleAt fromMe = some rhs)
    (hroom : rhs.target ≠ .before fromMe →
      (s.constructNull block rhs.typeInfo).Room (.root s.numRoots) rhs) :
    ∃ k u, s.construct k block fromMe = some u ∧ u.Booked (fun _ => 0) ∧
      s.Copied fromMe u (.root s.numRoots) := by
  by_cases hnull : rhs.target = .before fromMe
  · obtain ⟨hbu, -, hat⟩ := constructNull_spec hb block 0
    refine ⟨0, _, ?_, hbu, fun y hy => ⟨fun _ => ⟨_, hat, rfl⟩, fun hn => ?_⟩⟩
    · simp only [construct, hfrom, Option.bind_some, if_pos hnull]
    · rw [hfrom] at hy
      cases hy
      exact absurd hnull hn
  · obtain ⟨hb₁, hg, hat⟩ := constructNull_spec hb block rhs.typeInfo
    obtain ⟨b, ht⟩ := obj_of_not_null hb.sane hfrom hnull
    have hfrom₁ := hg.handles _ _ (fun hf => hf) hfrom
    obtain ⟨k, u, hrun, hp⟩ := exists_pointTo hb₁ hac hat hfrom₁ ht (hroom hnull)
      (Or.inr fun c i o e _ => by cases e) (fun _ => root_numRoots_ne hb.sane hfrom)
    obtain ⟨x, hx, hinfo, hval, -⟩ := hp.value
    refine ⟨k, u, ?_, hp.booked, fun y hy => ?_⟩
    · simp only [construct, hfrom, Option.bind_some, if_neg hnull, hrun k le_rfl]
    · rw [hfrom] at hy
      cases hy
      exact ⟨fun hn => absurd hn hnull, fun _ => ⟨x, hx, hinfo, hval⟩⟩

theorem unsafe_cast_spec (hb : s.Booked fun _ => 0) (hfrom : s.handleAt fromMe = some rhs)
    (hnn : rhs.target ≠ .before fromMe)
    (hroom : ∀ a, rhs.target = .obj a → s.Counted a → s.rc a + 1 < 2^32) :
    ∃ u, s.unsafe_cast fromMe = some u ∧ u.Booked (fun _ => 0) ∧
      s.Copied fromMe u (.root s.numRoots) := by
  obtain ⟨b, ht⟩ := obj_of_not_null hb.sane hfrom hnn
  obtain ⟨o, ho⟩ := hb.noDangling _ _ b hfrom ht
  have hproper : s.Proper (.root s.numRoots) rhs :=
    Or.inr ⟨b, ht, fun y hy => (proper_of_handle hb.sane hfrom).typeInfo ht hy⟩
  have ho₁ : (s.addRoot none rhs).objs b = some o := ho
  obtain ⟨hs, hc, hg, hcensus, hrc⟩ := incRefCount_spec (addRoot_sane hb.sane none hproper)
    hb.calm ho₁ (hroom b ht)
  obtain ⟨o', ho', -, et, ed, el⟩ := hg.objs b o ho₁
  refine ⟨(s.addRoot none rhs).incRefCount (.obj b), ?_, ⟨hs, hc, fun a ha => ?_⟩, fun y hy => ?_⟩
  · simp only [unsafe_cast, hfrom, Option.map_some, ht]
  · have hca : s.Counted a := hg.counted_before (addRoot_sane hb.sane none hproper) ha
    have hex : s.rc a = s.census a + 0 := hb.exact a hca
    have hsum := addRoot_census s none rhs a
    have hcount : _ = s.rc a + _ := hrc a hca
    rw [hcount, hcensus a, hsum]
    simp only [holds, ht, Target.obj.injEq]
    omega
  · rw [hfrom] at hy
    cases hy
    refine ⟨fun hn => absurd hn hnn, fun _ => ⟨rhs, ?_, rfl, b, o, b, o', ht, ho, ht, ho', et, ed,
      el⟩⟩
    exact hg.handles _ _ (fun hf => hf) (addRoot_handleAt _ _ _)

theorem setHandle_removeRoot (s : Store) (n : Nat) (x : Handle) :
    ({ s.setHandle (.root n) x with
        roots := Function.update (s.setHandle (.root n) x).roots n none } : Store) =
      { s with roots := Function.update s.roots n none } := by
  simp only [setHandle]
  cases s.roots n <;> simp

theorem destroy_spec (hb : s.Booked fun _ => 0) {n : Nat} {r : Root} (hr : s.roots n = some r) :
    ∃ k u, s.destroy k n = some u ∧ u.Booked (fun _ => 0) ∧ u.roots n = none := by
  have hthis : s.handleAt (.root n) = some r.handle := by simp [handleAt, hr]
  obtain ⟨y, hy⟩ : ∃ y : Handle, y = ⟨.before (.root n), r.handle.typeInfo⟩ := ⟨_, rfl⟩
  have hynull : y.target = .before (.root n) := by rw [hy]
  have hgrows := hb.sane.setHandle_grows (.root n) y
  have hproper : s.Proper (.root n) y := Or.inl hynull
  have hb₀ : (s.setHandle (.root n) y).Booked fun a => 0 + holds r.handle a := by
    refine ⟨hb.sane.setHandle hproper (Or.inl ⟨_, hynull⟩), hb.calm.setHandle _ _, fun a ha => ?_⟩
    have hex : s.rc a = s.census a + 0 :=
      hb.exact a ((setHandle_counted s (.root n) y a).mp ha)
    have hsum := census_setHandle hb.sane hb.calm hthis y a
    rw [holds_before hynull] at hsum
    rw [setHandle_rc]
    omega
  have hk : (s.setHandle (.root n) y).aliveCount < s.aliveCount + 1 := by
    rw [setHandle_aliveCount]
    omega
  obtain ⟨u₁, hu₁, hs₁, he₁, hcas⟩ := destroyHandle_spec (decRefCount_spec (s.aliveCount + 1))
    hb₀.sane (hgrows.proper hb hthis) hb₀.exact hk
  have hb₁ : u₁.Booked fun _ => 0 := ⟨hs₁, fun a o ho hd => by
    obtain ⟨o', ho', hd'⟩ := hcas.newDying a ⟨o, ho, hd⟩
    exact hb₀.calm a o' ho' hd', he₁⟩
  have hnull₁ : u₁.IsNull (.root n) := by
    refine ⟨y, ?_, hynull⟩
    have hat := handleAt_setHandle hthis (x := y)
    simp only [handleAt, hcas.roots] at hat ⊢
    exact hat
  -- the handle can be set to null first: nothing that is destroyed reads it
  have hcomm : destroyHandle (decRefCount (s.aliveCount + 1)) (s.setHandle (.root n) y) (.root n)
      r.handle = (destroyHandle (decRefCount (s.aliveCount + 1)) s (.root n) r.handle).map
        fun s' => s'.setHandle (.root n) y := by
    unfold destroyHandle
    rw [setHandle_isManaged]
    split
    · exact ((decRefCount_setHandle (R := fun _ => True) (l := .root n) True.intro _) s r.handle.target _
        (fun _ _ _ _ _ _ _ _ => True.intro) fun _ _ => True.intro).1
    · rfl
  rw [hcomm] at hu₁
  obtain ⟨u₀, hu₀, rfl⟩ := Option.map_eq_some_iff.mp hu₁
  have hlast := removeRoot_spec hb₁ hnull₁
  rw [setHandle_removeRoot] at hlast
  refine ⟨s.aliveCount + 1, _, ?_, hlast, Function.update_self _ _ _⟩
  simp only [destroy, hr, Option.bind_some, hu₀, Option.map_some]

end

/-! ## runs -/

/-- **One operation.** -/
theorem exec_spec {s : Store} {op : HandleOp} (hb : s.Booked fun _ => 0) (hf : s.Fine op)
    (hl : s.Legal op) :
    ∃ k u, s.exec k op = some u ∧ u.Booked (fun _ => 0) ∧ s.Outcome op u := by
  obtain ⟨hac, hf⟩ := hf
  cases op with
  | constructNull block info =>
    obtain ⟨hbu, -, hat⟩ := constructNull_spec hb block info
    exact ⟨0, _, rfl, hbu, _, hat, rfl⟩
  | construct block m =>
    obtain ⟨rhs, hfrom⟩ := hl
    exact construct_spec hb hac block hfrom (hf rhs hfrom)
  | assign l m =>
    obtain ⟨⟨old, hthis⟩, rhs, hfrom⟩ := hl
    by_cases hnull : rhs.target = .before m
    · obtain ⟨u, hu, hbu, hat⟩ := clear_spec hb hac hthis (Nat.lt_succ_self _)
      refine ⟨s.aliveCount + 1 + 1, u, ?_, hbu, fun y hy => ⟨fun _ => hat, fun hn => ?_⟩⟩
      · show assignHandle _ s l m = some u
        simp only [assignHandle, hthis, hfrom, hnull, if_true]
        exact hu
      · rw [hfrom] at hy
        cases hy
        exact absurd hnull hn
    · obtain ⟨hroom, hcan, hne⟩ := hf rhs hfrom hnull
      obtain ⟨k, u, hu, hbu, x, hx⟩ := assignHandle_spec hb hac hthis hfrom hnull hroom hcan hne
      refine ⟨k, u, hu, hbu, fun y hy => ?_⟩
      rw [hfrom] at hy
      cases hy
      exact ⟨fun hn => absurd hn hnull, fun _ => ⟨x, hx⟩⟩
  | assignNull l =>
    obtain ⟨old, hthis⟩ := hl
    obtain ⟨u, hu, hbu, hat⟩ := clear_spec hb hac hthis (Nat.lt_succ_self _)
    refine ⟨s.aliveCount + 1, u, ?_, hbu, hat⟩
    show assignNull _ s l = some u
    simp only [assignNull, hthis, Option.bind_some]
    exact hu
  | unsafe_cast m =>
    obtain ⟨rhs, hfrom⟩ := hl
    obtain ⟨hnn, hroom⟩ := hf rhs hfrom
    obtain ⟨u, hu, hbu, hcop⟩ := unsafe_cast_spec hb hfrom hnn hroom
    exact ⟨0, u, hu, hbu, hcop⟩
  | destroy n =>
    obtain ⟨r, hr⟩ := hl
    exact destroy_spec hb hr

/-- what ends has its handles -/
theorem legal_of_exec {s u : Store} {k : Nat} {op : HandleOp} (h : s.exec k op = some u) :
    s.Legal op := by
  cases op with
  | constructNull block info => exact True.intro
  | construct block m =>
    obtain ⟨x, hx, -⟩ := Option.bind_eq_some_iff.mp h
    exact ⟨x, hx⟩
  | assign l m =>
    cases k with
    | zero => cases h
    | succ k =>
      simp only [exec, assignHandle] at h
      split at h
      · next old rhs hl hm => exact ⟨⟨old, hl⟩, rhs, hm⟩
      · cases h
  | assignNull l =>
    obtain ⟨x, hx, -⟩ := Option.bind_eq_some_iff.mp h
    exact ⟨x, hx⟩
  | unsafe_cast m =>
    obtain ⟨x, hx, -⟩ := Option.map_eq_some_iff.mp h
    exact ⟨x, hx⟩
  | destroy n =>
    obtain ⟨x, hx, -⟩ := Option.bind_eq_some_iff.mp h
    exact ⟨x, hx⟩

/-- fuel and operation -/
def step (s : Store) (a : Nat × HandleOp) : Option Store := s.exec a.1 a.2

/-- the condition does not depend on the fuel -/
def FineStep (s : Store) (a : Nat × HandleOp) : Prop := s.Fine a.2

theorem step_booked {s u : Store} {a : Nat × HandleOp} (hb : s.Booked fun _ => 0)
    (hf : s.FineStep a) (he : s.step a = some u) : u.Booked fun _ => 0 := by
  obtain ⟨k, u', hu', hbu, -⟩ := exec_spec hb hf (legal_of_exec he)
  have h1 := exec_mono_le (le_max_left a.1 k) he
  have h2 := exec_mono_le (le_max_right a.1 k) hu'
  rw [h1] at h2
  cases h2
  exact hbu

end Store

namespace Store
variable {s : Store} {a k n : Nat} {t : Target}

instance : Decidable (s.Counted a) :=
  match h : s.objs a with
  | none => isTrue fun o ho => by rw [h] at ho; cases ho
  | some o => decidable_of_iff (s.managedBlock o.block = true)
      ⟨fun hm o' ho' => by rw [h] at ho'; cases ho'; exact hm, fun hc => hc o h⟩

/-- deeper than the copy goes there is nothing to count -/
theorem shallowCopies_le (n : Nat) : ∀ (k : Nat) (t : Target), copyDepthLE n s t = true →
    shallowCopies k s t a ≤ shallowCopies n s t a := by
  induction n with
  | zero =>
    intro k t hn
    cases hn
  | succ n ih =>
    intro k t hn
    cases k with
    | zero => exact Nat.zero_le _
    | succ k =>
      unfold shallowCopies
      split
      · exact Nat.le_refl _
      · next hc =>
        cases t with
        | before m => exact Nat.le_refl _
        | obj b =>
          cases ho : s.objs b with
          | none => simp only [ho, Nat.le_refl]
          | some o =>
            simp only [ho]
            simp only [copyDepthLE, ho, hc, Bool.false_or, List.all_eq_true] at hn
            exact List.sum_le_sum fun y hy => ih k y.target (hn y hy)

theorem room_of_depth {this : Loc} {x : Handle} (hn : copyDepthLE n s x.target = true)
    (hr : ∀ a, a < s.next → s.Counted a → s.rc a + added n s this x.target a < 2^32) :
    s.Room this x := by
  intro k a ha hc
  have hle : added k s this x.target a ≤ added n s this x.target a := by
    unfold added
    split
    · exact shallowCopies_le n k _ hn
    · exact Nat.le_refl _
  have := hr a ha hc
  omega

/-- every handle in an object points to one of lower rank -/
def ranked (rank : Nat → Nat) (s : Store) : Bool :=
  (List.range s.next).all fun a => ((s.objs a).elim [] RefCountedObject.fields).all fun x =>
    match x.target with
    | .obj b => decide (rank b < rank a)
    | .before _ => true

theorem acyclic_of_ranked (rank : Nat → Nat) (hw : s.WellFormed) (h : ranked rank s = true) :
    s.Acyclic := by
  refine ⟨rank, fun a o x b ho hx hb => ?_⟩
  have ha := List.all_eq_true.mp h a (List.mem_range.mpr (hw.objs_lt a o ho))
  rw [ho] at ha
  have hlt := List.all_eq_true.mp ha x hx
  simpa [hb] using hlt

end Store

/-! ## two runs -/

/-- a list of two objects in a suspended block, with a handle to it on the stack and a null handle
in the current block -/
def listStore : Store where
  objs
    | 0 => some ⟨1, 1, 200, 11, [⟨.obj 1, 200⟩]⟩
    | 1 => some ⟨1, 1, 200, 22, [⟨.before (.field 1 0), 200⟩]⟩
    | _ => none
  next := 2
  roots
    | 0 => some ⟨none, .obj 0, 200⟩
    | 1 => some ⟨some 0, .before (.root 1), 200⟩
    | _ => none
  numRoots := 2
  active := 0
  inactive := [1]
  deleted := []
  freed := []
  stray := false

theorem listStore_objs {a : Nat} {o : RefCountedObject} (h : listStore.objs a = some o) :
    (a = 0 ∧ o = ⟨1, 1, 200, 11, [⟨.obj 1, 200⟩]⟩) ∨
      (a = 1 ∧ o = ⟨1, 1, 200, 22, [⟨.before (.field 1 0), 200⟩]⟩) := by
  match a, h with
  | 0, h => exact Or.inl ⟨rfl, (Option.some.inj h).symm⟩
  | 1, h => exact Or.inr ⟨rfl, (Option.some.inj h).symm⟩

theorem listStore_roots {n : Nat} {r : Root} (h : listStore.roots n = some r) :
    (n = 0 ∧ r = ⟨none, .obj 0, 200⟩) ∨ (n = 1 ∧ r = ⟨some 0, .before (.root 1), 200⟩) := by
  match n, h with
  | 0, h => exact Or.inl ⟨rfl, (Option.some.inj h).symm⟩
  | 1, h => exact Or.inr ⟨rfl, (Option.some.inj h).symm⟩

theorem listStore_proper (l : Loc) (b : Nat) : listStore.Proper l ⟨.obj b, 200⟩ := by
  refine Or.inr ⟨b, rfl, fun o ho => ?_⟩
  obtain ⟨-, rfl⟩ | ⟨-, rfl⟩ := listStore_objs ho <;> rfl

theorem listStore_wellFormed : listStore.WellFormed := by
  refine ⟨fun a o ho => ?_, fun a o ho => ?_, fun n r hr => ?_, fun n r hr => ?_,
    fun a o i x ho hx => ?_, fun a o ho hdm => ?_⟩
  · show a < 2
    obtain ⟨rfl, -⟩ | ⟨rfl, -⟩ := listStore_objs ho <;> omega
  · obtain ⟨-, rfl⟩ | ⟨-, rfl⟩ := listStore_objs ho <;> decide
  · show n < 2
    obtain ⟨rfl, -⟩ | ⟨rfl, -⟩ := listStore_roots hr <;> omega
  · obtain ⟨rfl, rfl⟩ | ⟨rfl, rfl⟩ := listStore_roots hr
    · exact listStore_proper _ _
    · exact Or.inl rfl
  · obtain ⟨rfl, rfl⟩ | ⟨rfl, rfl⟩ := listStore_objs ho
    · obtain rfl : x = ⟨.obj 1, 200⟩ := by simpa using List.mem_of_getElem? hx
      exact listStore_proper _ _
    · obtain ⟨hi, rfl⟩ := List.getElem?_eq_some_iff.mp hx
      obtain rfl : i = 0 := by simpa using hi
      exact Or.inl rfl
  · obtain ⟨-, rfl⟩ | ⟨-, rfl⟩ := listStore_objs ho <;> cases hdm

theorem listStore_handleCount (a : Nat) : listStore.handleCount a = if a < 2 then 1 else 0 := by
  match a with
  | 0 => rfl
  | 1 => rfl
  | a + 2 => simp [Store.handleCount, listStore, sum_range_succ, rootRefs, refsOf]

theorem listStore_handlesExact : listStore.HandlesExact := by
  refine ⟨fun a o ho _ => ?_, fun a _ => ?_, fun a => ?_, List.nodup_nil, List.Perm.refl _, rfl⟩
  · rw [listStore_handleCount]
    obtain ⟨rfl, rfl⟩ | ⟨rfl, rfl⟩ := listStore_objs ho <;> rfl
  · rw [listStore_handleCount]
    match a with
    | 0 => simp [listStore]
    | 1 => simp [listStore]
    | a + 2 => simp [listStore]
  · match a with
    | 0 => simp [listStore]
    | 1 => simp [listStore]
    | a + 2 => simp [listStore]

end Netsdb
