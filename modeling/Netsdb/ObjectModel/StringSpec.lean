import Netsdb.ObjectModel.PDBString

/-!
# What the members of a string do

`Holds h s t` says that the string `s` holds the text `t`, inline or in a body of `h`.  What a member
does to the reference counts is a `Change`: it takes the references `w` away and adds `w'`.

* `Holds.cStr`, `Holds.size`   what is read from a string that holds a text;
* `decOldRefCount_spec`        a body loses a reference, or goes with its last one;
* `assignText_spec`, `assignString_spec`, `constructText_spec`, …   one lemma for each member.
-/

set_option linter.unusedSectionVars false

namespace Netsdb
namespace PDBString
variable {α β : Type} {o o' : StringObj} {h h' h'' : Bodies} {s s' : PDBString} {t t' : Text} {n : Nat}
  {b : CharBody} {w w' v v' : Int → Nat} {a x : Int}

/-! ## running the members -/

theorem run_bind {act : Act α} {f : α → Act β} {r : α} (hr : act o = .ok r o') :
    (act >>= f) o = f r o' := by
  show EStateM.bind act f o = _
  rw [EStateM.bind, hr]

theorem run_bind_error {act : Act α} {f : α → Act β} {e : Stop} (hr : act o = .error e o') :
    (act >>= f) o = .error e o' := by
  show EStateM.bind act f o = _
  rw [EStateM.bind, hr]

theorem get_run : (get : Act StringObj) o = .ok o o := rfl

theorem setOffsetTo_run : setOffsetTo x o = .ok () (o.setStr (o.str.setOffset x)) := rfl

theorem setInfo_run : setInfo x o = .ok () (o.setStr (o.str.setExactTypeInfoValue x)) := rfl

/-! ## numbers -/

theorem i32_of_lt (hn : n < 2 ^ 31) : i32 n = n := by
  unfold i32
  omega

theorem intLen_of_lt (ht : t.length + 1 < 2 ^ 31) : intLen t = (t.length + 1 : Nat) := by
  have hcast : ((t.length : Int) + 1) = ((t.length + 1 : Nat) : Int) := by omega
  rw [intLen, hcast, i32_of_lt ht]

theorem sizeT_natCast (hn : n < 2 ^ 64) : sizeT (n : Int) = n := by
  unfold sizeT
  omega

theorem sizeT_intLen (ht : t.length + 1 < 2 ^ 31) : sizeT (intLen t) = t.length + 1 := by
  rw [intLen_of_lt ht, sizeT_natCast (by omega)]

theorem intLen_nonneg (ht : t.length + 1 < 2 ^ 31) : 0 ≤ intLen t := by
  rw [intLen_of_lt ht]
  exact Int.natCast_nonneg _

theorem sizeT_one : sizeT 1 = 1 := by
  unfold sizeT
  omega

theorem getOffset_setOffset (hl : -2 ^ 63 ≤ x) (hu : x < 2 ^ 63) :
    (s.setOffset x).getOffset = x := by
  have hlt : sizeT x < 256 ^ 8 := by
    unfold sizeT
    omega
  show i64 (Codec.ofLe (Codec.le 8 (sizeT x))) = x
  rw [Codec.ofLe_le_of_lt hlt]
  unfold i64 sizeT
  omega

theorem setOffset_getOffset (hb : s'.bytes.length = 8) :
    (s.setOffset s'.getOffset).bytes = s'.bytes := by
  have hlt := Codec.ofLe_lt s'.bytes
  rw [hb] at hlt
  have hsize : sizeT s'.getOffset = Codec.ofLe s'.bytes := by
    unfold getOffset sizeT i64
    omega
  show Codec.le 8 (sizeT s'.getOffset) = _
  rw [hsize, ← hb]
  exact Codec.le_ofLe _

@[simp] theorem length_setOffset : (s.setOffset x).bytes.length = 8 := Codec.length_le _ _

/-! ## pointing -/

/-- user addresses -/
def IsAddress (a : Int) : Prop := 0 ≤ a ∧ a < 2 ^ 63

/-- the offset leads to `a` -/
structure PointsTo (s : PDBString) (a : Int) : Prop where
  offset : s.getOffset = a - s.addr
  notNull : a + 1 ≠ s.addr

theorem PointsTo.ne (hp : PointsTo s a) : s.getOffset ≠ -1 := by
  have h1 := hp.offset
  have h2 := hp.notNull
  omega

theorem PointsTo.getTarget (hp : PointsTo s a) : s.getTarget = a := by
  rw [PDBString.getTarget, hp.offset]
  omega

theorem PointsTo.body? (hp : PointsTo s a) (hb : h a = some b) : s.body? h = some (a, b) := by
  rw [PDBString.body?, hp.getTarget, hb]
  rfl

theorem pointsTo_setOffset (ha : IsAddress a) (hs : IsAddress s.addr) (hne : a + 1 ≠ s.addr) :
    PointsTo (s.setOffset (a - s.addr)) a := by
  obtain ⟨h1, h2⟩ := ha
  obtain ⟨h3, h4⟩ := hs
  exact ⟨getOffset_setOffset (by omega) (by omega), hne⟩

theorem PointsTo.setInfo (hp : PointsTo s a) : PointsTo (s.setExactTypeInfoValue x) a :=
  ⟨hp.offset, hp.notNull⟩

/-! ## what a string holds -/

inductive Holds (h : Bodies) (s : PDBString) (t : Text) : Prop
  | short (len : t.length + 1 ≤ 8) (info : s.info = (t.length + 1 : Nat))
    (bytes : s.bytes.take (t.length + 1) = t ++ [0])
  | long (a : Int) (b : CharBody) (len : 8 < t.length + 1) (lt : t.length + 1 < 2 ^ 31)
    (info : s.info = -(t.length + 1 : Nat)) (address : IsAddress a) (points : PointsTo s a)
    (body : h a = some b) (chars : b.chars = t ++ [0])

/-- what is read when the text and a zero byte come first -/
theorem takeWhile_text (bs : List UInt8) (ht : (0 : UInt8) ∉ t) :
    (0 : UInt8) ∈ t ++ [0] ++ bs ∧ (t ++ [0] ++ bs).takeWhile (· ≠ 0) = t := by
  refine ⟨by simp, ?_⟩
  rw [List.append_assoc, List.takeWhile_append_of_pos]
  · simp
  · intro y hy
    have hne : y ≠ 0 := fun e => ht (e ▸ hy)
    simpa using hne

theorem Holds.buffer (hh : Holds h s t) : ∃ bs, s.buffer h = some (t ++ [0] ++ bs) := by
  cases hh with
  | short len info bytes =>
    have hpos : 0 ≤ s.info := by omega
    refine ⟨s.bytes.drop (t.length + 1) ++ Codec.le 4 (sizeT s.info), ?_⟩
    rw [PDBString.buffer, if_pos hpos, ← bytes, ← List.append_assoc, List.take_append_drop]
  | long a b len lt info address points body chars =>
    have hneg : ¬ 0 ≤ s.info := by omega
    refine ⟨[], ?_⟩
    rw [PDBString.buffer, if_neg hneg, points.body? body, Option.map_some, chars, List.append_nil]

theorem Holds.cStr (hh : Holds h s t) (ht : (0 : UInt8) ∉ t) : s.cStr h = some t := by
  obtain ⟨bs, hbs⟩ := hh.buffer
  obtain ⟨hmem, htake⟩ := takeWhile_text bs ht
  rw [PDBString.cStr, hbs]
  show (if (0 : UInt8) ∈ t ++ [0] ++ bs then _ else none) = _
  rw [if_pos hmem, htake]

theorem Holds.size (hh : Holds h s t) : s.size = (t.length + 1 : Nat) := by
  cases hh with
  | short len info bytes =>
    have hpos : 0 ≤ s.info := by omega
    rw [PDBString.size, if_pos hpos, info]
  | long a b len lt info address points body chars =>
    have hneg : ¬ 0 ≤ s.info := by omega
    rw [PDBString.size, if_neg hneg, info, neg_neg]

/-! ## counting references -/

def one (a : Int) : Int → Nat := fun c => if c = a then 1 else 0

/-- the references of a string to bodies -/
def refs (s : PDBString) : Int → Nat := fun a =>
  if s.info < 0 ∧ s.getTarget = a then 1 else 0

/-- the reference count, zero where no body is -/
def rc (h : Bodies) (a : Int) : Nat := (h a).elim 0 CharBody.refCount

/-- the counts are `unsigned`, and a body without references is freed -/
def Bounded (h : Bodies) : Prop := ∀ a b, h a = some b → 0 < b.refCount ∧ b.refCount < 2 ^ 32

/-- references `w` are taken away and `w'` added; a body with other references keeps its
characters -/
structure Change (h h' : Bodies) (w w' : Int → Nat) : Prop where
  counts : ∀ a, rc h' a + w a = rc h a + w' a
  kept : ∀ a b, h a = some b → w a < b.refCount → ∃ b', h' a = some b' ∧ b'.chars = b.chars

theorem refs_of_pointsTo (hp : PointsTo s a) (hi : s.info < 0) : refs s = one a := by
  funext c
  rw [refs, one, hp.getTarget]
  by_cases e : c = a
  · rw [if_pos ⟨hi, e.symm⟩, if_pos e]
  · rw [if_neg fun hc => e hc.2.symm, if_neg e]

theorem refs_of_nonneg (hi : 0 ≤ s.info) : refs s = 0 := by
  funext c
  exact if_neg fun hc => by omega

theorem rc_of_some (hb : h a = some b) : rc h a = b.refCount := by
  rw [rc, hb]
  rfl

theorem Change.refl (h : Bodies) : Change h h 0 0 := ⟨fun _ => rfl, fun _ b hb _ => ⟨b, hb, rfl⟩⟩

theorem Change.trans (hc : Change h h' w w') (hc' : Change h' h'' v v') :
    Change h h'' (w + v) (w' + v') := by
  refine ⟨fun a => ?_, fun a b hb hlt => ?_⟩
  · have h1 := hc.counts a
    have h2 := hc'.counts a
    simp only [Pi.add_apply]
    omega
  · simp only [Pi.add_apply] at hlt
    obtain ⟨b', hb', hchars⟩ := hc.kept a b hb (by omega)
    have h1 := hc.counts a
    rw [rc_of_some hb', rc_of_some hb] at h1
    obtain ⟨b'', hb'', hchars'⟩ := hc'.kept a b' hb' (by omega)
    exact ⟨b'', hb'', hchars'.trans hchars⟩

theorem rc_update (e : Option CharBody) :
    rc (Function.update h a e) = Function.update (rc h) a (e.elim 0 CharBody.refCount) := by
  funext c
  by_cases hc : c = a
  · rw [hc, rc, Function.update_self, Function.update_self]
  · rw [rc, Function.update_of_ne hc, Function.update_of_ne hc, rc]

/-- a new body -/
theorem Change.alloc (hn : h a = none) (b : CharBody) (hb : b.refCount = 1) :
    Change h (Function.update h a (some b)) 0 (one a) := by
  refine ⟨fun c => ?_, fun c b' hb' _ => ?_⟩
  · rw [rc_update]
    by_cases hc : c = a
    · subst hc
      rw [Function.update_self, Option.elim_some, hb, rc, hn, one, if_pos rfl]
      rfl
    · rw [Function.update_of_ne hc, one, if_neg hc]
      rfl
  · have hne : c ≠ a := by
      rintro rfl
      rw [hn] at hb'
      cases hb'
    exact ⟨b', by rw [Function.update_of_ne hne, hb'], rfl⟩

/-- the characters of a body that is new are written -/
theorem Change.write (hc : Change h h' w w') (hn : h a = none) {b b' : CharBody}
    (hb : h' a = some b) (hcount : b'.refCount = b.refCount) :
    Change h (Function.update h' a (some b')) w w' := by
  refine ⟨fun c => ?_, fun c d hd hlt => ?_⟩
  · rw [← hc.counts c, rc_update]
    by_cases he : c = a
    · rw [he, Function.update_self, Option.elim_some, hcount, rc_of_some hb]
    · rw [Function.update_of_ne he]
  · have hne : c ≠ a := by
      rintro rfl
      rw [hn] at hd
      cases hd
    rw [Function.update_of_ne hne]
    exact hc.kept c d hd hlt

theorem Bounded.update (hb : Bounded h) (hpos : 0 < b.refCount) (hlt : b.refCount < 2 ^ 32) :
    Bounded (Function.update h a (some b)) := by
  intro c d hd
  by_cases he : c = a
  · rw [he, Function.update_self] at hd
    exact Option.some.inj hd ▸ ⟨hpos, hlt⟩
  · rw [Function.update_of_ne he] at hd
    exact hb c d hd

/-! ## taking a reference away -/

/-- what `GET_OLD_TARGET` finds: the references `DEC_OLD_REF_COUNT` will take away -/
inductive Ready (h : Bodies) (s : PDBString) : (Int → Nat) → Prop
  | null (offset : s.getOffset = -1) : Ready h s 0
  | points (a : Int) (b : CharBody) (points : PointsTo s a) (body : h a = some b) :
    Ready h s (one a)

theorem dec_eq (hpos : 0 < b.refCount) (hlt : b.refCount < 2 ^ 32) :
    b.dec = { b with refCount := b.refCount - 1 } := by
  obtain ⟨m, hm⟩ := Nat.exists_eq_succ_of_ne_zero hpos.ne'
  rw [CharBody.dec, hm, u32_pred (by omega)]
  rfl

theorem release_of_one (h1 : b.refCount = 1) : b.release = none := by
  have hd := dec_eq (b := b) (by omega) (by omega)
  rw [CharBody.release, hd, if_pos (show b.refCount - 1 = 0 by omega)]

theorem release_of_ne (h1 : b.refCount ≠ 1) (hpos : 0 < b.refCount) (hlt : b.refCount < 2 ^ 32) :
    b.release = some { b with refCount := b.refCount - 1 } := by
  rw [CharBody.release, dec_eq hpos hlt, if_neg (show b.refCount - 1 ≠ 0 by omega)]

theorem Change.release (hbd : Bounded h) (hb : h a = some b) :
    Change h (Function.update h a b.release) (one a) 0 := by
  obtain ⟨hpos, hlt⟩ := hbd a b hb
  refine ⟨fun c => ?_, fun c d hd hlt' => ?_⟩
  · rw [rc_update]
    by_cases hc : c = a
    · subst hc
      rw [Function.update_self, one, if_pos rfl, rc_of_some hb]
      by_cases h1 : b.refCount = 1
      · rw [release_of_one h1, h1]
        rfl
      · rw [release_of_ne h1 hpos hlt]
        show b.refCount - 1 + 1 = b.refCount + 0
        omega
    · rw [Function.update_of_ne hc, one, if_neg hc]
      rfl
  · by_cases hc : c = a
    · subst hc
      rw [one, if_pos rfl] at hlt'
      have hbd : b = d := Option.some.inj (hb.symm.trans hd)
      have h1 : b.refCount ≠ 1 := by
        rw [hbd]
        omega
      refine ⟨_, by rw [Function.update_self, release_of_ne h1 hpos hlt], ?_⟩
      show b.chars = d.chars
      rw [hbd]
    · exact ⟨d, by rw [Function.update_of_ne hc, hd], rfl⟩

theorem decRefCount_run (hb : s.body? o.bodies = some (a, b)) :
    decRefCount s o = .ok () (o.setBody a b.release) := by
  unfold decRefCount
  rw [hb]

theorem Bounded.release (hbd : Bounded h) (hb : h a = some b) :
    Bounded (Function.update h a b.release) := by
  obtain ⟨hpos, hlt⟩ := hbd a b hb
  intro c d hd
  by_cases hc : c = a
  · rw [hc, Function.update_self] at hd
    by_cases h1 : b.refCount = 1
    · rw [release_of_one h1] at hd
      cases hd
    · rw [release_of_ne h1 hpos hlt] at hd
      rw [← Option.some.inj hd]
      show 0 < b.refCount - 1 ∧ b.refCount - 1 < 2 ^ 32
      omega
  · rw [Function.update_of_ne hc] at hd
    exact hbd c d hd

/-- **A reference to the old target goes**, and nothing else changes. -/
theorem decOldRefCount_spec (hr : Ready o.bodies s w) (hbd : Bounded o.bodies) :
    ∃ h', decOldRefCount s o = .ok () { o with bodies := h' } ∧ Change o.bodies h' w 0 ∧
      Bounded h' := by
  cases hr with
  | null offset =>
    rw [decOldRefCount, if_pos offset]
    exact ⟨o.bodies, rfl, Change.refl _, hbd⟩
  | points a b points body =>
    rw [decOldRefCount, if_neg points.ne]
    exact ⟨_, decRefCount_run (points.body? body), Change.release hbd body, hbd.release body⟩

/-! ## assignments from characters -/

/-- the parts of a string that its members do not change -/
structure SameObject (s s' : PDBString) : Prop where
  addr : s'.addr = s.addr
  bytes : s'.bytes.length = 8

theorem Holds.ready (hh : Holds h s t) (hi : s.info < 0) : Ready h s (refs s) := by
  cases hh with
  | short len info bytes => omega
  | long a b len lt info address points body chars =>
    rw [refs_of_pointsTo points hi]
    exact Ready.points a b points body

/-- `dropLong` leaves a string inline or null, without references -/
theorem dropLong_spec (hh : Holds o.bodies o.str t) (hl : o.str.bytes.length = 8)
    (hbd : Bounded o.bodies) :
    ∃ h' s', dropLong o = .ok () { o with bodies := h', str := s' } ∧
      Change o.bodies h' (refs o.str) 0 ∧ Bounded h' ∧ SameObject o.str s' := by
  by_cases hi : o.str.info < 0
  · obtain ⟨h', hrun, hc, hbd'⟩ := decOldRefCount_spec (hh.ready hi) hbd
    refine ⟨h', o.str.setOffset (-1), ?_, hc, hbd', rfl, length_setOffset⟩
    rw [dropLong, if_pos hi, assignNull, run_bind get_run, run_bind hrun, setOffsetTo_run]
    rfl
  · rw [refs_of_nonneg (by omega)]
    exact ⟨o.bodies, o.str, by rw [dropLong, if_neg hi], Change.refl _, hbd, rfl, hl⟩

/-- `dropInline` leaves a string that is ready for another target -/
theorem dropInline_spec (hh : Holds o.bodies o.str t) (hl : o.str.bytes.length = 8) :
    ∃ s', dropInline o = .ok () (o.setStr s') ∧ Ready o.bodies s' (refs o.str) ∧
      SameObject o.str s' ∧ (o.str.info < 0 → s' = o.str) := by
  by_cases hi : 0 ≤ o.str.info
  · refine ⟨o.str.setOffset (-1), by rw [dropInline, if_pos hi, setOffsetTo_run], ?_,
      ⟨rfl, length_setOffset⟩, fun hn => by omega⟩
    rw [refs_of_nonneg hi]
    exact Ready.null (getOffset_setOffset (by omega) (by omega))
  · exact ⟨o.str, by rw [dropInline, if_neg hi]; rfl, hh.ready (by omega), ⟨rfl, hl⟩, fun _ => rfl⟩

theorem Ready.update (hr : Ready h s w) (hn : h a = none) (e : Option CharBody) :
    Ready (Function.update h a e) s w := by
  cases hr with
  | null offset => exact Ready.null offset
  | points c b points body =>
    have hne : c ≠ a := by
      intro he
      rw [he, hn] at body
      cases body
    exact Ready.points c b points (by rw [Function.update_of_ne hne, body])

theorem Ready.eq_zero (hr : Ready h s w) (hn : h a = none) : w a = 0 := by
  cases hr with
  | null offset => rfl
  | points c b points body =>
    refine if_neg fun he => ?_
    rw [he, body] at hn
    cases hn

theorem incRefCount_run (hb : o.str.body? o.bodies = some (a, b)) :
    incRefCount o = .ok () (o.setBody a (some b.inc)) := by
  unfold incRefCount
  rw [hb]

theorem inc_eq (hlt : b.refCount + 1 < 2 ^ 32) : b.inc = { b with refCount := b.refCount + 1 } := by
  rw [CharBody.inc, u32_of_lt hlt]

/-- a string may get the RAM at `a`: nothing else is there, and it is not at the null offset -/
structure Free (h : Bodies) (s : PDBString) (a : Int) : Prop where
  none : h a = none
  address : IsAddress a
  notNull : a + 1 ≠ s.addr

/-- the handle of `s` after `assignMade` -/
def aimedAt (s : PDBString) (a : Int) : PDBString :=
  (s.setExactTypeInfoValue (-1)).setOffset (a - s.addr)

theorem aimedAt_pointsTo (hf : Free h s a) (hs : IsAddress s.addr) : PointsTo (s.aimedAt a) a :=
  pointsTo_setOffset (s := s.setExactTypeInfoValue (-1)) hf.address hs hf.notNull

theorem aimedAt_same (s : PDBString) (a : Int) : SameObject s (s.aimedAt a) :=
  ⟨rfl, length_setOffset (s := s.setExactTypeInfoValue (-1))⟩

theorem assignMade_run (hp : PointsTo (o.str.aimedAt a) a) (hb : o.bodies a = some b) :
    assignMade (some a) o =
      decOldRefCount o.str ((o.setStr (o.str.aimedAt a)).setBody a (some b.inc)) := by
  have hbody : (o.str.aimedAt a).body? (o.setStr (o.str.aimedAt a)).bodies = some (a, b) :=
    hp.body? hb
  rw [assignMade, run_bind get_run, run_bind setInfo_run, run_bind setOffsetTo_run]
  exact run_bind (incRefCount_run (o := o.setStr (o.str.aimedAt a)) hbody)

theorem made_run {made : Act (Option Int)} {o₁ o₂ : StringObj} (h₁ : made o = .ok (some a) o₁)
    (h₂ : assignMade (some a) o₁ = .ok () o₂) (f : Act Unit) :
    (made >>= fun made => assignMade made >>= fun _ => f) o = f o₂ := by
  rw [run_bind h₁, run_bind h₂]

/-- **The handle takes a body that has just been made**, and gives up its old target. -/
theorem made_spec (hr : Ready o.bodies o.str w) (hbd : Bounded o.bodies) (hf : Free o.bodies o.str a)
    (hs : IsAddress o.str.addr) (n : Nat) :
    ∃ h', (∀ f : Act Unit, (makeChars n 0 (.granted a) >>= fun made =>
        assignMade made >>= fun _ => f) o = f ⟨h', o.active, o.str.aimedAt a⟩) ∧
      (∃ b, h' a = some b ∧ b.chars = List.replicate n 0) ∧ Change o.bodies h' w (one a) ∧
      Bounded h' := by
  obtain ⟨h, active, s⟩ := o
  generalize hb : (⟨active, 1, List.replicate n 0⟩ : CharBody) = b
  have hone : b.refCount = 1 := by rw [← hb]
  have hchars : b.chars = List.replicate n 0 := by rw [← hb]
  have hinc : (⟨active, 0, List.replicate n 0⟩ : CharBody).inc = b := by
    rw [← hb, inc_eq (by norm_num)]
  have hbd' : Bounded (Function.update h a (some b)) := hbd.update (by omega) (by omega)
  obtain ⟨h', hrun, hc, hbd''⟩ := decOldRefCount_spec
    (o := ⟨Function.update h a (some b), active, s.aimedAt a⟩) (hr.update hf.none (some b)) hbd'
  have hall := (Change.alloc hf.none b hone).trans hc
  rw [zero_add, add_zero] at hall
  refine ⟨h', made_run rfl ?_, ?_, hall, hbd''⟩
  · refine (assignMade_run
      (o := ⟨Function.update h a (some ⟨active, 0, List.replicate n 0⟩), active, s⟩)
      (aimedAt_pointsTo hf hs) (Function.update_self _ _ _)).trans ?_
    rw [hinc]
    show decOldRefCount s
      ⟨Function.update (Function.update h a _) a (some b), active, s.aimedAt a⟩ = _
    rw [Function.update_idem]
    exact hrun
  · obtain ⟨b', hb', hchars'⟩ := hc.kept a b (Function.update_self _ _ _) (by
      rw [hr.eq_zero hf.none, hone]
      exact Nat.one_pos)
    exact ⟨b', hb', hchars'.trans hchars⟩

/-! ## writing characters -/

theorem splice_zero_take {bs src : List UInt8} (hn : n ≤ src.length) :
    (splice bs 0 src n).take n = src.take n := by
  rw [splice, List.take_zero, List.nil_append]
  exact List.take_left' (List.length_take_of_le hn)

theorem length_splice {bs src : List UInt8} {k : Nat} (hn : n ≤ src.length)
    (hk : k + n ≤ bs.length) : (splice bs k src n).length = bs.length := by
  rw [splice, List.length_append, List.length_append, List.length_drop,
    List.length_take_of_le hn, List.length_take_of_le (by omega)]
  omega

/-- all characters are written -/
theorem splice_all {bs src : List UInt8} (hs : src.length = n) (hb : bs.length = n) :
    splice bs 0 src n = src := by
  rw [splice, List.take_zero, List.nil_append, Nat.zero_add, ← hb, List.drop_length,
    List.append_nil, hb, ← hs, List.take_length]

theorem memmove_inline {src : List UInt8} {k : Nat} (hi : 0 ≤ o.str.info) (hx : sizeT x = n)
    (hn : n ≤ src.length) (hk : k + n ≤ 8) :
    memmove k src x o =
      .ok () (o.setStr { o.str with bytes := splice o.str.bytes k src n }) := by
  rw [memmove, hx, if_neg (not_lt.mpr hn), if_pos hi, if_pos hk]

theorem memmove_body {src : List UInt8} {k : Nat} (hi : o.str.info < 0) (hx : sizeT x = n)
    (hp : PointsTo o.str a) (hb : o.bodies a = some b) (hn : n ≤ src.length)
    (hk : k + n ≤ b.chars.length) :
    memmove k src x o =
      .ok () (o.setBody a (some { b with chars := splice b.chars k src n })) := by
  rw [memmove, hx, if_neg (not_lt.mpr hn), if_neg (not_le.mpr hi), hp.body? hb]
  exact if_pos hk

/-! ## assignments -/

/-- a member has ended well: the string holds `t`, and has given up the references `w` -/
structure Done (o o' : StringObj) (w : Int → Nat) (t : Text) : Prop where
  holds : Holds o'.bodies o'.str t
  change : Change o.bodies o'.bodies w (refs o'.str)
  bounded : Bounded o'.bodies
  same : SameObject o.str o'.str

/-- the inline text is written -/
theorem short_run (hl : o.str.bytes.length = 8) (ht : t.length + 1 ≤ 8)
    (hx : x = (t.length + 1 : Nat)) :
    ∃ s', (setInfo x >>= fun _ => memmove 0 (t ++ [0]) x) o = .ok () (o.setStr s') ∧
      Holds h s' t ∧ 0 ≤ s'.info ∧ SameObject o.str s' := by
  have hsize : sizeT x = t.length + 1 := by
    rw [hx, sizeT_natCast (by omega)]
  have hpos : 0 ≤ x := by omega
  have htext : (t ++ [0]).length = t.length + 1 := List.length_append
  refine ⟨⟨o.str.addr, o.str.block, splice o.str.bytes 0 (t ++ [0]) (t.length + 1), x⟩, ?_,
    Holds.short ht hx ?_, hpos, rfl, ?_⟩
  · rw [run_bind setInfo_run]
    exact memmove_inline (o := o.setStr (o.str.setExactTypeInfoValue x)) hpos hsize htext.ge
      (by omega)
  · rw [splice_zero_take htext.ge, ← htext, List.take_length]
  · exact (length_splice htext.ge (by omega)).trans hl

theorem SameObject.setInfo (h₁ : SameObject s s') (x : Int) :
    SameObject s (s'.setExactTypeInfoValue x) := ⟨h₁.addr, h₁.bytes⟩

theorem SameObject.setOffset (h₁ : SameObject s s') (x : Int) : SameObject s (s'.setOffset x) :=
  ⟨h₁.addr, length_setOffset⟩

theorem SameObject.trans (h₁ : SameObject s s') {s'' : PDBString} (h₂ : SameObject s' s'') :
    SameObject s s'' := ⟨h₂.addr.trans h₁.addr, h₂.bytes⟩

theorem canFitInData_iff : canFitInData x = true ↔ x ≤ 8 := by
  rw [canFitInData, decide_eq_true_iff]

/-- a text of more than 7 characters is written to the body that has been made for it -/
theorem fill_run {b : CharBody} (hp : PointsTo o.str a) (hb : o.bodies a = some b)
    (hchars : b.chars = List.replicate (t.length + 1) 0) (ht : t.length + 1 < 2 ^ 31)
    (hx : x = (t.length + 1 : Nat)) :
    (setInfo (-x) >>= fun _ => memmove 0 (t ++ [0]) x) o = .ok ()
      ((o.setStr (o.str.setExactTypeInfoValue (-x))).setBody a (some { b with chars := t ++ [0] })) := by
  have hsize : sizeT x = t.length + 1 := by
    rw [hx, sizeT_natCast (by omega)]
  have htext : (t ++ [0]).length = t.length + 1 := List.length_append
  have hlen : b.chars.length = t.length + 1 := by
    rw [hchars, List.length_replicate]
  rw [run_bind setInfo_run, memmove_body (o := o.setStr (o.str.setExactTypeInfoValue (-x)))
    (show -x < 0 by omega) hsize hp.setInfo hb htext.ge (by omega), splice_all htext hlen]

/-- what is known when the body of a long text has been filled -/
theorem Done.fill {s₁ : PDBString} (hc : Change o.bodies h' w (one a)) (hbd : Bounded h')
    (hf : Free o.bodies s₁ a) (hb : h' a = some b) (hp : PointsTo s a)
    (hi : s.info = -(t.length + 1 : Nat)) (hl : 8 < t.length + 1) (hlt : t.length + 1 < 2 ^ 31)
    (hs : SameObject o.str s) :
    Done o ⟨Function.update h' a (some { b with chars := t ++ [0] }), o.active, s⟩ w t := by
  have hneg : s.info < 0 := by omega
  obtain ⟨hpos, hmax⟩ := hbd a b hb
  refine ⟨Holds.long a _ hl hlt hi hf.address hp (Function.update_self _ _ _) rfl, ?_,
    hbd.update hpos hmax, hs⟩
  show Change o.bodies _ w (refs s)
  rw [refs_of_pointsTo hp hneg]
  exact hc.write hf.none hb rfl

/-- **An assignment of a short text.** -/
theorem assignText_short (hh : Holds o.bodies o.str t') (hl : o.str.bytes.length = 8)
    (hbd : Bounded o.bodies) (ht : t.length + 1 ≤ 8) (ram : Ram) :
    ∃ o', assignText t ram o = .ok () o' ∧ Done o o' (refs o.str) t ∧ o'.active = o.active := by
  have hx := intLen_of_lt (t := t) (by omega)
  unfold assignText
  generalize intLen t = x at *
  obtain ⟨h₁, s₁, hrun, hc, hbd₁, hsame⟩ := dropLong_spec hh hl hbd
  obtain ⟨s₂, hrun₂, hh₂, hi, hsame₂⟩ := short_run (h := h₁) (t := t) (x := x)
    (o := { o with bodies := h₁, str := s₁ }) hsame.bytes ht hx
  rw [if_pos (canFitInData_iff.mpr (by omega)), run_bind hrun]
  refine ⟨_, hrun₂, ⟨hh₂, ?_, hbd₁, hsame.trans hsame₂⟩, rfl⟩
  show Change o.bodies h₁ (refs o.str) (refs s₂)
  rw [refs_of_nonneg hi]
  exact hc

/-- **An assignment of a long text for which there is room.** -/
theorem assignText_long (hh : Holds o.bodies o.str t') (hl : o.str.bytes.length = 8)
    (hbd : Bounded o.bodies) (hs : IsAddress o.str.addr) (ht : 8 < t.length + 1)
    (hlt : t.length + 1 < 2 ^ 31) (hf : Free o.bodies o.str a) :
    ∃ o', assignText t (.granted a) o = .ok () o' ∧ Done o o' (refs o.str) t ∧
      o'.active = o.active := by
  have hx := intLen_of_lt hlt
  unfold assignText
  generalize intLen t = x at *
  obtain ⟨s₁, hrun, hready, hsame, -⟩ := dropInline_spec hh hl
  have hs₁ : IsAddress s₁.addr := hsame.addr ▸ hs
  have hf₁ : Free o.bodies s₁ a := ⟨hf.none, hf.address, hsame.addr ▸ hf.notNull⟩
  have hsize : sizeT (x - 1) + 1 = t.length + 1 := by
    rw [hx, Nat.cast_succ, add_sub_cancel_right, sizeT_natCast (by omega)]
  obtain ⟨h', hmade, ⟨b, hb, hchars⟩, hc, hbd'⟩ := made_spec (o := o.setStr s₁) hready hbd hf₁ hs₁
    (t.length + 1)
  have hp := (aimedAt_pointsTo hf₁ hs₁)
  rw [if_neg (fun hfit => by have := canFitInData_iff.mp hfit; omega), run_bind hrun, hsize, hmade]
  refine ⟨_, fill_run (o := ⟨h', o.active, s₁.aimedAt a⟩) hp hb hchars hlt hx, ?_, rfl⟩
  exact Done.fill hc hbd' hf₁ hb hp.setInfo (by rw [hx]; rfl) ht hlt
    ((hsame.trans (aimedAt_same s₁ a)).setInfo _)

/-- **There is no room for a long text**, and a string that is long is as it was. -/
theorem assignText_refused (hi : o.str.info < 0) (ht : 8 < t.length + 1)
    (hlt : t.length + 1 < 2 ^ 31) : assignText t .refused o = .error .notEnoughSpace o := by
  have hx := intLen_of_lt hlt
  unfold assignText
  generalize intLen t = x at *
  have hrun : dropInline o = .ok () o := by rw [dropInline, if_neg (not_le.mpr hi)]
  rw [if_neg (fun hfit => by have := canFitInData_iff.mp hfit; omega), run_bind hrun]
  exact run_bind_error rfl

/-- **An assignment from a short string.** -/
theorem assignString_short (hh : Holds o.bodies o.str t') (hl : o.str.bytes.length = 8)
    (hbd : Bounded o.bodies) (hs : s.bytes.length = 8) (ht : t.length + 1 ≤ 8)
    (hi : s.info = (t.length + 1 : Nat)) (hb : s.bytes.take (t.length + 1) = t ++ [0]) (ram : Ram) :
    ∃ o', assignString s ram o = .ok () o' ∧ Done o o' (refs o.str) t ∧ o'.active = o.active := by
  have hpos : 0 ≤ s.info := by omega
  obtain ⟨h₁, s₁, hrun, hc, hbd₁, hsame⟩ := dropLong_spec hh hl hbd
  rw [assignString, if_pos hpos, run_bind hrun, run_bind setOffsetTo_run, setInfo_run]
  refine ⟨_, rfl, ⟨Holds.short ht hi ?_, ?_, hbd₁, (hsame.setOffset _).setInfo _⟩, rfl⟩
  · show ((s₁.setOffset s.getOffset).bytes).take (t.length + 1) = _
    rw [setOffset_getOffset hs, hb]
  · have hrefs : refs ((s₁.setOffset s.getOffset).setExactTypeInfoValue s.info) = 0 :=
      refs_of_nonneg hpos
    show Change o.bodies h₁ (refs o.str)
      (refs ((s₁.setOffset s.getOffset).setExactTypeInfoValue s.info))
    rw [hrefs]
    exact hc

/-- the characters of another string are copied -/
theorem copy_run {b : CharBody} (hp : PointsTo o.str a) (hb : o.bodies a = some b)
    (hinfo : o.str.info < 0) (hchars : b.chars = List.replicate (t.length + 1) 0)
    (ht : t.length + 1 < 2 ^ 31) (hx : x = (t.length + 1 : Nat))
    (hsrc : s.buffer o.bodies = some (t ++ [0])) (y : Int) :
    (memmoveFrom s x >>= fun _ => setInfo y) o = .ok ()
      ((o.setStr (o.str.setExactTypeInfoValue y)).setBody a (some { b with chars := t ++ [0] })) := by
  have hsize : sizeT x = t.length + 1 := by
    rw [hx, sizeT_natCast (by omega)]
  have htext : (t ++ [0]).length = t.length + 1 := List.length_append
  have hlen : b.chars.length = t.length + 1 := by
    rw [hchars, List.length_replicate]
  have hmove : memmoveFrom s x o = .ok () (o.setBody a (some { b with chars := t ++ [0] })) := by
    unfold memmoveFrom
    rw [hsrc]
    show memmove 0 (t ++ [0]) x o = _
    rw [memmove_body hinfo hsize hp hb htext.ge (by omega), splice_all htext hlen]
  rw [run_bind hmove]
  rfl

/-- **An assignment from a long string for which there is room.** -/
theorem assignString_long (hh : Holds o.bodies o.str t') (hl : o.str.bytes.length = 8)
    (hbd : Bounded o.bodies) (hs : IsAddress o.str.addr) (ht : 8 < t.length + 1)
    (hlt : t.length + 1 < 2 ^ 31) (hi : s.info = -(t.length + 1 : Nat)) (hf : Free o.bodies o.str a)
    (hsrc : ∀ h', Change o.bodies h' (refs o.str) (one a) → s.buffer h' = some (t ++ [0])) :
    ∃ o', assignString s (.granted a) o = .ok () o' ∧ Done o o' (refs o.str) t ∧
      o'.active = o.active := by
  have hneg : ¬ 0 ≤ s.info := by omega
  have hx : i32 s.size = (t.length + 1 : Nat) := by
    rw [PDBString.size, if_neg hneg, hi, neg_neg, i32_of_lt hlt]
  unfold assignString
  generalize i32 s.size = x at *
  obtain ⟨s₁, hrun, hready, hsame, -⟩ := dropInline_spec hh hl
  have hs₁ : IsAddress s₁.addr := hsame.addr ▸ hs
  have hf₁ : Free o.bodies s₁ a := ⟨hf.none, hf.address, hsame.addr ▸ hf.notNull⟩
  have hsize : sizeT (x - 1) + 1 = t.length + 1 := by
    rw [hx, Nat.cast_succ, add_sub_cancel_right, sizeT_natCast (by omega)]
  obtain ⟨h', hmade, ⟨b, hb, hchars⟩, hc, hbd'⟩ := made_spec (o := o.setStr s₁) hready hbd hf₁ hs₁
    (t.length + 1)
  have hp := (aimedAt_pointsTo hf₁ hs₁)
  rw [if_neg hneg, run_bind hrun, hsize, hmade]
  refine ⟨_, copy_run (o := ⟨h', o.active, s₁.aimedAt a⟩) hp hb (show (-1 : Int) < 0 by omega)
    hchars hlt hx (hsrc h' hc) s.info, ?_, rfl⟩
  exact Done.fill hc hbd' hf₁ hb hp.setInfo hi ht hlt ((hsame.trans (aimedAt_same s₁ a)).setInfo _)

/-- **There is no room for the characters of a long string.** -/
theorem assignString_refused (hi : o.str.info < 0) (hs : s.info < 0) :
    assignString s .refused o = .error .notEnoughSpace o := by
  have hrun : dropInline o = .ok () o := by rw [dropInline, if_neg (not_le.mpr hi)]
  rw [assignString, if_neg (not_le.mpr hs), run_bind hrun]
  exact run_bind_error rfl

/-! ## constructors -/

/-- **Default construction** gives the empty string. -/
theorem constructDefault_spec (hbd : Bounded o.bodies) :
    ∃ o', constructDefault o = .ok () o' ∧ Done o o' 0 [] ∧ o'.active = o.active := by
  have hlen : (o.str.setOffset (-1)).bytes.length = 8 := length_setOffset
  have hpos : (0 : Int) ≤ 1 := by omega
  generalize hs' : (⟨o.str.addr, o.str.block, splice (o.str.setOffset (-1)).bytes 0 [0] 1, 1⟩ :
    PDBString) = s'
  have hwrite : memmove 0 [0] 1 (o.setStr ((o.str.setExactTypeInfoValue 1).setOffset (-1))) =
      .ok () (o.setStr s') :=
    hs' ▸ memmove_inline hpos sizeT_one le_rfl (by omega)
  refine ⟨o.setStr s', ?_, ⟨Holds.short (by simp) (by rw [← hs']; rfl) ?_, ?_, hbd, ?_⟩, rfl⟩
  · rw [constructDefault, run_bind setInfo_run, run_bind setOffsetTo_run]
    exact hwrite
  · rw [← hs']
    exact splice_zero_take le_rfl
  · have hrefs : refs s' = 0 := refs_of_nonneg (hs' ▸ hpos)
    show Change o.bodies o.bodies 0 (refs s')
    rw [hrefs]
    exact Change.refl _
  · rw [← hs']
    exact ⟨rfl, (length_splice (le_refl [0].length) (by rw [hlen]; decide)).trans hlen⟩

theorem constructSpace_short (hx : intLen t ≤ 8) (ram : Ram) :
    constructSpace t ram o = .ok () (o.setStr (o.str.setExactTypeInfoValue (intLen t))) := by
  rw [constructSpace, if_pos (canFitInData_iff.mpr hx), setInfo_run]

/-- **Construction from a short text.** -/
theorem constructText_short (hl : o.str.bytes.length = 8) (hbd : Bounded o.bodies)
    (ht : t.length + 1 ≤ 8) (ram : Ram) :
    ∃ o', constructText t ram o = .ok () o' ∧ Done o o' 0 t ∧ o'.active = o.active := by
  have hx := intLen_of_lt (t := t) (by omega)
  obtain ⟨s₂, hrun, hh, hi, hsame⟩ := short_run (h := o.bodies) (o := o) hl ht hx
  refine ⟨o.setStr s₂, ?_, ⟨hh, ?_, hbd, hsame⟩, rfl⟩
  · rw [run_bind setInfo_run] at hrun
    rw [constructText, run_bind (constructSpace_short (by omega) ram), hrun]
  · show Change o.bodies o.bodies 0 (refs s₂)
    rw [refs_of_nonneg hi]
    exact Change.refl _

/-- `constructSpace` for a long text -/
theorem constructSpace_long (hbd : Bounded o.bodies) (hs : IsAddress o.str.addr)
    (ht : 8 < t.length + 1) (hlt : t.length + 1 < 2 ^ 31) (hf : Free o.bodies o.str a) :
    ∃ h' s' b, constructSpace t (.granted a) o = .ok () ⟨h', o.active, s'⟩ ∧ h' a = some b ∧
      b.chars = List.replicate (t.length + 1) 0 ∧ Change o.bodies h' 0 (one a) ∧ Bounded h' ∧
      PointsTo s' a ∧ s'.info = -(t.length + 1 : Nat) ∧ SameObject o.str s' := by
  have hx := intLen_of_lt hlt
  unfold constructSpace
  generalize intLen t = x at *
  have hf₁ : Free o.bodies (o.str.setOffset (-1)) a := ⟨hf.none, hf.address, hf.notNull⟩
  have hsize : sizeT (x - 1) + 1 = t.length + 1 := by
    rw [hx, Nat.cast_succ, add_sub_cancel_right, sizeT_natCast (by omega)]
  obtain ⟨h', hmade, ⟨b, hb, hchars⟩, hc, hbd'⟩ := made_spec (o := o.setStr (o.str.setOffset (-1)))
    (Ready.null (getOffset_setOffset (by omega) (by omega))) hbd hf₁ hs (t.length + 1)
  rw [if_neg (fun hfit => by have := canFitInData_iff.mp hfit; omega), run_bind setOffsetTo_run,
    hsize, hmade]
  refine ⟨h', _, b, setInfo_run, hb, hchars, hc, hbd', (aimedAt_pointsTo hf₁ hs).setInfo, ?_, ?_⟩
  · rw [hx]
    rfl
  · have hnull : SameObject o.str (o.str.setOffset (-1)) := ⟨rfl, length_setOffset⟩
    exact (hnull.trans (aimedAt_same _ a)).setInfo _

/-- **Construction from a long text for which there is room.** -/
theorem constructText_long (hbd : Bounded o.bodies) (hs : IsAddress o.str.addr)
    (ht : 8 < t.length + 1) (hlt : t.length + 1 < 2 ^ 31) (hf : Free o.bodies o.str a) :
    ∃ o', constructText t (.granted a) o = .ok () o' ∧ Done o o' 0 t ∧ o'.active = o.active := by
  obtain ⟨h', s', b, hrun, hb, hchars, hc, hbd', hp, hi, hsame⟩ :=
    constructSpace_long hbd hs ht hlt hf
  have htext : (t ++ [0]).length = t.length + 1 := List.length_append
  have hlen : b.chars.length = t.length + 1 := by
    rw [hchars, List.length_replicate]
  refine ⟨_, ?_, Done.fill hc hbd' hf hb hp hi ht hlt hsame, rfl⟩
  rw [constructText, run_bind hrun, memmove_body (o := ⟨h', o.active, s'⟩)
    (show s'.info < 0 by omega) (sizeT_intLen hlt) hp hb htext.ge (by omega),
    splice_all htext hlen]
  rfl

/-- there is no room -/
theorem constructSpace_refused (ht : 8 < t.length + 1) (hlt : t.length + 1 < 2 ^ 31) :
    constructSpace t .refused o =
      .error .notEnoughSpace (o.setStr (o.str.setOffset (-1))) := by
  have hx := intLen_of_lt hlt
  unfold constructSpace
  rw [if_neg (fun hfit => by have := canFitInData_iff.mp hfit; omega), run_bind setOffsetTo_run]
  exact run_bind_error rfl

/-- two writes, one behind the other -/
theorem splice_splice (bs : List UInt8) (t : Text) :
    splice (splice bs 0 t t.length) t.length [0] 1 = splice bs 0 (t ++ [0]) (t.length + 1) := by
  have htext : (t ++ [0]).length = t.length + 1 := List.length_append
  have hfirst : splice bs 0 t t.length = t ++ bs.drop t.length := by
    rw [splice, List.take_zero, List.nil_append, List.take_length, Nat.zero_add]
  have hboth : splice bs 0 (t ++ [0]) (t.length + 1) = t ++ [0] ++ bs.drop (t.length + 1) := by
    rw [splice, List.take_zero, List.nil_append, ← htext, List.take_length, Nat.zero_add]
  rw [hfirst, hboth, splice, List.take_left' rfl, List.drop_append, List.drop_drop]
  simp

theorem memmove_twice_inline (hi : 0 ≤ o.str.info) (hx : x = (t.length + 1 : Nat))
    (ht : t.length + 1 ≤ 8) :
    (memmove 0 t (x - 1) >>= fun _ => memmove (sizeT (x - 1)) [0] 1) o =
      memmove 0 (t ++ [0]) x o := by
  have htext : (t ++ [0]).length = t.length + 1 := List.length_append
  have hsize : sizeT (x - 1) = t.length := by
    rw [hx, Nat.cast_succ, add_sub_cancel_right, sizeT_natCast (by omega)]
  have hall : sizeT x = t.length + 1 := by
    rw [hx, sizeT_natCast (by omega)]
  rw [run_bind (memmove_inline hi hsize le_rfl (by omega)), hsize,
    memmove_inline hi hall htext.ge (by omega), ← splice_splice]
  exact memmove_inline (o := o.setStr { o.str with bytes := splice o.str.bytes 0 t t.length }) hi
    sizeT_one le_rfl (by omega)

theorem memmove_twice_body (hi : o.str.info < 0) (hx : x = (t.length + 1 : Nat))
    (ht : t.length + 1 < 2 ^ 31) (hp : PointsTo o.str a) (hb : o.bodies a = some b)
    (hl : b.chars.length = t.length + 1) :
    (memmove 0 t (x - 1) >>= fun _ => memmove (sizeT (x - 1)) [0] 1) o =
      memmove 0 (t ++ [0]) x o := by
  have htext : (t ++ [0]).length = t.length + 1 := List.length_append
  have hsize : sizeT (x - 1) = t.length := by
    rw [hx, Nat.cast_succ, add_sub_cancel_right, sizeT_natCast (by omega)]
  have hall : sizeT x = t.length + 1 := by
    rw [hx, sizeT_natCast (by omega)]
  have hlen : (splice b.chars 0 t t.length).length = t.length + 1 :=
    (length_splice le_rfl (by omega)).trans hl
  rw [run_bind (memmove_body hi hsize hp hb le_rfl (by omega)), hsize,
    memmove_body hi hall hp hb htext.ge (by omega), ← splice_splice]
  refine (memmove_body (n := 1) (b := { b with chars := splice b.chars 0 t t.length })
    (o := o.setBody a (some { b with chars := splice b.chars 0 t t.length })) hi sizeT_one hp
    (Function.update_self _ _ _) le_rfl (by rw [hlen])).trans ?_
  show EStateM.Result.ok () (StringObj.mk (Function.update (Function.update o.bodies a _) a _) _ _) = _
  rw [Function.update_idem]
  rfl

theorem constructChars_short (ht : t.length + 1 ≤ 8) (ram : Ram) :
    constructChars t ram o = constructText t ram o := by
  have hx := intLen_of_lt (t := t) (by omega)
  have hspace := constructSpace_short (o := o) (t := t) (by omega) ram
  rw [constructChars, constructText, run_bind hspace, run_bind hspace]
  exact memmove_twice_inline (intLen_nonneg (by omega)) hx ht

theorem constructChars_long (hbd : Bounded o.bodies) (hs : IsAddress o.str.addr)
    (ht : 8 < t.length + 1) (hlt : t.length + 1 < 2 ^ 31) (hf : Free o.bodies o.str a) :
    constructChars t (.granted a) o = constructText t (.granted a) o := by
  obtain ⟨h', s', b, hrun, hb, hchars, -, -, hp, hi, -⟩ := constructSpace_long hbd hs ht hlt hf
  have hlen : b.chars.length = t.length + 1 := by
    rw [hchars, List.length_replicate]
  rw [constructChars, constructText, run_bind hrun, run_bind hrun]
  exact memmove_twice_body (o := ⟨h', o.active, s'⟩) (show s'.info < 0 by omega)
    (intLen_of_lt hlt) hlt hp hb hlen

/-! ## copies -/

/-- **A copy of a short string.** -/
theorem constructCopy_short (hbd : Bounded o.bodies) (hs : s.bytes.length = 8)
    (ht : t.length + 1 ≤ 8) (hi : s.info = (t.length + 1 : Nat))
    (hb : s.bytes.take (t.length + 1) = t ++ [0]) (ram : Ram) :
    ∃ o', constructCopy s ram o = .ok () o' ∧ Done o o' 0 t ∧ o'.active = o.active := by
  have hpos : 0 ≤ s.info := by omega
  have hbytes := setOffset_getOffset (s := o.str) hs
  have hsame : SameObject o.str (o.str.setOffset s.getOffset) := ⟨rfl, length_setOffset⟩
  rw [constructCopy, if_pos hpos, run_bind setOffsetTo_run, setInfo_run]
  refine ⟨_, rfl, ⟨Holds.short ht hi ?_, ?_, hbd, hsame.setInfo _⟩, rfl⟩
  · show ((o.str.setOffset s.getOffset).bytes).take (t.length + 1) = _
    rw [hbytes, hb]
  · have hrefs : refs ((o.str.setOffset s.getOffset).setExactTypeInfoValue s.info) = 0 :=
      refs_of_nonneg hpos
    show Change o.bodies o.bodies 0
      (refs ((o.str.setOffset s.getOffset).setExactTypeInfoValue s.info))
    rw [hrefs]
    exact Change.refl _

/-- a body gets one more reference -/
theorem Change.inc (hb : h a = some b) (hlt : b.refCount + 1 < 2 ^ 32) :
    Change h (Function.update h a (some b.inc)) 0 (one a) := by
  rw [inc_eq hlt]
  refine ⟨fun c => ?_, fun c d hd _ => ?_⟩
  · rw [rc_update]
    by_cases hc : c = a
    · subst hc
      rw [Function.update_self, rc_of_some hb, one, if_pos rfl]
      rfl
    · rw [Function.update_of_ne hc, one, if_neg hc]
      rfl
  · by_cases hc : c = a
    · subst hc
      have hbd : b = d := Option.some.inj (hb.symm.trans hd)
      exact ⟨_, Function.update_self _ _ _, by rw [← hbd]⟩
    · exact ⟨d, by rw [Function.update_of_ne hc, hd], rfl⟩

theorem decOldRefCount_null (hs : s.getOffset = -1) : decOldRefCount s o = .ok () o := by
  rw [decOldRefCount, if_pos hs]
  rfl

/-- the string shares the body of another one -/
theorem shareTarget_run {old : PDBString} (hold : old.getOffset = -1)
    (hp : PointsTo ((o.str.setExactTypeInfoValue x).setOffset (a - old.addr)) a)
    (hb : o.bodies a = some b) :
    shareTarget old x a o = .ok () ⟨Function.update o.bodies a (some b.inc), o.active,
      (o.str.setExactTypeInfoValue x).setOffset (a - old.addr)⟩ := by
  rw [shareTarget, run_bind setInfo_run, run_bind setOffsetTo_run]
  exact (run_bind (incRefCount_run (o := o.setStr
    ((o.str.setExactTypeInfoValue x).setOffset (a - old.addr))) (hp.body? hb))).trans
    (decOldRefCount_null hold)

/-- the string gets a body with the characters `chars` -/
theorem deepCopy_run {old : PDBString} {chars : List UInt8} {c : Int} (hold : old.getOffset = -1)
    (hp : PointsTo ((o.str.setExactTypeInfoValue x).setOffset (c - old.addr)) c)
    (hx : x = -(n : Int)) (hpos : 0 < n) (hlt : n < 2 ^ 31) (hl : chars.length = n) :
    deepCopy old x chars (.granted c) o = .ok () ⟨Function.update o.bodies c
      (some ⟨o.active, 1, chars⟩), o.active,
      (o.str.setExactTypeInfoValue x).setOffset (c - old.addr)⟩ := by
  have hsize : sizeT (-x) = n := by
    rw [hx, neg_neg, sizeT_natCast (by omega)]
  have hneg : x < 0 := by omega
  have hlen : (List.replicate n (0 : UInt8)).length = n := List.length_replicate
  generalize hs : (o.str.setExactTypeInfoValue x).setOffset (c - old.addr) = s at *
  have hi : s.info < 0 := by
    rw [← hs]
    exact hneg
  have hmove := memmove_body (o := ⟨Function.update o.bodies c
    (some ⟨o.active, 1, List.replicate n 0⟩), o.active, s⟩) (k := 0) hi hsize hp
    (Function.update_self _ _ _) hl.ge (by rw [hlen, Nat.zero_add])
  rw [splice_all hl hlen] at hmove
  rw [deepCopy, run_bind setInfo_run, hsize]
  have hmake : makeChars n 1 (.granted c) (o.setStr (o.str.setExactTypeInfoValue x)) =
      .ok (some c) ((o.setStr (o.str.setExactTypeInfoValue x)).setBody c
        (some ⟨o.active, 1, List.replicate n 0⟩)) := rfl
  rw [run_bind hmake]
  show (setOffsetTo (c - old.addr) >>= fun _ => memmove 0 chars (-x) >>= fun _ =>
    decOldRefCount old) _ = _
  rw [run_bind setOffsetTo_run]
  subst hs
  refine (run_bind hmove).trans ((decOldRefCount_null hold).trans ?_)
  show EStateM.Result.ok () (StringObj.mk (Function.update (Function.update o.bodies c _) c _) _ _) = _
  rw [Function.update_idem]

/-- the storage of a new string may point to the body at `a` -/
structure Apart (s : PDBString) (a : Int) : Prop where
  address : IsAddress a
  notNull : a + 1 ≠ s.addr

/-- what is known of a string that has been aimed at a body with its text -/
theorem Done.aim (hc : Change o.bodies h' 0 (one a)) (hbd : Bounded h') (hb : h' a = some b)
    (hchars : b.chars = t ++ [0]) (ha : IsAddress a) (hp : PointsTo s a)
    (hi : s.info = -(t.length + 1 : Nat)) (hl : 8 < t.length + 1) (hlt : t.length + 1 < 2 ^ 31)
    (hs : SameObject o.str s) : Done o ⟨h', o.active, s⟩ 0 t := by
  refine ⟨Holds.long a b hl hlt hi ha hp hb hchars, ?_, hbd, hs⟩
  show Change o.bodies h' 0 (refs s)
  rw [refs_of_pointsTo hp (by omega)]
  exact hc

/-- a long string that is copied -/
structure Source (h : Bodies) (s : PDBString) (t : Text) (a : Int) (b : CharBody) : Prop where
  info : s.info = -(t.length + 1 : Nat)
  long : 8 < t.length + 1
  lt : t.length + 1 < 2 ^ 31
  points : PointsTo s a
  body : h a = some b
  chars : b.chars = t ++ [0]

variable {c : Int}

theorem assignHandle_run (hsrc : Source o.bodies s t a b) (ram : Ram) :
    assignHandle s ram o =
      if b.block ≠ o.active ∧ o.str.block = some o.active
        then deepCopy o.str s.info b.chars ram o
        else shareTarget o.str s.info a o := by
  unfold assignHandle
  rw [if_neg hsrc.points.ne, hsrc.points.body? hsrc.body]

theorem constructCopy_run (hsrc : Source o.bodies s t a b) {ram : Ram}
    (hrun : assignHandle s ram (o.setStr (o.str.setOffset (-1))) = .ok () o') :
    constructCopy s ram o = .ok () (o'.setStr (o'.str.setExactTypeInfoValue s.info)) := by
  have hneg : ¬ 0 ≤ s.info := by
    rw [hsrc.info]
    omega
  rw [constructCopy, if_neg hneg, run_bind setOffsetTo_run, run_bind hrun, setInfo_run]

/-- **A copy of a long string** shares its body. -/
theorem constructCopy_share (hsrc : Source o.bodies s t a b) (hbd : Bounded o.bodies)
    (hs : IsAddress o.str.addr) (ha : Apart o.str a) (hlt : b.refCount + 1 < 2 ^ 32)
    (hd : ¬(b.block ≠ o.active ∧ o.str.block = some o.active)) (ram : Ram) :
    ∃ o', constructCopy s ram o = .ok () o' ∧ Done o o' 0 t ∧ o'.active = o.active := by
  generalize hs₁ : ((o.str.setOffset (-1)).setExactTypeInfoValue s.info).setOffset
    (a - (o.str.setOffset (-1)).addr) = s₁
  have hp : PointsTo s₁ a := hs₁ ▸ pointsTo_setOffset ha.address hs ha.notNull
  have hrun := shareTarget_run (o := o.setStr (o.str.setOffset (-1))) (x := s.info)
    (getOffset_setOffset (s := o.str) (x := -1) (by omega) (by omega)) (hs₁ ▸ hp) hsrc.body
  have hcopy := constructCopy_run hsrc
    ((assignHandle_run (o := o.setStr (o.str.setOffset (-1))) hsrc ram).trans
      ((if_neg hd).trans hrun))
  refine ⟨_, hcopy, ?_, rfl⟩
  have hinc : (Function.update o.bodies a (some b.inc)) a = some b.inc := Function.update_self _ _ _
  have hbd' : Bounded (Function.update o.bodies a (some b.inc)) := by
    rw [inc_eq hlt]
    exact hbd.update (Nat.succ_pos _) hlt
  subst hs₁
  exact Done.aim (Change.inc hsrc.body hlt) hbd' hinc hsrc.chars ha.address hp.setInfo hsrc.info
    hsrc.long hsrc.lt ⟨rfl, length_setOffset (s := (o.str.setOffset (-1)).setExactTypeInfoValue s.info)⟩

/-- **A copy of a long string into the current block** has a body of its own. -/
theorem constructCopy_deep (hsrc : Source o.bodies s t a b) (hbd : Bounded o.bodies)
    (hs : IsAddress o.str.addr) (hf : Free o.bodies o.str c)
    (hd : b.block ≠ o.active ∧ o.str.block = some o.active) :
    ∃ o', constructCopy s (.granted c) o = .ok () o' ∧ Done o o' 0 t ∧ o'.active = o.active := by
  generalize hs₁ : ((o.str.setOffset (-1)).setExactTypeInfoValue s.info).setOffset
    (c - (o.str.setOffset (-1)).addr) = s₁
  have hp : PointsTo s₁ c := hs₁ ▸ pointsTo_setOffset hf.address hs hf.notNull
  have hlen : b.chars.length = t.length + 1 := by
    rw [hsrc.chars]
    exact List.length_append
  have hrun := deepCopy_run (o := o.setStr (o.str.setOffset (-1))) (x := s.info)
    (getOffset_setOffset (s := o.str) (x := -1) (by omega) (by omega)) (hs₁ ▸ hp) hsrc.info
    (Nat.succ_pos _) hsrc.lt hlen
  have hcopy := constructCopy_run hsrc
    ((assignHandle_run (o := o.setStr (o.str.setOffset (-1))) hsrc (.granted c)).trans
      ((if_pos hd).trans hrun))
  refine ⟨_, hcopy, ?_, rfl⟩
  subst hs₁
  exact Done.aim (Change.alloc hf.none _ rfl) (hbd.update Nat.one_pos (by norm_num))
    (Function.update_self _ _ _) hsrc.chars hf.address hp.setInfo hsrc.info hsrc.long hsrc.lt
    ⟨rfl, length_setOffset (s := (o.str.setOffset (-1)).setExactTypeInfoValue s.info)⟩

/-- the deep copy gets no RAM: whether `getRAM` throws or returns `nullptr`, the exception comes -/
theorem deepCopy_full {old : PDBString} {l : List UInt8} {ram : Ram} (hold : old.getOffset = -1)
    (hr : ∀ n, ram ≠ .granted n) :
    ∃ s', deepCopy old x l ram o = .error .notEnoughSpace (o.setStr s') := by
  cases ram with
  | granted n => exact absurd rfl (hr n)
  | refused =>
    refine ⟨o.str.setExactTypeInfoValue x, ?_⟩
    rw [deepCopy, run_bind setInfo_run]
    exact run_bind_error rfl
  | null =>
    have hmake : makeChars (sizeT (-x)) 1 .null (o.setStr (o.str.setExactTypeInfoValue x)) =
        .ok none (o.setStr (o.str.setExactTypeInfoValue x)) := rfl
    refine ⟨(o.str.setExactTypeInfoValue x).setOffset (-1), ?_⟩
    rw [deepCopy, run_bind setInfo_run, run_bind hmake]
    show (decOldRefCount old >>= fun _ => setOffsetTo (-1) >>= fun _ => throw Stop.notEnoughSpace)
      _ = _
    rw [run_bind (decOldRefCount_null hold), run_bind setOffsetTo_run]
    rfl

/-- **There is no room for the body of the copy**, and nothing is left behind. -/
theorem constructCopy_full (hsrc : Source o.bodies s t a b)
    (hd : b.block ≠ o.active ∧ o.str.block = some o.active) (ram : Ram)
    (hr : ∀ n, ram ≠ .granted n) :
    ∃ s', constructCopy s ram o = .error .notEnoughSpace (o.setStr s') := by
  have hneg : ¬ 0 ≤ s.info := by
    rw [hsrc.info]
    omega
  obtain ⟨s', hrun⟩ := deepCopy_full (o := o.setStr (o.str.setOffset (-1))) (x := s.info)
    (l := b.chars) (getOffset_setOffset (s := o.str) (x := -1) (by omega) (by omega)) hr
  refine ⟨s', ?_⟩
  rw [constructCopy, if_neg hneg, run_bind setOffsetTo_run]
  exact run_bind_error ((assignHandle_run (o := o.setStr (o.str.setOffset (-1))) hsrc ram).trans
    ((if_pos hd).trans hrun))

/-- **Destruction** gives up the references of the string. -/
theorem destroy_spec (hh : Holds o.bodies o.str t) (hbd : Bounded o.bodies) :
    ∃ h', destroy o = .ok () { o with bodies := h' } ∧ Change o.bodies h' (refs o.str) 0 ∧
      Bounded h' := by
  rw [destroy, run_bind get_run]
  by_cases hi : o.str.info < -1
  · obtain ⟨h', hrun, hc, hbd'⟩ := decOldRefCount_spec (hh.ready (by omega)) hbd
    exact ⟨h', by rw [if_pos hi, hrun], hc, hbd'⟩
  · have hpos : 0 ≤ o.str.info := by
      cases hh with
      | short len info bytes => omega
      | long a b len lt info address points body chars => omega
    rw [if_neg hi, refs_of_nonneg hpos]
    exact ⟨o.bodies, rfl, Change.refl _, hbd⟩

end PDBString
end Netsdb
