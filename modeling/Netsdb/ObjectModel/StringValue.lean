import Netsdb.ObjectModel.HandleCount
import Netsdb.ObjectModel.StringSpec

/-!
# Strings as values

A `StringMemory` has all strings and the bodies of the long ones.  A run is a list of constructions,
assignments, copies and destructions; the value of each string is the text it was given last.

* `IsValue m v ops`     after every step of a run the strings are read back as the texts `v`, and an
                        assignment that throws leaves the old text or the empty one;
* `Meets`               the condition: no assignment of a long text to an inline string is refused;
* `run_isValue`         every run that meets the condition is a run of values.
-/

set_option linter.unusedSectionVars false

namespace Netsdb
open Finset

structure StringMemory where
  /-- the strings that are alive, by the number of their construction -/
  strings : Nat → Option PDBString
  next : Nat
  bodies : Bodies
  /-- the current allocation block -/
  active : Nat

/-- what a string is constructed from -/
inductive StringInit
  | default
  | chars (t : Text) (ram : Ram)
  | charsOfLength (t : Text) (ram : Ram)
  | stdString (t : Text) (ram : Ram)
  | copy (y : Nat) (ram : Ram)

inductive StringOp
  /-- a constructor runs on the storage `raw` -/
  | construct (raw : PDBString) (how : StringInit)
  | assignChars (x : Nat) (t : Text) (ram : Ram)
  | assignStdString (x : Nat) (t : Text) (ram : Ram)
  | assign (x y : Nat) (ram : Ram)
  | destroy (x : Nat)
  /-- another allocation block becomes the current one -/
  | useBlock (b : Nat)

/-- how a step ends -/
inductive StringOutcome
  | done (m : StringMemory)
  | threw (m : StringMemory)
  | fault
  /-- a string was assigned to itself -/
  | exit

namespace StringMemory

def empty : StringMemory := ⟨fun _ => none, 0, fun _ => none, 0⟩

/-! ## steps -/

/-- the memory after a member has run on the string `x` -/
def put (m : StringMemory) (x : Nat) (o : StringObj) (s : Option PDBString) : StringMemory :=
  { m with strings := Function.update m.strings x s, bodies := o.bodies }

/-- a constructor; when it throws there is no string -/
def construct (m : StringMemory) (raw : PDBString) (act : Act Unit) : StringOutcome :=
  match act ⟨m.bodies, m.active, raw⟩ with
  | .ok _ o => .done { m.put m.next o (some o.str) with next := m.next + 1 }
  | .error .notEnoughSpace o => .threw { m with bodies := o.bodies }
  | .error .fault _ => .fault

/-- an assignment to `x` -/
def change (m : StringMemory) (x : Nat) (act : Act Unit) : StringOutcome :=
  match m.strings x with
  | none => .fault
  | some s =>
    match act ⟨m.bodies, m.active, s⟩ with
    | .ok _ o => .done (m.put x o (some o.str))
    | .error .notEnoughSpace o => .threw (m.put x o (some o.str))
    | .error .fault _ => .fault

/-- the destructor of `x` -/
def destroy (m : StringMemory) (x : Nat) : StringOutcome :=
  match m.strings x with
  | none => .fault
  | some s =>
    match PDBString.destroy ⟨m.bodies, m.active, s⟩ with
    | .ok _ o => .done (m.put x o none)
    | .error _ _ => .fault

open PDBString in
/-- the constructor; `none`: the string to be copied is not there -/
def initAct (m : StringMemory) : StringInit → Option (Act Unit)
  | .default => some constructDefault
  | .chars t ram => some (constructText t ram)
  | .charsOfLength t ram => some (constructChars t ram)
  | .stdString t ram => some (constructText t ram)
  | .copy y ram => (m.strings y).map fun s => constructCopy s ram

def step (m : StringMemory) : StringOp → StringOutcome
  | .construct raw how => (m.initAct how).elim .fault (m.construct raw)
  | .assignChars x t ram => m.change x (PDBString.assignChars t ram)
  | .assignStdString x t ram => m.change x (PDBString.assignStdString t ram)
  | .assign x y ram =>
    if x = y then .exit
    else (m.strings y).elim .fault fun s => m.change x (PDBString.assignString s ram)
  | .destroy x => m.destroy x
  | .useBlock b => .done { m with active := b }

/-! ## what the strings are for -/

/-- the texts of the strings, by the number of their construction -/
abbrev Texts := Nat → Option Text

def initText (v : Texts) : StringInit → Option Text
  | .default => some []
  | .chars t _ => some t
  | .charsOfLength t _ => some t
  | .stdString t _ => some t
  | .copy y _ => v y

/-- the texts after a step that does not throw -/
def after (m : StringMemory) (v : Texts) : StringOp → Texts
  | .construct _ how => Function.update v m.next (initText v how)
  | .assignChars x t _ => Function.update v x (some t)
  | .assignStdString x t _ => Function.update v x (some t)
  | .assign x y _ => Function.update v x (v y)
  | .destroy x => Function.update v x none
  | .useBlock _ => v

/-- the texts when the string that was to be assigned is empty afterwards -/
def emptied (v : Texts) : StringOp → Texts
  | .assignChars x _ _ => Function.update v x (some [])
  | .assignStdString x _ _ => Function.update v x (some [])
  | .assign x _ _ => Function.update v x (some [])
  | _ => v

/-- every string is read back as its text, and comparisons and hashes are those of the texts -/
structure ReadsBack (m : StringMemory) (v : Texts) : Prop where
  alive : ∀ x, (m.strings x).isSome = (v x).isSome
  cStr : ∀ x s t, m.strings x = some s → v x = some t → s.cStr m.bodies = some t
  size : ∀ x s t, m.strings x = some s → v x = some t → s.size = (t.length + 1 : Nat)
  eq : ∀ x y s s' t t', m.strings x = some s → m.strings y = some s' → v x = some t →
    v y = some t' → s.eq s' m.bodies = some (decide (t = t'))
  hash : ∀ stdHash x s t, m.strings x = some s → v x = some t →
    s.hash stdHash m.bodies = some (stdHash t)

/-- the strings behave as values in all states of a run from `m`, where their texts are `v` -/
def IsValue : StringMemory → Texts → List StringOp → Prop
  | m, v, [] => m.ReadsBack v
  | m, v, op :: ops => m.ReadsBack v ∧
    match m.step op with
    | .done m' => IsValue m' (m.after v op) ops
    | .threw m' => IsValue m' v ops ∨ IsValue m' (emptied v op) ops
    | .fault => False
    | .exit => True

/-! ## runs -/

/-- RAM that is granted for `n` characters: nobody else's, and nowhere near the string `s` -/
def Grants (h : Bodies) (s : PDBString) (n : Nat) : Ram → Prop
  | .granted a => h a = none ∧ 0 ≤ a ∧ a + 4 + n ≤ 2 ^ 63 ∧ (a + 4 + n ≤ s.addr ∨ s.addr + 12 ≤ a)
  | _ => True

/-- storage for a string, with anything in it, away from all bodies -/
structure Storage (h : Bodies) (raw : PDBString) : Prop where
  bytes : raw.bytes.length = 8
  address : PDBString.IsAddress raw.addr
  apart : ∀ a b, h a = some b → a + 4 + b.chars.length ≤ raw.addr ∨ raw.addr + 12 ≤ a

/-- a text as C has it, with the RAM for its characters -/
structure IsText (h : Bodies) (s : PDBString) (t : Text) (ram : Ram) : Prop where
  nulFree : (0 : UInt8) ∉ t
  grants : Grants h s (t.length + 1) ram

/-- what the language and the allocator see to -/
def WellFormed (m : StringMemory) : StringOp → Prop
  | .construct raw how => Storage m.bodies raw ∧
    match how with
    | .default => True
    | .chars t ram => IsText m.bodies raw t ram
    | .charsOfLength t ram => IsText m.bodies raw t ram
    | .stdString t ram => IsText m.bodies raw t ram
    | .copy y ram => ∃ s, m.strings y = some s ∧ Grants m.bodies raw s.size.toNat ram
  | .assignChars x t ram => ∃ s, m.strings x = some s ∧ IsText m.bodies s t ram
  | .assignStdString x t ram => ∃ s, m.strings x = some s ∧ IsText m.bodies s t ram
  | .assign x y ram => ∃ s s', m.strings x = some s ∧ m.strings y = some s' ∧
    Grants m.bodies s s'.size.toNat ram
  | .destroy x => (m.strings x).isSome
  | .useBlock _ => True

/-- the RAM for a long text: its block throws when it is full, and is not full if the string is
inline -/
structure Room (s : Option PDBString) (ram : Ram) : Prop where
  throws : ram ≠ .null
  inline : ∀ s', s = some s' → 0 ≤ s'.info → ram ≠ .refused

/-- the size of a text is an `int`, and there is room for it if it does not fit into the string -/
structure Accepts (s : Option PDBString) (t : Text) (ram : Ram) : Prop where
  size : t.length + 1 < 2 ^ 31
  room : 8 < t.length + 1 → Room s ram

/-- the condition on a step -/
def Fine (m : StringMemory) : StringOp → Prop
  | .construct _ how =>
    match how with
    | .default => True
    | .chars t ram => Accepts none t ram
    | .charsOfLength t ram => Accepts none t ram
    | .stdString t ram => Accepts none t ram
    -- the count of the users of the characters of `y` does not wrap around
    | .copy y _ => ∀ s a b, m.strings y = some s → s.info < 0 → s.body? m.bodies = some (a, b) →
      b.refCount + 1 < 2 ^ 32
  | .assignChars x t ram => Accepts (m.strings x) t ram
  | .assignStdString x t ram => Accepts (m.strings x) t ram
  | .assign x y ram => ∀ s', m.strings y = some s' → s'.info < 0 → Room (m.strings x) ram
  | .destroy _ => True
  | .useBlock _ => True

/-- a property of all steps of a run -/
def Meets (P : StringMemory → StringOp → Prop) : StringMemory → List StringOp → Prop
  | _, [] => True
  | m, op :: ops => P m op ∧
    match m.step op with
    | .done m' => Meets P m' ops
    | .threw m' => Meets P m' ops
    | .fault => True
    | .exit => True

/-! ## the invariant -/

variable {m m' : StringMemory} {v : Texts} {x y n : Nat} {s raw : PDBString} {t : Text} {a : Int}
  {h' : Bodies} {e new : Option PDBString}

/-- the references of a string, if there is one -/
def useOf (e : Option PDBString) (a : Int) : Nat := e.elim 0 fun s => PDBString.refs s a

/-- how many strings use the body at `a` -/
def users (m : StringMemory) (a : Int) : Nat := ∑ x ∈ range m.next, useOf (m.strings x) a

/-- a string in its place that holds `t` -/
structure Proper (h : Bodies) (s : PDBString) (t : Text) : Prop where
  text : (0 : UInt8) ∉ t
  bytes : s.bytes.length = 8
  address : PDBString.IsAddress s.addr
  holds : PDBString.Holds h s t

/-- every string holds its text, and every body counts its users -/
structure Sound (m : StringMemory) (v : Texts) : Prop where
  proper : ∀ x s, m.strings x = some s → ∃ t, v x = some t ∧ Proper m.bodies s t
  gone : ∀ x, m.strings x = none → v x = none
  lt : ∀ x, m.next ≤ x → m.strings x = none
  counts : ∀ a, PDBString.rc m.bodies a = users m a
  bounded : PDBString.Bounded m.bodies

theorem sum_range_extend {g : Nat → Nat} (hn : m.next ≤ n) (hg : ∀ x, m.next ≤ x → g x = 0) :
    ∑ x ∈ range n, g x = ∑ x ∈ range m.next, g x :=
  (sum_subset (range_mono hn) fun x _ hx => hg x (not_lt.mp fun hlt => hx (mem_range.mpr hlt))).symm

/-- the users when one string has been replaced -/
theorem users_put (new : Option PDBString) (h : m.Sound v) (hn : m.next ≤ n) (hx : x < n) (hbe : m.strings x = e) (a : Int) :
    ∑ z ∈ range n, useOf (Function.update m.strings x new z) a + useOf e a =
      users m a + useOf new a := by
  have hext : ∑ z ∈ range n, useOf (m.strings z) a = users m a :=
    sum_range_extend hn fun z hz => by rw [h.lt z hz]; rfl
  rw [← hext, ← hbe]
  exact sum_range_update (fun e => useOf e a) m.strings hx new

/-- a body that another string uses has more users than the string `x` -/
theorem use_lt (h : m.Sound v) (hx : m.strings x = e) (hy : m.strings y = some s) (hne : y ≠ x)
    {b : CharBody} (hb : m.bodies a = some b) (hs : PDBString.refs s a = 1) :
    useOf e a < b.refCount := by
  have hlt : y < m.next := by
    by_contra hge
    rw [h.lt y (not_lt.mp hge)] at hy
    cases hy
  have hcount : b.refCount = users m a := by
    rw [← h.counts a, PDBString.rc_of_some hb]
  have hput := users_put none h (le_max_left m.next (x + 1))
    (Nat.lt_of_succ_le (le_max_right m.next (x + 1))) hx a
  have hle := le_sum_range (fun z => useOf (Function.update m.strings x none z) a)
    (lt_of_lt_of_le hlt (le_max_left m.next (x + 1)))
  have hone : useOf (Function.update m.strings x none y) a = 1 := by
    rw [Function.update_of_ne hne, hy]
    exact hs
  have hzero : useOf none a = 0 := rfl
  omega

/-- **One string replaced**, with its references. -/
theorem Sound.put (h : m.Sound v) (hn : m.next ≤ n) (hx : x < n) (hxe : m.strings x = e)
    (hlast : ∀ z, n ≤ z → m.strings z = none ∧ z ≠ x)
    (hc : PDBString.Change m.bodies h' (useOf e) (useOf new)) (hb : PDBString.Bounded h')
    {k : Option Text} (hnew : ∀ s, new = some s → ∃ t, k = some t ∧ Proper h' s t)
    (hnone : new = none → k = none) (active : Nat) :
    Sound ⟨Function.update m.strings x new, n, h', active⟩ (Function.update v x k) := by
  refine ⟨fun y s hy => ?_, fun y hy => ?_, fun y hy => ?_, fun a => ?_, hb⟩
  · by_cases hne : y = x
    · subst hne
      change Function.update m.strings y new y = some s at hy
      rw [Function.update_self] at hy
      rw [Function.update_self]
      exact hnew s hy
    · change Function.update m.strings x new y = some s at hy
      rw [Function.update_of_ne hne] at hy
      rw [Function.update_of_ne hne]
      obtain ⟨t, ht, hp⟩ := h.proper y s hy
      refine ⟨t, ht, hp.text, hp.bytes, hp.address, ?_⟩
      cases hp.holds with
      | short len info bytes => exact .short len info bytes
      | long a b len lt info address points body chars =>
        have hrefs : PDBString.refs s a = 1 := by
          rw [PDBString.refs_of_pointsTo points (by omega)]
          exact if_pos rfl
        obtain ⟨b', hb', hchars⟩ := hc.kept a b body (use_lt h hxe hy hne body hrefs)
        exact .long a b' len lt info address points hb' (hchars.trans chars)
  · by_cases hne : y = x
    · subst hne
      change Function.update m.strings y new y = none at hy
      rw [Function.update_self] at hy
      rw [Function.update_self]
      exact hnone hy
    · change Function.update m.strings x new y = none at hy
      rw [Function.update_of_ne hne] at hy
      rw [Function.update_of_ne hne]
      exact h.gone y hy
  · show Function.update m.strings x new y = none
    rw [Function.update_of_ne (hlast y hy).2]
    exact (hlast y hy).1
  · have h1 := users_put new h hn hx hxe a
    have h2 := hc.counts a
    have h3 := h.counts a
    show PDBString.rc h' a = ∑ z ∈ range n, useOf (Function.update m.strings x new z) a
    omega

/-! ## steps keep the invariant -/

/-- how a step may end that is to lead from the texts `v` to `v'` -/
inductive EndsWell (v v' : Texts) : StringOutcome → Prop
  | done {m' : StringMemory} (h : Sound m' v') : EndsWell v v' (.done m')
  | threw {m' : StringMemory} (h : Sound m' v) : EndsWell v v' (.threw m')
  | exit : EndsWell v v' .exit

variable {o' : StringObj} {act : Act Unit} {w : Int → Nat}

/-- **A string constructed.** -/
theorem construct_sound (h : m.Sound v) (hraw : PDBString.IsAddress raw.addr)
    (ht : (0 : UInt8) ∉ t) (hrun : act ⟨m.bodies, m.active, raw⟩ = .ok () o')
    (hd : PDBString.Done ⟨m.bodies, m.active, raw⟩ o' 0 t) :
    EndsWell v (Function.update v m.next (some t)) (m.construct raw act) := by
  rw [construct, hrun]
  refine EndsWell.done (Sound.put (e := none) h (Nat.le_succ _) (Nat.lt_succ_self _) (h.lt _ le_rfl)
    (fun z hz => ⟨h.lt z (Nat.le_of_succ_le hz), by omega⟩) hd.change hd.bounded
    (fun s hs => ?_) (fun hn => by cases hn) m.active)
  have hs' := Option.some.inj hs
  exact ⟨t, rfl, ht, hs' ▸ hd.same.bytes, hs' ▸ hd.same.addr.symm ▸ hraw, hs' ▸ hd.holds⟩

theorem change_run (hx : m.strings x = some s) (hrun : act ⟨m.bodies, m.active, s⟩ = .ok () o') :
    m.change x act = .done (m.put x o' (some o'.str)) := by
  unfold change
  rw [hx]
  simp only [hrun]

/-- **A string assigned.** -/
theorem change_sound (h : m.Sound v) (hx : m.strings x = some s) (hs : PDBString.IsAddress s.addr)
    (ht : (0 : UInt8) ∉ t) (hrun : act ⟨m.bodies, m.active, s⟩ = .ok () o')
    (hd : PDBString.Done ⟨m.bodies, m.active, s⟩ o' (PDBString.refs s) t) :
    EndsWell v (Function.update v x (some t)) (m.change x act) := by
  have hlt : x < m.next := by
    by_contra hge
    rw [h.lt x (not_lt.mp hge)] at hx
    cases hx
  rw [change_run hx hrun]
  refine EndsWell.done (Sound.put (e := some s) h le_rfl hlt hx
    (fun z hz => ⟨h.lt z hz, by omega⟩) hd.change hd.bounded (fun s' hs' => ?_)
    (fun hn => by cases hn) m.active)
  have heq := Option.some.inj hs'
  exact ⟨t, rfl, ht, heq ▸ hd.same.bytes, heq ▸ hd.same.addr.symm ▸ hs, heq ▸ hd.holds⟩

/-- an assignment that has thrown, and has changed nothing -/
theorem change_threw (h : m.Sound v) (hx : m.strings x = some s)
    (hrun : act ⟨m.bodies, m.active, s⟩ = .error .notEnoughSpace ⟨m.bodies, m.active, s⟩)
    (v' : Texts) : EndsWell v v' (m.change x act) := by
  have hput : m.put x ⟨m.bodies, m.active, s⟩ (some s) = m := by
    show StringMemory.mk _ _ _ _ = _
    rw [← hx, Function.update_eq_self]
  have hchange : m.change x act = .threw m := by
    unfold change
    rw [hx]
    simp only [hrun]
    rw [hput]
  rw [hchange]
  exact EndsWell.threw h

theorem Grants.free (hg : Grants m.bodies s n (.granted a)) :
    PDBString.Free m.bodies s a := by
  obtain ⟨hnone, hpos, hlt, hapart⟩ := hg
  exact ⟨hnone, ⟨hpos, by omega⟩, by omega⟩

/-- **An assignment from characters.** -/
theorem assignText_sound (h : m.Sound v) (hx : m.strings x = some s) {ram : Ram}
    (ht : IsText m.bodies s t ram) (hf : Accepts (m.strings x) t ram) :
    EndsWell v (Function.update v x (some t)) (m.change x (PDBString.assignText t ram)) := by
  obtain ⟨t₀, -, hp⟩ := h.proper x s hx
  obtain ⟨hlt, hroom⟩ := hf
  by_cases hlen : t.length + 1 ≤ 8
  · obtain ⟨o', hrun, hd, -⟩ := PDBString.assignText_short (o := ⟨m.bodies, m.active, s⟩) hp.holds
      hp.bytes h.bounded hlen ram
    exact change_sound h hx hp.address ht.nulFree hrun hd
  · have hlong : 8 < t.length + 1 := not_le.mp hlen
    obtain ⟨hnull, hinline⟩ := hroom hlong
    cases ram with
    | granted a =>
      obtain ⟨o', hrun, hd, -⟩ := PDBString.assignText_long (o := ⟨m.bodies, m.active, s⟩) hp.holds
        hp.bytes h.bounded hp.address hlong hlt ht.grants.free
      exact change_sound h hx hp.address ht.nulFree hrun hd
    | refused =>
      have hneg : s.info < 0 := by
        by_contra hpos
        exact hinline s hx (not_lt.mp hpos) rfl
      exact change_threw h hx
        (PDBString.assignText_refused (o := ⟨m.bodies, m.active, s⟩) hneg hlong hlt) _
    | null => exact absurd rfl hnull

/-- **An assignment from another string.** -/
theorem assignString_sound (h : m.Sound v) (hx : m.strings x = some s) {s' : PDBString}
    (hy : m.strings y = some s') (hne : x ≠ y) {ram : Ram}
    (hg : Grants m.bodies s s'.size.toNat ram) (hf : s'.info < 0 → Room (m.strings x) ram) :
    EndsWell v (Function.update v x (v y)) (m.change x (PDBString.assignString s' ram)) := by
  obtain ⟨t₀, -, hp⟩ := h.proper x s hx
  obtain ⟨t, ht, hp'⟩ := h.proper y s' hy
  rw [ht]
  cases hp'.holds with
  | short len info bytes =>
    obtain ⟨o', hrun, hd, -⟩ := PDBString.assignString_short (o := ⟨m.bodies, m.active, s⟩) hp.holds
      hp.bytes h.bounded hp'.bytes len info bytes ram
    exact change_sound h hx hp.address hp'.text hrun hd
  | long a b len lt info address points body chars =>
    have hneg : s'.info < 0 := by omega
    obtain ⟨hnull, hinline⟩ := hf hneg
    cases ram with
    | granted c =>
      have hrefs : PDBString.refs s' a = 1 := by
        rw [PDBString.refs_of_pointsTo points hneg]
        exact if_pos rfl
      have huse := use_lt h hx hy hne.symm body hrefs
      obtain ⟨o', hrun, hd, -⟩ := PDBString.assignString_long (o := ⟨m.bodies, m.active, s⟩) hp.holds
        hp.bytes h.bounded hp.address len lt info hg.free fun h' hc => by
          -- the body of the other string stays: that string uses it
          obtain ⟨b', hb', hchars⟩ := hc.kept a b body huse
          rw [PDBString.buffer, if_neg (not_le.mpr hneg), points.body? hb', Option.map_some, hchars,
            chars]
      exact change_sound h hx hp.address hp'.text hrun hd
    | refused =>
      have hneg' : s.info < 0 := by
        by_contra hpos
        exact hinline s hx (not_lt.mp hpos) rfl
      exact change_threw h hx
        (PDBString.assignString_refused (o := ⟨m.bodies, m.active, s⟩) hneg' hneg) _
    | null => exact absurd rfl hnull

/-! ### constructions -/

/-- a constructor that has thrown: there is no string, and the bodies are as they were -/
theorem construct_threw (h : m.Sound v) {s' : PDBString}
    (hrun : act ⟨m.bodies, m.active, raw⟩ = .error .notEnoughSpace ⟨m.bodies, m.active, s'⟩)
    (v' : Texts) : EndsWell v v' (m.construct raw act) := by
  rw [construct, hrun]
  exact EndsWell.threw h

theorem constructText_sound (h : m.Sound v) (hraw : Storage m.bodies raw) {ram : Ram}
    (ht : IsText m.bodies raw t ram) (hf : Accepts none t ram) :
    EndsWell v (Function.update v m.next (some t))
      (m.construct raw (PDBString.constructText t ram)) := by
  obtain ⟨hlt, hroom⟩ := hf
  by_cases hlen : t.length + 1 ≤ 8
  · obtain ⟨o', hrun, hd, -⟩ := PDBString.constructText_short (o := ⟨m.bodies, m.active, raw⟩)
      hraw.bytes h.bounded hlen ram
    exact construct_sound h hraw.address ht.nulFree hrun hd
  · have hlong : 8 < t.length + 1 := not_le.mp hlen
    obtain ⟨hnull, -⟩ := hroom hlong
    cases ram with
    | granted a =>
      obtain ⟨o', hrun, hd, -⟩ := PDBString.constructText_long (o := ⟨m.bodies, m.active, raw⟩)
        h.bounded hraw.address hlong hlt ht.grants.free
      exact construct_sound h hraw.address ht.nulFree hrun hd
    | refused =>
      have hspace := PDBString.constructSpace_refused (o := ⟨m.bodies, m.active, raw⟩) hlong hlt
      exact construct_threw h (PDBString.run_bind_error hspace) _
    | null => exact absurd rfl hnull

theorem construct_congr {act' : Act Unit}
    (h : act ⟨m.bodies, m.active, raw⟩ = act' ⟨m.bodies, m.active, raw⟩) :
    m.construct raw act = m.construct raw act' := by
  rw [construct, construct, h]

/-- the constructor from `n` characters does what the one from a C string does -/
theorem construct_chars_eq (h : m.Sound v) (hraw : Storage m.bodies raw) {ram : Ram}
    (ht : IsText m.bodies raw t ram) (hf : Accepts none t ram) :
    m.construct raw (PDBString.constructChars t ram) =
      m.construct raw (PDBString.constructText t ram) := by
  obtain ⟨hlt, hroom⟩ := hf
  have heq : PDBString.constructChars t ram ⟨m.bodies, m.active, raw⟩ =
      PDBString.constructText t ram ⟨m.bodies, m.active, raw⟩ := by
    by_cases hlen : t.length + 1 ≤ 8
    · exact PDBString.constructChars_short hlen ram
    · have hlong : 8 < t.length + 1 := not_le.mp hlen
      cases ram with
      | granted a =>
        exact PDBString.constructChars_long h.bounded hraw.address hlong hlt ht.grants.free
      | refused =>
        have hspace := PDBString.constructSpace_refused (o := ⟨m.bodies, m.active, raw⟩) hlong hlt
        exact (PDBString.run_bind_error hspace).trans (PDBString.run_bind_error hspace).symm
      | null => exact absurd rfl (hroom hlong).throws
  exact construct_congr heq

/-- **A copy.** -/
theorem constructCopy_sound (h : m.Sound v) (hraw : Storage m.bodies raw)
    (hy : m.strings y = some s) {ram : Ram} (hg : Grants m.bodies raw s.size.toNat ram)
    (hf : ∀ a b, s.info < 0 → s.body? m.bodies = some (a, b) → b.refCount + 1 < 2 ^ 32) :
    EndsWell v (Function.update v m.next (v y))
      (m.construct raw (PDBString.constructCopy s ram)) := by
  obtain ⟨t, ht, hp⟩ := h.proper y s hy
  rw [ht]
  cases hp.holds with
  | short len info bytes =>
    obtain ⟨o', hrun, hd, -⟩ := PDBString.constructCopy_short (o := ⟨m.bodies, m.active, raw⟩)
      h.bounded hp.bytes len info bytes ram
    exact construct_sound h hraw.address hp.text hrun hd
  | long a b len lt info address points body chars =>
    have hsrc : PDBString.Source m.bodies s t a b := ⟨info, len, lt, points, body, chars⟩
    have hlt := hf a b (by omega) (points.body? body)
    by_cases hd : b.block ≠ m.active ∧ raw.block = some m.active
    · cases ram with
      | granted c =>
        obtain ⟨o', hrun, hdone, -⟩ := PDBString.constructCopy_deep
          (o := ⟨m.bodies, m.active, raw⟩) hsrc h.bounded hraw.address hg.free hd
        exact construct_sound h hraw.address hp.text hrun hdone
      | refused =>
        obtain ⟨s', hrun⟩ := PDBString.constructCopy_full (o := ⟨m.bodies, m.active, raw⟩)
          hsrc hd .refused (fun n hn => by cases hn)
        exact construct_threw h hrun _
      | null =>
        obtain ⟨s', hrun⟩ := PDBString.constructCopy_full (o := ⟨m.bodies, m.active, raw⟩)
          hsrc hd .null (fun n hn => by cases hn)
        exact construct_threw h hrun _
    · have hapart : PDBString.Apart raw a := by
        have := hraw.apart a b body
        exact ⟨address, by omega⟩
      obtain ⟨o', hrun, hdone, -⟩ := PDBString.constructCopy_share
        (o := ⟨m.bodies, m.active, raw⟩) hsrc h.bounded hraw.address hapart hlt hd ram
      exact construct_sound h hraw.address hp.text hrun hdone

/-- **A string destroyed.** -/
theorem destroy_sound (h : m.Sound v) (hx : m.strings x = some s) :
    EndsWell v (Function.update v x none) (m.destroy x) := by
  obtain ⟨t, -, hp⟩ := h.proper x s hx
  obtain ⟨h', hrun, hc, hb⟩ :=
    PDBString.destroy_spec (o := ⟨m.bodies, m.active, s⟩) hp.holds h.bounded
  have hlt : x < m.next := by
    by_contra hge
    rw [h.lt x (not_lt.mp hge)] at hx
    cases hx
  have hdestroy : m.destroy x = .done (m.put x ⟨h', m.active, s⟩ none) := by
    unfold destroy
    rw [hx]
    simp only [hrun]
  rw [hdestroy]
  exact EndsWell.done (Sound.put (e := some s) h le_rfl hlt hx
    (fun z hz => ⟨h.lt z hz, by omega⟩) hc hb (fun s' hs' => by cases hs') (fun _ => rfl) m.active)

theorem step_construct (how : StringInit) (hi : m.initAct how = some act) :
    m.step (.construct raw how) = m.construct raw act := by
  rw [step, hi, Option.elim_some]

/-- **A construction** that meets the condition ends well. -/
theorem construct_step_sound (h : m.Sound v) (how : StringInit)
    (hw : WellFormed m (.construct raw how)) (hf : Fine m (.construct raw how)) :
    EndsWell v (Function.update v m.next (initText v how)) (m.step (.construct raw how)) := by
  obtain ⟨hraw, hw⟩ := hw
  cases how with
  | default =>
    obtain ⟨o', hrun, hd, -⟩ :=
      PDBString.constructDefault_spec (o := ⟨m.bodies, m.active, raw⟩) h.bounded
    rw [step_construct _ rfl]
    exact construct_sound h hraw.address List.not_mem_nil hrun hd
  | chars t ram =>
    rw [step_construct _ rfl]
    exact constructText_sound h hraw hw hf
  | charsOfLength t ram =>
    rw [step_construct _ rfl, construct_chars_eq h hraw hw hf]
    exact constructText_sound h hraw hw hf
  | stdString t ram =>
    rw [step_construct _ rfl]
    exact constructText_sound h hraw hw hf
  | copy y ram =>
    obtain ⟨s, hy, hg⟩ := hw
    have hinit : m.initAct (.copy y ram) = some (PDBString.constructCopy s ram) := by
      rw [initAct, hy, Option.map_some]
    rw [step_construct _ hinit]
    exact constructCopy_sound h hraw hy hg fun a b => hf s a b hy

/-- **A step** that meets the condition ends well. -/
theorem step_sound (h : m.Sound v) {op : StringOp} (hw : WellFormed m op) (hf : Fine m op) :
    EndsWell v (m.after v op) (m.step op) := by
  cases op with
  | construct raw how => exact construct_step_sound h how hw hf
  | assignChars x t ram =>
    obtain ⟨s, hx, ht⟩ := hw
    rw [step]
    exact assignText_sound h hx ht hf
  | assignStdString x t ram =>
    obtain ⟨s, hx, ht⟩ := hw
    rw [step]
    exact assignText_sound h hx ht hf
  | assign x y ram =>
    obtain ⟨s, s', hx, hy, hg⟩ := hw
    by_cases hne : x = y
    · rw [step, if_pos hne]
      exact EndsWell.exit
    · rw [step, if_neg hne, hy, Option.elim_some]
      exact assignString_sound h hx hy hne hg (hf s' hy)
  | destroy x =>
    obtain ⟨s, hx⟩ := Option.isSome_iff_exists.mp hw
    rw [step]
    exact destroy_sound h hx
  | useBlock b => exact EndsWell.done ⟨h.proper, h.gone, h.lt, h.counts, h.bounded⟩

theorem empty_sound : Sound empty fun _ => none where
  proper := fun x s hs => by cases hs
  gone := fun _ _ => rfl
  lt := fun _ _ => rfl
  counts := fun _ => rfl
  bounded := fun a b hb => by cases hb

/-- what the invariant says of reading -/
theorem Sound.readsBack (h : m.Sound v) : m.ReadsBack v := by
  have hread : ∀ x s t, m.strings x = some s → v x = some t → Proper m.bodies s t := by
    intro x s t hs ht
    obtain ⟨t', ht', hp⟩ := h.proper x s hs
    rw [ht] at ht'
    exact Option.some.inj ht' ▸ hp
  have hstr : ∀ x s t, m.strings x = some s → v x = some t → s.cStr m.bodies = some t :=
    fun x s t hs ht => (hread x s t hs ht).holds.cStr (hread x s t hs ht).text
  refine ⟨fun x => ?_, hstr, fun x s t hs ht => (hread x s t hs ht).holds.size, ?_, ?_⟩
  · cases hs : m.strings x with
    | none =>
      rw [h.gone x hs]
      rfl
    | some s =>
      obtain ⟨t, ht, -⟩ := h.proper x s hs
      rw [ht]
      rfl
  · intro x y s s' t t' hs hs' ht ht'
    rw [PDBString.eq, hstr x s t hs ht, hstr y s' t' hs' ht']
    rfl
  · intro stdHash x s t hs ht
    rw [PDBString.hash, hstr x s t hs ht]
    rfl

theorem isValue_of_sound {ops : List StringOp} (h : m.Sound v) (hw : Meets WellFormed m ops)
    (hf : Meets Fine m ops) : IsValue m v ops := by
  induction ops generalizing m v with
  | nil => exact h.readsBack
  | cons op ops ih =>
    obtain ⟨hw₁, hw₂⟩ := hw
    obtain ⟨hf₁, hf₂⟩ := hf
    have hstep := step_sound h hw₁ hf₁
    refine ⟨h.readsBack, ?_⟩
    generalize m.step op = r at hstep hw₂ hf₂ ⊢
    cases hstep with
    | done h' => exact ih h' hw₂ hf₂
    | threw h' => exact Or.inl (ih h' hw₂ hf₂)
    | exit => trivial

/-- **In every run in which no long text is refused to an inline string, the strings are values**:
after each step they are read back as what they were given last, and an assignment that throws
leaves the text that was there. -/
theorem run_isValue (ops : List StringOp) (hw : Meets WellFormed empty ops)
    (hf : Meets Fine empty ops) : IsValue empty (fun _ => none) ops :=
  isValue_of_sound empty_sound hw hf

/-! ## the run that goes wrong -/

/-- storage on the stack -/
def stackStorage : PDBString := ⟨4096, none, List.replicate 8 0, 0⟩

/-- `String s("ab"); s = "longtext";`, and the block is full -/
def refusedRun : List StringOp :=
  [.construct stackStorage (.chars [97, 98] .null),
    .assignChars 0 [108, 111, 110, 103, 116, 101, 120, 116] .refused]

/-- the string `"ab"` -/
def shortMemory : StringMemory :=
  ⟨Function.update (fun _ => none) 0 (some ⟨4096, none, [97, 98, 0, 0, 0, 0, 0, 0], 3⟩), 1,
    fun _ => none, 0⟩

/-- the string after the exception: its tag is inline, its bytes are the null offset -/
def tornMemory : StringMemory :=
  { shortMemory with
    strings := Function.update shortMemory.strings 0
      (some ⟨4096, none, List.replicate 8 255, 3⟩) }

theorem construct_short : empty.step (.construct stackStorage (.chars [97, 98] .null)) =
    .done shortMemory := rfl

theorem assign_torn :
    shortMemory.step (.assignChars 0 [108, 111, 110, 103, 116, 101, 120, 116] .refused) =
      .threw tornMemory := rfl

/-- no text of two characters or less is read back -/
theorem torn_cStr {v : Texts} {t : Text} (ht : v 0 = some t) (hlen : t.length ≤ 2) :
    ¬ tornMemory.ReadsBack v := by
  intro h
  have hread := h.cStr 0 ⟨4096, none, List.replicate 8 255, 3⟩ t rfl ht
  have hbytes : PDBString.cStr ⟨4096, none, List.replicate 8 255, 3⟩ tornMemory.bodies =
      some (List.replicate 8 255 ++ [3]) := rfl
  rw [hbytes] at hread
  have hnine : t.length = 9 := by
    rw [← Option.some.inj hread]
    rfl
  omega

/-- **A long text that is refused to an inline string** leaves neither the old text nor the empty
one. -/
theorem not_always_isValue :
    ¬ ∀ ops, Meets WellFormed empty ops → IsValue empty (fun _ => none) ops := by
  intro h
  have hstorage : Storage empty.bodies stackStorage :=
    ⟨rfl, ⟨by decide, by decide⟩, fun a b hb => by cases hb⟩
  have hw : Meets WellFormed empty refusedRun := by
    refine ⟨⟨hstorage, by decide, trivial⟩, ?_⟩
    rw [construct_short]
    refine ⟨⟨_, rfl, by decide, trivial⟩, ?_⟩
    rw [assign_torn]
    trivial
  obtain ⟨-, h₁⟩ := h refusedRun hw
  rw [construct_short] at h₁
  obtain ⟨-, h₂⟩ := h₁
  rw [assign_torn] at h₂
  rcases h₂ with hold | hempty
  · exact torn_cStr (t := [97, 98]) rfl (by decide) hold
  · exact torn_cStr (t := []) rfl (by decide) hempty

/-- the same assignment with room for the text -/
def grantedRun : List StringOp :=
  [.construct stackStorage (.chars [97, 98] .null),
    .assignChars 0 [108, 111, 110, 103, 116, 101, 120, 116] (.granted 8192)]

theorem run_isValue_granted : IsValue empty (fun _ => none) grantedRun := by
  refine run_isValue grantedRun ?_ ?_
  · refine ⟨⟨⟨rfl, ⟨by decide, by decide⟩, fun a b hb => by cases hb⟩, by decide, trivial⟩, ?_⟩
    rw [construct_short]
    exact ⟨⟨_, rfl, by decide, rfl, by decide, by decide, by decide⟩, trivial⟩
  · refine ⟨⟨by decide, fun hlong => by simp at hlong⟩, ?_⟩
    rw [construct_short]
    exact ⟨⟨by decide, fun _ => ⟨by decide, fun _ _ _ => by decide⟩⟩, trivial⟩

end StringMemory
end Netsdb
