import Netsdb.BuiltIn.MapUndo
import Mathlib.Data.Set.BooleanAlgebra
import Mathlib.Order.CompletePartialOrder

/-!
# Deep copies of a `PairArray` (`PairArray.cc`)

Chunks of RAM are numbered in the order in which they are given out; a copy is told the number of the
next one.

* `Constituent`                  a type of keys or values: whether it descends from `Object`, and how
                                 an object of it is copied;
* `PairArray.setUpAndCopyFrom`   the copy, into memory that is not initialised;
* `PairTarget.destroyed`         what the destructor destroys;
* `deepCopy_same`                a copy that is finished is the same map in other storage;
* `pairCopy_destroys`            a copy that is not: its destructor does nothing.
-/

set_option linter.unusedSectionVars false

namespace Netsdb

/-- a type, as `PDBTemplateBase` knows it -/
structure Constituent (V : Type*) where
  descendsFromObject : Bool
  /-- an object is constructed and assigned; with the number of the chunk behind its chunks -/
  copy : V → Nat → V × Nat
  /-- the bytes at another address -/
  moved : V → V
  /-- the chunks that its handles lead to -/
  storage : V → Set Nat

/-- copies are equal, and have their storage in the current block, which begins at `start`; a handle
is an offset from its own address, so that bytes mean the same elsewhere only without handles -/
structure Constituent.Deep {V : Type*} (c : Constituent V) (R : V → V → Prop) (start : Nat) :
    Prop where
  same : ∀ v next, start ≤ next → (∀ x ∈ c.storage v, x < start) → R (c.copy v next).1 v
  grows : ∀ v next, next ≤ (c.copy v next).2
  fresh : ∀ v next, start ≤ next → (∀ x ∈ c.storage v, x < start) →
    ∀ x ∈ c.storage (c.copy v next).1, start ≤ x
  moved : ∀ v, c.storage v = ∅ → R (c.moved v) v ∧ c.storage (c.moved v) = ∅
  dangles : ∀ v, c.storage v ≠ ∅ → ¬ R (c.moved v) v

/-- the condition on a value: it is assigned, or it is without handles -/
def Constituent.Movable {V : Type*} (c : Constituent V) (v : V) : Prop :=
  c.descendsFromObject = true ∨ c.storage v = ∅

/-- `v'` is what a copy makes of `v`: it can be used if `M v` -/
structure Constituent.Copied {V : Type*} (c : Constituent V) (R : V → V → Prop) (start : Nat)
    (M : V → Prop) (v' v : V) : Prop where
  good : M v → R v' v ∧ ∀ x ∈ c.storage v', start ≤ x
  bad : ¬ M v → ¬ R v' v

section
variable {V : Type*} {c : Constituent V} {R : V → V → Prop} {start next : Nat} {v : V}

theorem Constituent.Deep.of_moved (h : c.Deep R start) (hobj : c.descendsFromObject = false) (v : V) :
    c.Copied R start c.Movable (c.moved v) v := by
  have hmov : c.Movable v ↔ c.storage v = ∅ := by
    rw [Constituent.Movable, hobj]
    exact or_iff_right Bool.false_ne_true
  constructor
  · intro hv
    obtain ⟨hsame, hnone⟩ := h.moved v (hmov.mp hv)
    refine ⟨hsame, fun x hx => ?_⟩
    rw [hnone] at hx
    exact absurd hx (Set.notMem_empty x)
  · intro hv
    exact h.dangles v (mt hmov.mpr hv)

theorem Constituent.Deep.of_assigned (h : c.Deep R start) (hn : start ≤ next)
    (hv : ∀ x ∈ c.storage v, x < start) {M : V → Prop} (hM : M v) :
    c.Copied R start M (c.copy v next).1 v :=
  ⟨fun _ => ⟨h.same v next hn hv, h.fresh v next hn hv⟩, fun hno => absurd hM hno⟩

end

/-- two lists of the same shape, element by element -/
theorem forall₂_filterMap {α β γ : Type*} {R : β → γ → Prop} {f : α → Option β} {g : α → Option γ}
    {l : List α} (hshape : ∀ a ∈ l, Option.Rel (fun _ _ => True) (f a) (g a))
    (h : List.Forall₂ R (l.filterMap f) (l.filterMap g)) : ∀ a ∈ l, Option.Rel R (f a) (g a) := by
  induction l with
  | nil =>
    intro a ha
    exact absurd ha List.not_mem_nil
  | cons a l ih =>
    have hrest := fun b hb => hshape b (List.mem_cons_of_mem a hb)
    have hfirst := hshape a List.mem_cons_self
    rw [List.filterMap_cons, List.filterMap_cons] at h
    cases hf : f a with
    | none =>
      cases hg : g a with
      | none =>
        rw [hf, hg] at h
        intro b hb
        rcases List.mem_cons.mp hb with rfl | hb
        · rw [hf, hg]
          exact .none
        · exact ih hrest h b hb
      | some y =>
        rw [hf, hg] at hfirst
        cases hfirst
    | some x =>
      cases hg : g a with
      | none =>
        rw [hf, hg] at hfirst
        cases hfirst
      | some y =>
        rw [hf, hg] at h
        obtain ⟨hxy, hl⟩ := List.forall₂_cons.mp h
        intro b hb
        rcases List.mem_cons.mp hb with rfl | hb
        · rw [hf, hg]
          exact .some hxy
        · exact ih hrest hl b hb

theorem forall₂_getElem? {α β : Type*} {R : α → β → Prop} {l : List α} {l' : List β}
    (h : List.Forall₂ R l l') : ∀ k : Nat, Option.Rel R l[k]? l'[k]? := by
  induction h with
  | nil =>
    intro k
    exact .none
  | cons hxy _ ih =>
    intro k
    cases k with
    | zero => exact .some hxy
    | succ k => exact ih k

/-- how a copy ends -/
inductive CopyEnd (τ : Type*)
  | ret (t : τ) (next : Nat)
  | notEnoughSpace (t : τ)

/-- every object that was constructed is destroyed once, and no other -/
def DestroysExactly {α : Type*} (destroyed : List α) (constructed : α → Prop) : Prop :=
  destroyed.Nodup ∧ ∀ o, o ∈ destroyed ↔ constructed o

/-- the memory of a copy; `keys` and `values` tell where an object has been constructed -/
structure PairTarget (K V : Type*) where
  data : Nat → MapRecordClass K V
  keys : Nat → Bool
  values : Nat → Bool

inductive PairPart
  | key
  | value
deriving DecidableEq, Repr

namespace PairTarget
variable {K V : Type*}

def writeHash (t : PairTarget K V) (i hash : Nat) : PairTarget K V :=
  { t with data := Function.update t.data i { t.data i with hash := hash } }

def writeKey (t : PairTarget K V) (i : Nat) (k : K) : PairTarget K V :=
  { t with data := Function.update t.data i { t.data i with key := k } }

def writeValue (t : PairTarget K V) (i : Nat) (v : V) : PairTarget K V :=
  { t with data := Function.update t.data i { t.data i with value := v } }

/-- the flag lies behind an array of length zero: it is the first byte of the hash in slot `0` -/
def setDisableDestructor (t : PairTarget K V) (disableOrNot : Bool) : PairTarget K V :=
  t.writeHash 0 ((t.data 0).hash / 256 * 256 + disableOrNot.toNat)

def isDestructorDisabled (t : PairTarget K V) : Bool := (t.data 0).hash % 256 != 0

/-- the handlers of `NotEnoughSpace` at slot `i` -/
def giveUp (t : PairTarget K V) (i numSlots : Nat) : PairTarget K V :=
  ({ t with data := fun j =>
    if i ≤ j ∧ j < numSlots then { t.data j with hash := UNUSED } else t.data j } :
      PairTarget K V).setDisableDestructor true

/-- the destructor -/
def destroyed (t : PairTarget K V) (key value : Bool) (numSlots : Nat) : List (Nat × PairPart) :=
  if t.isDestructorDisabled then []
  else if !key && !value then []
  else
    (List.range numSlots).flatMap fun i =>
      if (t.data i).hash ≠ UNUSED then
        (if key then [(i, PairPart.key)] else []) ++ if value then [(i, PairPart.value)] else []
      else []

def Constructed (t : PairTarget K V) : Nat × PairPart → Prop
  | (i, .key) => t.keys i = true
  | (i, .value) => t.values i = true

end PairTarget

namespace PairArray
variable {K V : Type*}

/-- what runs out of space; `some constructed`: whether the object has been constructed by then -/
abbrev CopyFail := Nat × PairPart → Option Bool

section
variable (ck : Constituent K) (cv : Constituent V) (fail : CopyFail) (fromMe : PairArray K V)

def copyKey (i : Nat) (t : PairTarget K V) (next : Nat) : CopyEnd (PairTarget K V) :=
  if !ck.descendsFromObject then .ret (t.writeKey i (ck.moved (fromMe.data i).key)) next
  else
    match fail (i, .key) with
    | none =>
      let k := ck.copy (fromMe.data i).key next
      .ret { t.writeKey i k.1 with keys := Function.update t.keys i true } k.2
    | some constructed =>
      .notEnoughSpace { t with keys := Function.update t.keys i constructed }

def copyValue (i : Nat) (t : PairTarget K V) (next : Nat) : CopyEnd (PairTarget K V) :=
  if !cv.descendsFromObject then .ret (t.writeValue i (cv.moved (fromMe.data i).value)) next
  else
    match fail (i, .value) with
    | none =>
      let v := cv.copy (fromMe.data i).value next
      .ret { t.writeValue i v.1 with values := Function.update t.values i true } v.2
    | some constructed =>
      .notEnoughSpace { t with values := Function.update t.values i constructed }

/-- the body of the loop -/
def copySlot (i : Nat) (t : PairTarget K V) (next : Nat) : CopyEnd (PairTarget K V) :=
  let t := t.writeHash i (fromMe.data i).hash
  if (fromMe.data i).hash = UNUSED then .ret t next
  else
    match copyKey ck fail fromMe i t next with
    | .notEnoughSpace t => .notEnoughSpace (t.giveUp i fromMe.numSlots)
    | .ret t next =>
      match copyValue cv fail fromMe i t next with
      | .notEnoughSpace t => .notEnoughSpace (t.giveUp i fromMe.numSlots)
      | .ret t next => .ret t next

def copySlots : List Nat → PairTarget K V → Nat → CopyEnd (PairTarget K V)
  | [], t, next => .ret t next
  | i :: is, t, next =>
    match copySlot ck cv fail fromMe i t next with
    | .ret t next => copySlots is t next
    | .notEnoughSpace t => .notEnoughSpace t

/-- the memory of the copy; the other fields are those of `fromMe` -/
def setUpAndCopyFrom (t : PairTarget K V) (next : Nat) : CopyEnd (PairTarget K V) :=
  -- in the constructor, and once more
  let t := (t.setDisableDestructor false).setDisableDestructor false
  if !ck.descendsFromObject && !cv.descendsFromObject then
    .ret { t with
      data := fun i =>
        if i < fromMe.numSlots then
          ⟨(fromMe.data i).hash, ck.moved (fromMe.data i).key, cv.moved (fromMe.data i).value⟩
        else t.data i } next
  else copySlots ck cv fail fromMe (List.range fromMe.numSlots) t next

/-- the copy -/
def copied (t : PairTarget K V) : PairArray K V := { fromMe with data := t.data }

end

/-! ## a copy that is finished -/

section
variable [BEq K] [Hashable K] {ck : Constituent K} {cv : Constituent V} {R : V → V → Prop}
  {start i j next : Nat} {fromMe : PairArray K V} {t t' : PairTarget K V} {fail : CopyFail}

/-- the key and the value of a slot are in blocks other than the current one -/
def Elsewhere (ck : Constituent K) (cv : Constituent V) (start : Nat) (a : PairArray K V) (i : Nat) :
    Prop :=
  (∀ x ∈ ck.storage (a.data i).key, x < start) ∧ ∀ x ∈ cv.storage (a.data i).value, x < start

/-- the condition on a slot -/
def Movable (ck : Constituent K) (cv : Constituent V) (a : PairArray K V) (i : Nat) : Prop :=
  ck.Movable (a.data i).key ∧ cv.Movable (a.data i).value

/-- slot `i` has been copied -/
structure SlotCopied (ck : Constituent K) (cv : Constituent V) (R : V → V → Prop) (start : Nat)
    (fromMe : PairArray K V) (r : MapRecordClass K V) (i : Nat) : Prop where
  hash : r.hash = (fromMe.data i).hash
  key : fromMe.Used i →
    ck.Copied (fun x y => (x == y) = true) start ck.Movable r.key (fromMe.data i).key
  value : fromMe.Used i → cv.Copied R start cv.Movable r.value (fromMe.data i).value

theorem copyKey_spec (hk : ck.Deep (fun x y => (x == y) = true) start) (hn : start ≤ next)
    (hi : ∀ x ∈ ck.storage (fromMe.data i).key, x < start) (t : PairTarget K V) :
    ∃ t' k next', copyKey ck (fun _ => none) fromMe i t next = .ret t' next' ∧ next ≤ next' ∧
      t'.data = Function.update t.data i { t.data i with key := k } ∧
      ck.Copied (fun x y => (x == y) = true) start ck.Movable k (fromMe.data i).key := by
  cases hobj : ck.descendsFromObject with
  | false =>
    exact ⟨t.writeKey i (ck.moved (fromMe.data i).key), ck.moved (fromMe.data i).key, next,
      by rw [copyKey, hobj]; rfl, Nat.le_refl _, rfl, hk.of_moved hobj _⟩
  | true =>
    obtain ⟨k, next', hcopy⟩ : ∃ k next', ck.copy (fromMe.data i).key next = (k, next') :=
      ⟨_, _, rfl⟩
    have hcopied := hk.of_assigned hn hi (M := ck.Movable) (.inl hobj)
    have hle := hk.grows (fromMe.data i).key next
    rw [hcopy] at hcopied hle
    refine ⟨{ t.writeKey i k with keys := Function.update t.keys i true }, k, next', ?_, hle, rfl,
      hcopied⟩
    rw [copyKey, hobj, hcopy]
    rfl

theorem copyValue_spec (hv : cv.Deep R start) (hn : start ≤ next)
    (hi : ∀ x ∈ cv.storage (fromMe.data i).value, x < start) (t : PairTarget K V) :
    ∃ t' v next', copyValue cv (fun _ => none) fromMe i t next = .ret t' next' ∧ next ≤ next' ∧
      t'.data = Function.update t.data i { t.data i with value := v } ∧
      cv.Copied R start cv.Movable v (fromMe.data i).value := by
  cases hobj : cv.descendsFromObject with
  | false =>
    exact ⟨t.writeValue i (cv.moved (fromMe.data i).value), cv.moved (fromMe.data i).value, next,
      by rw [copyValue, hobj]; rfl, Nat.le_refl _, rfl, hv.of_moved hobj _⟩
  | true =>
    obtain ⟨v, next', hcopy⟩ : ∃ v next', cv.copy (fromMe.data i).value next = (v, next') :=
      ⟨_, _, rfl⟩
    have hcopied := hv.of_assigned hn hi (M := cv.Movable) (.inl hobj)
    have hle := hv.grows (fromMe.data i).value next
    rw [hcopy] at hcopied hle
    refine ⟨{ t.writeValue i v with values := Function.update t.values i true }, v, next', ?_, hle,
      rfl, hcopied⟩
    rw [copyValue, hobj, hcopy]
    rfl

/-- one slot; no other is written -/
theorem copySlot_spec (hk : ck.Deep (fun x y => (x == y) = true) start) (hv : cv.Deep R start)
    (hn : start ≤ next) (hi : fromMe.Used i → Elsewhere ck cv start fromMe i)
    (t : PairTarget K V) :
    ∃ t' next', copySlot ck cv (fun _ => none) fromMe i t next = .ret t' next' ∧ next ≤ next' ∧
      SlotCopied ck cv R start fromMe (t'.data i) i ∧ ∀ j, j ≠ i → t'.data j = t.data j := by
  have hself : (t.writeHash i (fromMe.data i).hash).data i =
      { t.data i with hash := (fromMe.data i).hash } := Function.update_self _ _ _
  by_cases hu : fromMe.Used i
  · obtain ⟨t₁, k, n₁, h₁, hle₁, hd₁, hkey⟩ := copyKey_spec hk hn (hi hu).1
      (t.writeHash i (fromMe.data i).hash)
    obtain ⟨t₂, v, n₂, h₂, hle₂, hd₂, hval⟩ := copyValue_spec hv (hn.trans hle₁) (hi hu).2 t₁
    have hdata : t₂.data i = ⟨(fromMe.data i).hash, k, v⟩ := by
      rw [hd₂, Function.update_self, hd₁, Function.update_self, hself]
    refine ⟨t₂, n₂, ?_, hle₁.trans hle₂, ?_, fun j e => ?_⟩
    · simp only [copySlot, h₁, h₂]
      exact if_neg hu
    · rw [hdata]
      exact ⟨rfl, fun _ => hkey, fun _ => hval⟩
    · rw [hd₂, Function.update_of_ne e, hd₁, Function.update_of_ne e]
      exact Function.update_of_ne e _ _
  · refine ⟨_, next, if_pos (not_not.mp hu), Nat.le_refl _, ?_, fun j e => Function.update_of_ne e _ _⟩
    rw [hself]
    exact ⟨rfl, fun h => absurd h hu, fun h => absurd h hu⟩

/-- the slots of a list -/
theorem copySlots_spec (hk : ck.Deep (fun x y => (x == y) = true) start) (hv : cv.Deep R start)
    (is : List Nat) : ∀ {next : Nat} {t : PairTarget K V}, is.Nodup → start ≤ next →
    (∀ i ∈ is, fromMe.Used i → Elsewhere ck cv start fromMe i) →
    ∃ t' next', copySlots ck cv (fun _ => none) fromMe is t next = .ret t' next' ∧ next ≤ next' ∧
      (∀ i ∈ is, SlotCopied ck cv R start fromMe (t'.data i) i) ∧
      ∀ j, j ∉ is → t'.data j = t.data j := by
  induction is with
  | nil =>
    intro next t _ _ _
    exact ⟨t, next, rfl, Nat.le_refl _, fun i hi => absurd hi List.not_mem_nil, fun _ _ => rfl⟩
  | cons i is ih =>
    intro next t hnd hn helse
    obtain ⟨hni, hnd'⟩ := List.nodup_cons.mp hnd
    obtain ⟨t₁, n₁, h₁, hle₁, hslot, hother⟩ :=
      copySlot_spec hk hv hn (helse i List.mem_cons_self) t
    obtain ⟨t₂, n₂, h₂, hle₂, hslots, hkeep⟩ := ih hnd' (hn.trans hle₁)
      (fun j hj => helse j (List.mem_cons_of_mem i hj))
    refine ⟨t₂, n₂, ?_, hle₁.trans hle₂, fun j hj => ?_, fun j hj => ?_⟩
    · rw [copySlots, h₁]
      exact h₂
    · rcases List.mem_cons.mp hj with rfl | hj
      · rw [hkeep _ hni]
        exact hslot
      · exact hslots j hj
    · rw [hkeep j fun hm => hj (List.mem_cons_of_mem i hm), hother j]
      rintro rfl
      exact hj List.mem_cons_self

/-- **`setUpAndCopyFrom`** that does not run out of space: every slot has been copied. -/
theorem setUpAndCopyFrom_spec (hk : ck.Deep (fun x y => (x == y) = true) start)
    (hv : cv.Deep R start) (hn : start ≤ next)
    (helse : ∀ i < fromMe.numSlots, fromMe.Used i → Elsewhere ck cv start fromMe i)
    (t : PairTarget K V) :
    ∃ t' next', setUpAndCopyFrom ck cv (fun _ => none) fromMe t next = .ret t' next' ∧
      next ≤ next' ∧
      ∀ i < fromMe.numSlots, SlotCopied ck cv R start fromMe (t'.data i) i := by
  obtain ⟨t₀, ht₀⟩ : ∃ t₀, t₀ = (t.setDisableDestructor false).setDisableDestructor false := ⟨_, rfl⟩
  unfold setUpAndCopyFrom
  rw [← ht₀]
  cases hplain : !ck.descendsFromObject && !cv.descendsFromObject with
  | true =>
    -- the bytes are moved
    simp only [Bool.and_eq_true, Bool.not_eq_true'] at hplain
    refine ⟨_, next, rfl, Nat.le_refl _, fun i hi => ?_⟩
    show SlotCopied ck cv R start fromMe (if i < fromMe.numSlots then
      ⟨(fromMe.data i).hash, ck.moved (fromMe.data i).key, cv.moved (fromMe.data i).value⟩ else _) i
    rw [if_pos hi]
    exact ⟨rfl, fun _ => hk.of_moved hplain.1 _, fun _ => hv.of_moved hplain.2 _⟩
  | false =>
    obtain ⟨t', next', hrun, hle, hslots, -⟩ := copySlots_spec hk hv (List.range fromMe.numSlots)
      (t := t₀) List.nodup_range hn fun i hi => helse i (List.mem_range.mp hi)
    exact ⟨t', next', hrun, hle, fun i hi => hslots i (List.mem_range.mpr hi)⟩

variable [EquivBEq K] [LawfulHashable K]

/-- the search for a key ends at the same slot -/
theorem findSlot_copied (h2 : 2 ≤ fromMe.numSlots)
    (h : ∀ i < fromMe.numSlots, SlotCopied ck cv R start fromMe (t.data i) i)
    (hmove : ∀ i < fromMe.numSlots, fromMe.Used i → ck.Movable (fromMe.data i).key) (k : K) :
    (fromMe.copied t).findSlot k = fromMe.findSlot k := by
  have hhome : Hasher.hash k % (fromMe.numSlots - 1) < fromMe.numSlots := by
    have := Nat.mod_lt (Hasher.hash k) (show 0 < fromMe.numSlots - 1 by omega)
    omega
  rw [findSlot_eq, findSlot_eq]
  refine probe_congr (fun x hx => ?_) _ hhome
  show ((t.data x).hash == UNUSED || ((t.data x).hash == Hasher.hash k && (t.data x).key == k)) = _
  rw [stops, (h x hx).hash]
  by_cases hu : fromMe.Used x
  · rw [BEq.congr_left (((h x hx).key hu).good (hmove x hx hu)).1]
  · have hun : ((fromMe.data x).hash == UNUSED) = true := by simpa [Used] using hu
    rw [hun, Bool.true_or, Bool.true_or]

end
end PairArray

/-! ## a copy that runs out of space -/

namespace PairTarget
variable {K V : Type*} {t t' : PairTarget K V}

theorem giveUp_disabled (t : PairTarget K V) (i numSlots : Nat) :
    (t.giveUp i numSlots).isDestructorDisabled = true := by
  have hbyte : ∀ x : Nat, (x / 256 * 256 + 1) % 256 = 1 := fun x => by omega
  unfold giveUp setDisableDestructor isDestructorDisabled writeHash
  dsimp only
  rw [Function.update_self]
  simp only [Bool.toNat_true, hbyte]
  rfl

end PairTarget

namespace PairArray
section
variable {K V : Type*} {ck : Constituent K} {cv : Constituent V} {fromMe : PairArray K V}
  {t t' : PairTarget K V} {fail : CopyFail} {i next next' : Nat}

/-- the condition: the copy of the first object fails, before the object has been constructed -/
def FirstObjectFails (ck : Constituent K) (fail : CopyFail) (fromMe : PairArray K V)
    (is : List Nat) : Prop :=
  ∃ i, is.find? (fun i => fromMe.Used i) = some i ∧
    fail (i, if ck.descendsFromObject then .key else .value) = some false

/-- what a slot leaves when it fails -/
structure SlotFailed (ck : Constituent K) (fail : CopyFail) (t t' : PairTarget K V) (i : Nat) : Prop where
  disabled : t'.isDestructorDisabled = true
  other : ∀ j, j ≠ i → t'.keys j = t.keys j ∧ t'.values j = t.values j
  /-- nothing was there before, and nothing is there now -/
  none : t.keys i = false → t.values i = false → ((t'.keys i = false ∧ t'.values i = false) ↔
    fail (i, if ck.descendsFromObject then .key else .value) = some false)

theorem copySlot_throws (h : copySlot ck cv fail fromMe i t next = .notEnoughSpace t') :
    fromMe.Used i ∧ SlotFailed ck fail t t' i := by
  unfold copySlot at h
  dsimp only at h
  split_ifs at h with hu
  refine ⟨hu, ?_⟩
  unfold copyKey copyValue at h
  cases hk : ck.descendsFromObject with
  | true =>
    simp only [hk, Bool.not_true, Bool.false_eq_true, if_false] at h
    cases hf : fail (i, .key) with
    | some b =>
      rw [hf] at h
      cases h
      refine ⟨PairTarget.giveUp_disabled _ _ _, fun j e => ⟨Function.update_of_ne e _ _, rfl⟩,
        fun _ hv => ?_⟩
      show (Function.update t.keys i b i = false ∧ t.values i = false) ↔ _
      rw [Function.update_self, hk, if_pos rfl, hf, hv]
      simp
    | none =>
      rw [hf] at h
      dsimp only at h
      cases hv : cv.descendsFromObject with
      | false =>
        simp only [hv, Bool.not_false, if_true] at h
        cases h
      | true =>
        simp only [hv, Bool.not_true, Bool.false_eq_true, if_false] at h
        cases hf' : fail (i, .value) with
        | none =>
          rw [hf'] at h
          cases h
        | some b =>
          rw [hf'] at h
          cases h
          refine ⟨PairTarget.giveUp_disabled _ _ _,
            fun j e => ⟨Function.update_of_ne e _ _, Function.update_of_ne e _ _⟩, fun _ _ => ?_⟩
          show (Function.update t.keys i true i = false ∧ _) ↔ _
          rw [Function.update_self, hk, if_pos rfl, hf]
          simp
  | false =>
    simp only [hk, Bool.not_false, if_true] at h
    cases hv : cv.descendsFromObject with
    | false =>
      simp only [hv, Bool.not_false, if_true] at h
      cases h
    | true =>
      simp only [hv, Bool.not_true, Bool.false_eq_true, if_false] at h
      cases hf : fail (i, .value) with
      | none =>
        rw [hf] at h
        cases h
      | some b =>
        rw [hf] at h
        cases h
        refine ⟨PairTarget.giveUp_disabled _ _ _, fun j e => ⟨rfl, Function.update_of_ne e _ _⟩,
          fun hkey _ => ?_⟩
        show (t.keys i = false ∧ Function.update t.values i b i = false) ↔ _
        rw [Function.update_self, hk, if_neg (by simp), hf, hkey]
        simp

/-- what a slot leaves when it has been copied -/
theorem copySlot_returns (hobj : (ck.descendsFromObject || cv.descendsFromObject) = true)
    (h : copySlot ck cv fail fromMe i t next = .ret t' next') :
    (∀ j, j ≠ i → t'.keys j = t.keys j ∧ t'.values j = t.values j) ∧
      (¬ fromMe.Used i → t'.keys = t.keys ∧ t'.values = t.values) ∧
      (fromMe.Used i → (t'.keys i = true ∨ t'.values i = true) ∧
        fail (i, if ck.descendsFromObject then .key else .value) = none) := by
  unfold copySlot at h
  dsimp only at h
  split_ifs at h with hu
  · cases h
    exact ⟨fun _ _ => ⟨rfl, rfl⟩, fun _ => ⟨rfl, rfl⟩, fun hu' => absurd hu hu'⟩
  · unfold copyKey copyValue at h
    cases hk : ck.descendsFromObject with
    | true =>
      simp only [hk, Bool.not_true, Bool.false_eq_true, if_false] at h
      cases hf : fail (i, .key) with
      | some b =>
        rw [hf] at h
        cases h
      | none =>
        rw [hf] at h
        dsimp only at h
        cases hv : cv.descendsFromObject with
        | false =>
          simp only [hv, Bool.not_false, if_true] at h
          cases h
          refine ⟨fun j e => ⟨Function.update_of_ne e _ _, rfl⟩, fun hn => absurd hu hn,
            fun _ => ⟨.inl (Function.update_self _ _ _), hf⟩⟩
        | true =>
          simp only [hv, Bool.not_true, Bool.false_eq_true, if_false] at h
          cases hf' : fail (i, .value) with
          | some b =>
            rw [hf'] at h
            cases h
          | none =>
            rw [hf'] at h
            cases h
            exact ⟨fun j e => ⟨Function.update_of_ne e _ _, Function.update_of_ne e _ _⟩,
              fun hn => absurd hu hn, fun _ => ⟨.inl (Function.update_self _ _ _), hf⟩⟩
    | false =>
      rw [hk, Bool.false_or] at hobj
      simp only [hk, hobj, Bool.not_false, Bool.not_true, Bool.false_eq_true, if_true, if_false] at h
      cases hf : fail (i, .value) with
      | some b =>
        rw [hf] at h
        cases h
      | none =>
        rw [hf] at h
        cases h
        exact ⟨fun j e => ⟨rfl, Function.update_of_ne e _ _⟩, fun hn => absurd hu hn,
          fun _ => ⟨.inr (Function.update_self _ _ _), hf⟩⟩

/-- the slots that are not in the list keep their objects -/
theorem copySlots_frame (hobj : (ck.descendsFromObject || cv.descendsFromObject) = true)
    (is : List Nat) : ∀ {t t' : PairTarget K V} {next : Nat},
    copySlots ck cv fail fromMe is t next = .notEnoughSpace t' →
    ∀ j, j ∉ is → t'.keys j = t.keys j ∧ t'.values j = t.values j := by
  induction is with
  | nil =>
    intro t t' next h
    cases h
  | cons i is ih =>
    intro t t' next h j hj
    have hne : j ≠ i := fun e => hj (e ▸ List.mem_cons_self)
    rw [copySlots] at h
    cases hslot : copySlot ck cv fail fromMe i t next with
    | notEnoughSpace t₁ =>
      rw [hslot] at h
      cases h
      exact (copySlot_throws hslot).2.other j hne
    | ret t₁ next₁ =>
      rw [hslot] at h
      obtain ⟨h1, h2⟩ := ih h j fun hm => hj (List.mem_cons_of_mem i hm)
      obtain ⟨h3, h4⟩ := (copySlot_returns hobj hslot).1 j hne
      exact ⟨h1.trans h3, h2.trans h4⟩

theorem copySlots_disabled (is : List Nat) : ∀ {t t' : PairTarget K V} {next : Nat},
    copySlots ck cv fail fromMe is t next = .notEnoughSpace t' → t'.isDestructorDisabled = true := by
  induction is with
  | nil =>
    intro t t' next h
    cases h
  | cons i is ih =>
    intro t t' next h
    rw [copySlots] at h
    cases hslot : copySlot ck cv fail fromMe i t next with
    | notEnoughSpace t₁ =>
      rw [hslot] at h
      cases h
      exact (copySlot_throws hslot).2.disabled
    | ret t₁ next₁ =>
      rw [hslot] at h
      exact ih h

/-- the objects that the loop leaves when it throws -/
theorem copySlots_throws (hobj : (ck.descendsFromObject || cv.descendsFromObject) = true)
    (is : List Nat) : ∀ {t t' : PairTarget K V} {next : Nat}, is.Nodup → (∀ o, ¬ t.Constructed o) →
    copySlots ck cv fail fromMe is t next = .notEnoughSpace t' →
    ((∀ o, ¬ t'.Constructed o) ↔ FirstObjectFails ck fail fromMe is) := by
  induction is with
  | nil =>
    intro t t' next _ _ h
    cases h
  | cons i is ih =>
    intro t t' next hnd hblank h
    obtain ⟨hni, hnd'⟩ := List.nodup_cons.mp hnd
    have hkey : ∀ j, t.keys j = false := fun j => Bool.eq_false_iff.mpr (hblank (j, .key))
    have hval : ∀ j, t.values j = false := fun j => Bool.eq_false_iff.mpr (hblank (j, .value))
    rw [copySlots] at h
    cases hslot : copySlot ck cv fail fromMe i t next with
    | notEnoughSpace t₁ =>
      rw [hslot] at h
      cases h
      obtain ⟨hu, hfail⟩ := copySlot_throws hslot
      have hfirst : FirstObjectFails ck fail fromMe (i :: is) ↔
          fail (i, if ck.descendsFromObject then .key else .value) = some false := by
        unfold FirstObjectFails
        rw [List.find?_cons_of_pos (by simpa using hu)]
        simp
      rw [hfirst, ← hfail.none (hkey i) (hval i)]
      constructor
      · intro hno
        exact ⟨Bool.eq_false_iff.mpr (hno (i, .key)), Bool.eq_false_iff.mpr (hno (i, .value))⟩
      · rintro ⟨h1, h2⟩ ⟨j, part⟩ hcon
        by_cases e : j = i
        · subst e
          cases part with
          | key => exact absurd (h1.symm.trans hcon) (by simp)
          | value => exact absurd (h2.symm.trans hcon) (by simp)
        · obtain ⟨h3, h4⟩ := hfail.other j e
          cases part with
          | key => exact absurd ((hkey j).symm.trans (h3.symm.trans hcon)) (by simp)
          | value => exact absurd ((hval j).symm.trans (h4.symm.trans hcon)) (by simp)
    | ret t₁ next₁ =>
      rw [hslot] at h
      obtain ⟨-, hunused, hused⟩ := copySlot_returns hobj hslot
      by_cases hu : fromMe.Used i
      · -- an object of slot `i` has been constructed, and stays
        obtain ⟨hcon, hnone⟩ := hused hu
        obtain ⟨h1, h2⟩ := copySlots_frame hobj is h i hni
        constructor
        · intro hno
          rcases hcon with hcon | hcon
          · exact absurd (h1.trans hcon) (hno (i, .key))
          · exact absurd (h2.trans hcon) (hno (i, .value))
        · rintro ⟨x, hx, hf⟩
          rw [List.find?_cons_of_pos (by simpa using hu)] at hx
          cases hx
          rw [hnone] at hf
          cases hf
      · obtain ⟨h1, h2⟩ := hunused hu
        have hblank₁ : ∀ o, ¬ t₁.Constructed o := by
          rintro ⟨j, part⟩ hcon
          cases part with
          | key =>
            refine hblank (j, .key) ?_
            rw [PairTarget.Constructed, ← h1]
            exact hcon
          | value =>
            refine hblank (j, .value) ?_
            rw [PairTarget.Constructed, ← h2]
            exact hcon
        refine (ih hnd' hblank₁ h).trans ?_
        unfold FirstObjectFails
        rw [List.find?_cons_of_neg (by simpa using hu)]

/-- **A copy that throws**: its destructor does nothing, so that nothing may have been constructed. -/
theorem pairCopy_destroys (hblank : ∀ o, ¬ t.Constructed o)
    (h : setUpAndCopyFrom ck cv fail fromMe t next = .notEnoughSpace t') :
    DestroysExactly (t'.destroyed ck.descendsFromObject cv.descendsFromObject fromMe.numSlots)
      t'.Constructed ↔ FirstObjectFails ck fail fromMe (List.range fromMe.numSlots) := by
  unfold setUpAndCopyFrom at h
  dsimp only at h
  split_ifs at h with hplain
  have hobj : (ck.descendsFromObject || cv.descendsFromObject) = true := by
    cases hk : ck.descendsFromObject with
    | true => rfl
    | false =>
      cases hv : cv.descendsFromObject with
      | true => rfl
      | false =>
        rw [hk, hv] at hplain
        exact absurd rfl hplain
  have hblank₀ : ∀ o, ¬ ((t.setDisableDestructor false).setDisableDestructor false).Constructed o := by
    rintro ⟨j, part⟩
    cases part with
    | key => exact hblank (j, .key)
    | value => exact hblank (j, .value)
  have hnone : t'.destroyed ck.descendsFromObject cv.descendsFromObject fromMe.numSlots = [] :=
    if_pos (copySlots_disabled _ h)
  rw [hnone, ← copySlots_throws hobj (List.range fromMe.numSlots) List.nodup_range hblank₀ h]
  constructor
  · rintro ⟨-, hiff⟩ o ho
    exact absurd ((hiff o).mpr ho) List.not_mem_nil
  · intro hno
    exact ⟨List.nodup_nil, fun o => ⟨fun ho => absurd ho List.not_mem_nil, fun ho => absurd ho (hno o)⟩⟩

end
end PairArray

namespace PDBMap
variable {K V : Type*} [BEq K] [Hashable K] [EquivBEq K] [LawfulHashable K] [Inhabited K]
  [Inhabited V]

/-- `m'` cannot be told from `m`, as long as values that are in the relation `R` cannot -/
structure CopyOf (R : V → V → Prop) (m' m : PDBMap K V) : Prop where
  count : ∀ k, m'.count k = m.count k
  lookup : ∀ fail k, m.count k ≠ 0 → ∃ slot, m.index fail k = .ret m slot ∧
    m'.index fail k = .ret m' slot ∧ R (m'.myArray.data slot).value (m.myArray.data slot).value
  size : m'.size = m.size
  maxSlots : m'.myArray.maxSlots = m.myArray.maxSlots
  numSlots : m'.myArray.numSlots = m.myArray.numSlots
  iterate : List.Forall₂ (fun x y => (x.1 == y.1) = true ∧ R x.2 y.2) m'.iterate m.iterate

/-- the chunks of the array, at `addr`, and of the keys and the values -/
def storage (ck : Constituent K) (cv : Constituent V) (addr : Nat) (m : PDBMap K V) : Set Nat :=
  {x | x = addr ∨ ∃ i < m.myArray.numSlots, m.myArray.Used i ∧
    (x ∈ ck.storage (m.myArray.data i).key ∨ x ∈ cv.storage (m.myArray.data i).value)}

variable {ck : Constituent K} {cv : Constituent V} {R : V → V → Prop} {start addr addr' next : Nat}
  {m : PDBMap K V} {t : PairTarget K V}

/-- the entries of the copy, slot by slot -/
theorem entry_copied {i : Nat} {P : K × V → K × V → Prop}
    (h : PairArray.SlotCopied ck cv R start m.myArray (t.data i) i) :
    Option.Rel P ((m.myArray.copied t).entry i) (m.myArray.entry i) ↔
      (m.myArray.Used i → P ((t.data i).key, (t.data i).value)
        ((m.myArray.data i).key, (m.myArray.data i).value)) := by
  have hiff : (m.myArray.copied t).Used i ↔ m.myArray.Used i := by
    rw [PairArray.Used, PairArray.Used]
    show (t.data i).hash ≠ UNUSED ↔ _
    rw [h.hash]
  by_cases hu : m.myArray.Used i
  · rw [PairArray.entry_of_used hu, PairArray.entry_of_used (hiff.mpr hu), Option.rel_some_some]
    exact ⟨fun hp _ => hp, fun hp => hp hu⟩
  · rw [PairArray.entry_eq_none.mpr hu, PairArray.entry_eq_none.mpr (mt hiff.mp hu)]
    exact ⟨fun _ hu' => absurd hu' hu, fun _ => .none⟩

theorem copyOf_copied (h2 : 2 ≤ m.myArray.numSlots)
    (h : ∀ i < m.myArray.numSlots, PairArray.SlotCopied ck cv R start m.myArray (t.data i) i)
    (hmove : ∀ i < m.myArray.numSlots, m.myArray.Used i → PairArray.Movable ck cv m.myArray i) :
    CopyOf R ⟨m.myArray.copied t⟩ m := by
  have hfind := PairArray.findSlot_copied h2 h fun i hi hu => (hmove i hi hu).1
  have hcount : ∀ k, (m.myArray.copied t).count k = m.myArray.count k := by
    intro k
    rw [PairArray.count, PairArray.count, hfind]
    cases hf : m.myArray.findSlot k with
    | none => rfl
    | some slot =>
      obtain ⟨hlt, -⟩ := PairArray.findSlot_lt h2 hf
      show (if (t.data slot).hash = UNUSED then 0 else 1) = _
      rw [(h slot hlt).hash]
  refine ⟨hcount, fun fail k hk => ?_, rfl, rfl, rfl, ?_⟩
  · cases hf : m.myArray.findSlot k with
    | none =>
      rw [PDBMap.count, PairArray.count, hf] at hk
      exact absurd rfl hk
    | some slot =>
      obtain ⟨hlt, -⟩ := PairArray.findSlot_lt h2 hf
      have hu : m.myArray.Used slot := by
        intro hu
        rw [PDBMap.count, PairArray.count, hf] at hk
        exact hk (if_pos hu)
      have hu' : ¬ (t.data slot).hash = UNUSED := by
        rw [(h slot hlt).hash]
        exact hu
      refine ⟨slot, ?_, ?_, (((h slot hlt).value hu).good (hmove slot hlt hu).2).1⟩
      · rw [index_of_not_doubles fun hd => hk hd.1, PairArray.index, hf]
        dsimp only
        rw [if_neg hu]
        rfl
      · have hd : ¬ (⟨m.myArray.copied t⟩ : PDBMap K V).Doubles k := by
          rintro ⟨hzero, -⟩
          exact hk ((hcount k).symm.trans hzero)
        rw [index_of_not_doubles hd, PairArray.index, hfind, hf]
        dsimp only
        rw [show ((m.myArray.copied t).data slot).hash = (t.data slot).hash from rfl, if_neg hu']
        rfl
  · rw [iterate_eq, iterate_eq]
    refine List.rel_filterMap (R := fun i j => i = j ∧ i < m.myArray.numSlots) ?_
      (List.forall₂_same.mpr fun i hi => ⟨rfl, List.mem_range.mp hi⟩)
    rintro i j ⟨rfl, hi⟩
    exact (entry_copied (h i hi)).mpr fun hu =>
      ⟨(((h i hi).key hu).good (hmove i hi hu).1).1, (((h i hi).value hu).good (hmove i hi hu).2).1⟩

/-- the condition on a map -/
def Movable (ck : Constituent K) (cv : Constituent V) (m : PDBMap K V) : Prop :=
  ∀ i < m.myArray.numSlots, m.myArray.Used i → PairArray.Movable ck cv m.myArray i

/-- what the iteration over the copy shows of the slots -/
theorem movable_of_copyOf
    (h : ∀ i < m.myArray.numSlots, PairArray.SlotCopied ck cv R start m.myArray (t.data i) i)
    (hcopy : CopyOf R ⟨m.myArray.copied t⟩ m) : m.Movable ck cv := by
  have hslots : ∀ i ∈ List.range m.myArray.numSlots, Option.Rel
      (fun x y => (x.1 == y.1) = true ∧ R x.2 y.2)
      ((m.myArray.copied t).entry i) (m.myArray.entry i) := by
    have hiter := hcopy.iterate
    rw [iterate_eq, iterate_eq] at hiter
    refine forall₂_filterMap (fun i hi => ?_) hiter
    exact (entry_copied (h i (List.mem_range.mp hi))).mpr fun _ => trivial
  intro i hi hu
  obtain ⟨hkey, hval⟩ := (entry_copied (h i hi)).mp (hslots i (List.mem_range.mpr hi)) hu
  exact ⟨not_not.mp fun hno => ((h i hi).key hu).bad hno hkey,
    not_not.mp fun hno => ((h i hi).value hu).bad hno hval⟩

/-- **A copy of a map** to the chunk `addr'` of the current block. -/
theorem deepCopy_same (hk : ck.Deep (fun x y => (x == y) = true) start) (hv : cv.Deep R start)
    (hm : m.Called) (hother : ∀ x ∈ m.storage ck cv addr, x < start) (ha : start ≤ addr')
    (hn : start ≤ next) (t : PairTarget K V) :
    ∃ t' next', PairArray.setUpAndCopyFrom ck cv (fun _ => none) m.myArray t next = .ret t' next' ∧
      (CopyOf R ⟨m.myArray.copied t'⟩ m ∧
        Disjoint ((⟨m.myArray.copied t'⟩ : PDBMap K V).storage ck cv addr')
          (m.storage ck cv addr) ↔ m.Movable ck cv) := by
  obtain ⟨t', next', hrun, -, hslots⟩ := PairArray.setUpAndCopyFrom_spec hk hv
    hn (fun i hi hu => ⟨fun x hx => hother x (.inr ⟨i, hi, hu, .inl hx⟩),
      fun x hx => hother x (.inr ⟨i, hi, hu, .inr hx⟩)⟩) t
  refine ⟨t', next', hrun, fun h => movable_of_copyOf hslots h.1, fun hmove =>
    ⟨copyOf_copied hm.counted.two_le hslots hmove, Set.disjoint_left.mpr fun x hx hx' => ?_⟩⟩
  have hlt := hother x hx'
  have hge : start ≤ x := by
    obtain rfl | ⟨i, hi, hu, hx⟩ := hx
    · exact ha
    · have hi' : i < m.myArray.numSlots := hi
      have hu' : m.myArray.Used i := by
        rw [PairArray.Used, ← (hslots i hi').hash]
        exact hu
      rcases hx with hx | hx
      · exact (((hslots i hi').key hu').good (hmove i hi' hu').1).2 x hx
      · exact (((hslots i hi').value hu').good (hmove i hi' hu').2).2 x hx
  omega

end PDBMap
end Netsdb
