import Mathlib.Order.Interval.Finset.Nat
import Netsdb.Lib.Reach

/-!
# The circular buffer of pages (`PageCircularBuffer.cc`)

`addPageToTail` advances the tail and then writes the slot, under `addPageMutex`; `popPageFromHead`
holds another mutex, so that a pop can come between the two.

* `Traffic`            a buffer, with what was added and what was popped so far;
* `step`               one step of a producer or of a consumer;
* `Delivered`          what was popped is what was added, in order, and nothing is overwritten;
* `delivered_of_reach` this in every run in which no pop takes the slot that is being written.
-/

set_option linter.unusedSectionVars false

namespace Netsdb
open Machine
variable {Page : Type*}

structure PageCircularBuffer (Page : Type*) where
  maxArraySize : Nat
  pageArrayHead : Nat
  pageArrayTail : Nat
  pageArray : Nat → Option Page
  /-- the page of the producer that has advanced the tail and holds `addPageMutex` -/
  adding : Option Page

namespace PageCircularBuffer

/-- `bufferSize + 1`, an `unsigned int` -/
def create (bufferSize : Nat) : PageCircularBuffer Page :=
  ⟨(bufferSize + 1) % 2^32, 0, 0, fun _ => none, none⟩

def isFull (b : PageCircularBuffer Page) : Prop :=
  b.pageArrayHead = (b.pageArrayTail + 1) % b.maxArraySize

def isEmpty (b : PageCircularBuffer Page) : Prop := b.pageArrayHead = b.pageArrayTail

instance (b : PageCircularBuffer Page) : Decidable b.isFull :=
  inferInstanceAs (Decidable (b.pageArrayHead = (b.pageArrayTail + 1) % b.maxArraySize))

instance (b : PageCircularBuffer Page) : Decidable b.isEmpty :=
  inferInstanceAs (Decidable (b.pageArrayHead = b.pageArrayTail))

/-- the first half of `addPageToTail`; `none`: the mutex is held, or the producer spins -/
def advance (b : PageCircularBuffer Page) (page : Page) : Option (PageCircularBuffer Page) :=
  if b.adding.isSome ∨ b.isFull then none
  else some { b with
    pageArrayTail := (b.pageArrayTail + 1) % b.maxArraySize
    adding := some page }

/-- the second half, up to the unlock -/
def write (b : PageCircularBuffer Page) : Option (PageCircularBuffer Page) :=
  b.adding.map fun page => { b with
    pageArray := Function.update b.pageArray b.pageArrayTail (some page)
    adding := none }

/-- `popPageFromHead`, when the buffer is not empty -/
def pop (b : PageCircularBuffer Page) : PageCircularBuffer Page × Option Page :=
  let head := (b.pageArrayHead + 1) % b.maxArraySize
  ({ b with
    pageArrayHead := head
    pageArray := Function.update b.pageArray head none }, b.pageArray head)

end PageCircularBuffer

/-- `popped`: the results of the pops that advanced the head -/
structure Traffic (Page : Type*) where
  buffer : PageCircularBuffer Page
  added : List Page
  popped : List (Option Page)

inductive BufferStep (Page : Type*)
  | advance (page : Page)
  | write
  | pop

namespace Traffic

def start (bufferSize : Nat) : Traffic Page := ⟨.create bufferSize, [], []⟩

/-- a pop from an empty buffer waits, or returns `nullptr` when it is woken or the buffer is closed;
`none`: not possible here, a remainder by zero included -/
def step (r : Traffic Page) : BufferStep Page → Option (Traffic Page)
  | .advance page =>
    if r.buffer.maxArraySize = 0 then none
    else (r.buffer.advance page).map fun b => { r with buffer := b, added := r.added ++ [page] }
  | .write => r.buffer.write.map fun b => { r with buffer := b }
  | .pop =>
    if r.buffer.isEmpty then some r
    else if r.buffer.maxArraySize = 0 then none
    else some { r with buffer := r.buffer.pop.1, popped := r.popped ++ [r.buffer.pop.2] }

/-- the slot that the next pop takes is the one that a producer has still to write -/
def Unwritten (r : Traffic Page) : Prop :=
  r.buffer.adding.isSome ∧
    (r.buffer.pageArrayHead + 1) % r.buffer.maxArraySize = r.buffer.pageArrayTail

/-- the condition on a step: a pop does not take an unwritten slot -/
def Fine (r : Traffic Page) : BufferStep Page → Prop
  | .pop => ¬ r.Unwritten
  | _ => True

instance (r : Traffic Page) (a : BufferStep Page) : Decidable (r.Fine a) :=
  match a with
  | .pop => inferInstanceAs (Decidable (¬ (_ ∧ _)))
  | .advance _ => isTrue trivial
  | .write => isTrue trivial

structure Delivered (r : Traffic Page) : Prop where
  /-- no null, no stale page, in the order in which the slots were reserved -/
  inOrder : r.popped = (r.added.take r.popped.length).map some
  popped_le : r.popped.length ≤ r.added.length
  /-- what was written and not popped is in its slot -/
  kept : ∀ j page, r.popped.length ≤ j → r.added[j]? = some page →
    (r.buffer.adding = none ∨ j + 1 < r.added.length) →
      r.buffer.pageArray ((j + 1) % r.buffer.maxArraySize) = some page
  /-- a buffer is found empty only when everything was popped -/
  empty : r.buffer.isEmpty → r.popped = r.added.map some
  /-- the pages that are left can be popped, each of them once -/
  drains : ∃ (ops : List (BufferStep Page)) (t : Traffic Page),
    run step r ops = some t ∧ t.added = r.added ∧ t.popped = t.added.map some

/-! ## The invariant -/

structure Inv (r : Traffic Page) : Prop where
  head : r.buffer.pageArrayHead = r.popped.length % r.buffer.maxArraySize
  tail : r.buffer.pageArrayTail = r.added.length % r.buffer.maxArraySize
  popped_le : r.popped.length ≤ r.added.length
  room : r.added.length ≤ r.popped.length + (r.buffer.maxArraySize - 1)
  inOrder : r.popped = (r.added.take r.popped.length).map some
  kept : ∀ j page, r.popped.length ≤ j → r.added[j]? = some page →
    (r.buffer.adding = none ∨ j + 1 < r.added.length) →
      r.buffer.pageArray ((j + 1) % r.buffer.maxArraySize) = some page
  adding : ∀ page, r.buffer.adding = some page →
    r.popped.length < r.added.length ∧ r.added[r.added.length - 1]? = some page

variable {r t : Traffic Page}

theorem start_inv (bufferSize : Nat) : Inv (start bufferSize : Traffic Page) := by
  refine ⟨(Nat.zero_mod _).symm, (Nat.zero_mod _).symm, Nat.le_refl _, Nat.zero_le _, rfl,
    fun j page _ h => ?_, fun page h => ?_⟩
  · cases h
  · cases h

/-- fewer than `m` positions apart, two positions have different slots -/
theorem slot_ne {a b m : Nat} (hab : a < b) (hb : b < a + m) : a % m ≠ b % m := by
  intro h
  have ha : a ∈ Finset.Ico a (a + m) := Finset.mem_Ico.mpr ⟨Nat.le_refl _, by omega⟩
  have hb' : b ∈ Finset.Ico a (a + m) := Finset.mem_Ico.mpr ⟨by omega, hb⟩
  have := Nat.mod_injOn_Ico a m ha hb' h
  omega

theorem Inv.not_full (h : Inv r) (hm : r.buffer.maxArraySize ≠ 0) (hfull : ¬ r.buffer.isFull) :
    r.added.length + 1 ≤ r.popped.length + (r.buffer.maxArraySize - 1) := by
  have hroom := h.room
  by_contra hlt
  apply hfull
  have e : r.added.length + 1 = r.popped.length + r.buffer.maxArraySize := by omega
  show r.buffer.pageArrayHead = (r.buffer.pageArrayTail + 1) % r.buffer.maxArraySize
  rw [h.head, h.tail, Nat.mod_add_mod, e, Nat.add_mod_right]

theorem Inv.advance (h : Inv r) (page : Page) {b : PageCircularBuffer Page}
    (hm : r.buffer.maxArraySize ≠ 0) (hb : r.buffer.advance page = some b) :
    Inv { r with buffer := b, added := r.added ++ [page] } := by
  unfold PageCircularBuffer.advance at hb
  split at hb
  · cases hb
  next hno =>
  obtain rfl := Option.some.inj hb
  have hfree : r.buffer.adding = none := by
    cases ha : r.buffer.adding with
    | none => rfl
    | some p => exact absurd (.inl (by rw [ha]; rfl)) hno
  have hroom := h.not_full hm fun hfull => hno (.inr hfull)
  have hle := h.popped_le
  refine ⟨h.head, ?_, ?_, ?_, ?_, fun j p hj hp hdone => ?_, fun p hp => ?_⟩
  · show (r.buffer.pageArrayTail + 1) % r.buffer.maxArraySize = _
    rw [h.tail, Nat.mod_add_mod, List.length_append]
    rfl
  · show r.popped.length ≤ (r.added ++ [page]).length
    rw [List.length_append]
    omega
  · show (r.added ++ [page]).length ≤ _
    rw [List.length_append]
    exact hroom
  · show r.popped = ((r.added ++ [page]).take r.popped.length).map some
    rw [List.take_append_of_le_length hle]
    exact h.inOrder
  · obtain hdone | hdone := hdone
    · cases hdone
    · have hlt : j < r.added.length := by
        have hdone : j + 1 < (r.added ++ [page]).length := hdone
        rw [List.length_append, List.length_singleton] at hdone
        omega
      refine h.kept j p hj ?_ (.inl hfree)
      rw [← hp, List.getElem?_append_left hlt]
  · obtain rfl := Option.some.inj hp
    show r.popped.length < (r.added ++ [page]).length ∧
      (r.added ++ [page])[(r.added ++ [page]).length - 1]? = some page
    rw [List.length_append]
    exact ⟨by simp; omega, by simp⟩

theorem Inv.write (h : Inv r) {b : PageCircularBuffer Page} (hb : r.buffer.write = some b) :
    Inv { r with buffer := b } := by
  unfold PageCircularBuffer.write at hb
  obtain ⟨page, hpage, rfl⟩ := Option.map_eq_some_iff.mp hb
  obtain ⟨hlt, hlast⟩ := h.adding page hpage
  have hroom := h.room
  refine ⟨h.head, h.tail, h.popped_le, h.room, h.inOrder, fun j p hj hp _ => ?_, fun p hp => ?_⟩
  · show Function.update r.buffer.pageArray r.buffer.pageArrayTail (some page)
      ((j + 1) % r.buffer.maxArraySize) = some p
    have hj : r.popped.length ≤ j := hj
    have hjlt : j < r.added.length := (List.getElem?_eq_some_iff.mp hp).1
    by_cases hj' : j + 1 = r.added.length
    · rw [hj', ← h.tail, Function.update_self, ← hlast]
      rw [show r.added.length - 1 = j by omega]
      exact hp
    · have hne : (j + 1) % r.buffer.maxArraySize ≠ r.added.length % r.buffer.maxArraySize :=
        slot_ne (by omega) (by omega)
      rw [h.tail, Function.update_of_ne hne]
      exact h.kept j p hj hp (.inr (by omega))
  · cases hp

theorem Inv.pop (h : Inv r) (hne : ¬ r.buffer.isEmpty) (hfine : ¬ r.Unwritten) :
    Inv { r with buffer := r.buffer.pop.1, popped := r.popped ++ [r.buffer.pop.2] } := by
  have hroom := h.room
  have hle := h.popped_le
  have hlt : r.popped.length < r.added.length := by
    by_contra hge
    apply hne
    show r.buffer.pageArrayHead = r.buffer.pageArrayTail
    rw [h.head, h.tail, show r.added.length = r.popped.length by omega]
  have hhead : (r.buffer.pageArrayHead + 1) % r.buffer.maxArraySize =
      (r.popped.length + 1) % r.buffer.maxArraySize := by
    rw [h.head, Nat.mod_add_mod]
  -- the head is behind the slot that is being written
  have hdone : r.buffer.adding = none ∨ r.popped.length + 1 < r.added.length := by
    cases ha : r.buffer.adding with
    | none => exact .inl rfl
    | some p =>
      refine .inr (Nat.lt_of_le_of_ne hlt fun e => hfine ⟨by rw [ha]; rfl, ?_⟩)
      rw [hhead, h.tail, show r.popped.length + 1 = r.added.length from e]
  have hnext : r.added[r.popped.length]? = some r.added[r.popped.length] :=
    List.getElem?_eq_getElem hlt
  have hpop : r.buffer.pop.2 = some r.added[r.popped.length] := by
    show r.buffer.pageArray ((r.buffer.pageArrayHead + 1) % r.buffer.maxArraySize) = _
    rw [hhead]
    exact h.kept _ _ (Nat.le_refl _) hnext hdone
  have hlen : (r.popped ++ [r.buffer.pop.2]).length = r.popped.length + 1 := by
    rw [List.length_append, List.length_singleton]
  refine ⟨?_, h.tail, ?_, ?_, ?_, fun j p hj hp hj' => ?_, fun p hp => ⟨?_, (h.adding p hp).2⟩⟩
  · show (r.buffer.pageArrayHead + 1) % r.buffer.maxArraySize =
      (r.popped ++ [r.buffer.pop.2]).length % r.buffer.maxArraySize
    rw [hlen, hhead]
  · show (r.popped ++ [r.buffer.pop.2]).length ≤ r.added.length
    omega
  · show r.added.length ≤ (r.popped ++ [r.buffer.pop.2]).length + (r.buffer.maxArraySize - 1)
    omega
  · show r.popped ++ [r.buffer.pop.2] =
      (r.added.take (r.popped ++ [r.buffer.pop.2]).length).map some
    rw [hlen, List.take_add_one, hnext, List.map_append, ← h.inOrder, hpop]
    rfl
  · have hj : (r.popped ++ [r.buffer.pop.2]).length ≤ j := hj
    have hjlt : j < r.added.length := (List.getElem?_eq_some_iff.mp hp).1
    show Function.update r.buffer.pageArray ((r.buffer.pageArrayHead + 1) % r.buffer.maxArraySize)
      none ((j + 1) % r.buffer.maxArraySize) = some p
    have hslot : (j + 1) % r.buffer.maxArraySize ≠
        (r.popped.length + 1) % r.buffer.maxArraySize :=
      (slot_ne (by omega) (by omega)).symm
    rw [hhead, Function.update_of_ne hslot]
    exact h.kept j p (by omega) hp hj'
  · show (r.popped ++ [r.buffer.pop.2]).length < r.added.length
    obtain hnone | hlt' := hdone
    · have hp : r.buffer.adding = some p := hp
      rw [hnone] at hp
      cases hp
    · omega

theorem step_inv (h : Inv r) {a : BufferStep Page} (hfine : r.Fine a) (ht : r.step a = some t) :
    Inv t := by
  cases a with
  | advance page =>
    unfold step at ht
    dsimp only at ht
    split at ht
    · cases ht
    next hm =>
    obtain ⟨b, hb, rfl⟩ := Option.map_eq_some_iff.mp ht
    exact h.advance page hm hb
  | write =>
    obtain ⟨b, hb, rfl⟩ := Option.map_eq_some_iff.mp ht
    exact h.write hb
  | pop =>
    unfold step at ht
    dsimp only at ht
    split at ht
    · obtain rfl := Option.some.inj ht
      exact h
    next hne =>
    split at ht
    · cases ht
    · obtain rfl := Option.some.inj ht
      exact h.pop hne hfine

/-! ## Runs -/

theorem Inv.isEmpty_iff (h : Inv r) : r.buffer.isEmpty ↔ r.popped.length = r.added.length := by
  have hle := h.popped_le
  have hroom := h.room
  constructor
  · intro hempty
    by_contra hne
    refine slot_ne (a := r.popped.length) (b := r.added.length) (m := r.buffer.maxArraySize)
      (by omega) (by omega) ?_
    rw [← h.head, ← h.tail]
    exact hempty
  · intro e
    show r.buffer.pageArrayHead = r.buffer.pageArrayTail
    rw [h.head, h.tail, e]

theorem Inv.all_popped (h : Inv r) (e : r.popped.length = r.added.length) :
    r.popped = r.added.map some := by
  have ho := h.inOrder
  rw [e, List.take_length] at ho
  exact ho

/-- as many pops as there are pages left -/
theorem Inv.pop_all (n : Nat) : ∀ {r : Traffic Page}, Inv r → r.buffer.adding = none →
    r.added.length = r.popped.length + n → ∃ t, run step r (List.replicate n .pop) = some t ∧
      t.added = r.added ∧ t.popped = t.added.map some := by
  induction n with
  | zero =>
    intro r h _ hn
    exact ⟨r, rfl, rfl, h.all_popped hn.symm⟩
  | succ n ih =>
    intro r h hnone hn
    have hroom := h.room
    have hne : ¬ r.buffer.isEmpty := by
      rw [h.isEmpty_iff]
      omega
    have hfine : ¬ r.Unwritten := by
      intro hu
      have := hu.1
      rw [hnone] at this
      cases this
    have hstep : r.step .pop =
        some { r with buffer := r.buffer.pop.1, popped := r.popped ++ [r.buffer.pop.2] } := by
      unfold step
      dsimp only
      rw [if_neg hne, if_neg (by omega)]
    have hleft : r.added.length = (r.popped ++ [r.buffer.pop.2]).length + n := by
      rw [List.length_append, List.length_singleton]
      omega
    obtain ⟨t, ht, hadded, hall⟩ := ih (h.pop hne hfine) hnone hleft
    refine ⟨t, ?_, hadded, hall⟩
    rw [List.replicate_succ, run_cons, hstep]
    exact ht

theorem Inv.drains (h : Inv r) : ∃ (ops : List (BufferStep Page)) (t : Traffic Page),
    run step r ops = some t ∧ t.added = r.added ∧ t.popped = t.added.map some := by
  have hle := h.popped_le
  cases ha : r.buffer.adding with
  | none =>
    obtain ⟨t, ht⟩ := h.pop_all (r.added.length - r.popped.length) ha (by omega)
    exact ⟨_, t, ht⟩
  | some page =>
    have hw : r.buffer.write = some { r.buffer with
        pageArray := Function.update r.buffer.pageArray r.buffer.pageArrayTail (some page)
        adding := none } := by
      unfold PageCircularBuffer.write
      rw [ha]
      rfl
    have hleft : r.added.length = r.popped.length + (r.added.length - r.popped.length) := by omega
    obtain ⟨t, ht, hall⟩ := (h.write hw).pop_all _ rfl hleft
    refine ⟨.write :: List.replicate (r.added.length - r.popped.length) .pop, t, ?_, hall⟩
    rw [run_cons]
    show (r.buffer.write.map fun b => { r with buffer := b }).bind _ = _
    rw [hw]
    exact ht

theorem Inv.delivered (h : Inv r) : r.Delivered :=
  ⟨h.inOrder, h.popped_le, h.kept, fun he => h.all_popped (h.isEmpty_iff.mp he), h.drains⟩

theorem delivered_of_reach (bufferSize : Nat) (r : Traffic Page)
    (h : Reach step Fine (start bufferSize) r) : r.Delivered :=
  (h.inv (start_inv bufferSize) fun _ _ _ hi hfine ht => step_inv hi hfine ht).delivered

/-- two pages, one after the other, in a buffer for one page -/
theorem delivered_two : ∃ r : Traffic Nat,
    run step (start 1) [.advance 3, .write, .pop, .advance 4, .write, .pop] = some r ∧
      r.popped = [some 3, some 4] ∧ r.Delivered :=
  ⟨_, rfl, rfl, delivered_of_reach 1 _
    (Reach.of_run [.advance 3, .write, .pop, .advance 4, .write, .pop] rfl)⟩

/-- a pop between the two halves of `addPageToTail` gets a null, and the page is lost -/
theorem delivered_not_always : ¬ ∀ (bufferSize : Nat) (r : Traffic Nat),
    Reach step (fun _ _ => True) (start bufferSize) r → r.Delivered := by
  intro hall
  have hrun : ∃ r : Traffic Nat,
      run (guarded step fun _ _ => True) (start 1) [.advance 3, .pop, .write] = some r ∧
        r.popped = [none] ∧ r.added = [3] := ⟨_, rfl, rfl, rfl⟩
  obtain ⟨r, hr, hpopped, hadded⟩ := hrun
  have ho := (hall 1 r (Reach.of_run _ hr)).inOrder
  rw [hpopped, hadded] at ho
  cases ho

end Traffic
end Netsdb
