import Mathlib.Data.List.Count
import Netsdb.ObjectModel.Block

/-!
# The life of allocation blocks

A session is the allocator together with what its callers hold: the states that
`temporarilyUseBlockForAllocations` has returned and that wait for `restoreAllocationBlock`, and
the live objects of the blocks the allocator knows.

* `Session.step`         the operations of the callers;
* `Session.Fine`         the steps that keep the books right;
* `Lifecycle`            each known block is active, suspended or inactive, and the blocks that
                         `malloc` gave out and `free` has not taken back are the ones the
                         allocator owns and that are active, suspended or not empty;
* `lifecycle_of_reach`   this over whole runs, with what `restoreAllocationBlock` gives back;
* `lifecycle_not_always` a block that is never freed.
-/

namespace Netsdb
open Machine

/-! ## sessions -/

/-- a call of `temporarilyUseBlockForAllocations` that has not been undone: its result, and of
the suspended block the reference count at that moment and the objects freed since -/
structure Suspended where
  saved : AllocatorState
  policy : AllocatorPolicy
  count : Nat
  freed : Nat

/-- a live object, with the start of the block it was allocated in -/
structure Obj where
  addr : Nat
  home : Nat
deriving DecidableEq, Repr

structure Session where
  alloc : Allocator
  /-- innermost first -/
  stack : List Suspended
  live : List Obj

inductive SessionOp
  | temporarilyUseBlockForAllocations (putMeHere numBytesAvailable : Nat)
  /-- the block comes from `malloc` -/
  | temporarilyUseNewBlockForAllocations (putMeHere numBytesAvailable : Nat)
  | restoreAllocationBlock
  /-- the caller got the block from `malloc` -/
  | setupBlock (place numBytesIn : Nat) (throwExceptionOnFail : Bool)
  | setupUserSuppliedBlock (place numBytesIn : Nat) (throwExceptionOnFail : Bool)
  | getRAM (howMuch : Nat)
  | freeRAM (o : Obj)
deriving DecidableEq, Repr

namespace InactiveAllocationBlock

def Apart (b c : InactiveAllocationBlock) : Prop := b.end_ ≤ c.start ∨ c.end_ ≤ b.start

instance (b c : InactiveAllocationBlock) : Decidable (b.Apart c) :=
  inferInstanceAs (Decidable (_ ∨ _))

theorem Apart.symm {b c : InactiveAllocationBlock} (h : b.Apart c) : c.Apart b := Or.symm h

end InactiveAllocationBlock

/-- the block a state is about -/
def AllocatorState.block (st : AllocatorState) : InactiveAllocationBlock :=
  ⟨st.activeRAM, st.activeRAM + st.numBytes⟩

/-- number of live objects of the block at `w` -/
def liveIn (live : List Obj) (w : Nat) : Nat := live.countP fun o => o.home = w

/-- one more object of the suspended block has been freed -/
def Suspended.noteFree (w : Nat) (e : Suspended) : Suspended :=
  if e.saved.activeRAM = w then { e with freed := e.freed + 1 } else e

namespace Session

/-- the state that a suspension hands to the caller -/
def suspend (s : Session) (st : AllocatorState) : Suspended :=
  ⟨st, s.alloc.policy, s.alloc.refCount s.alloc.myState.activeRAM, 0⟩

/-- a block the caller supplied is forgotten with its objects when it stops being active -/
def kept (s : Session) : List Obj :=
  if s.alloc.myState.curBlockUserSupplied then
    s.live.filter fun o => o.home ≠ s.alloc.myState.activeRAM
  else s.live

/-- new memory does not overlap the inactive and suspended blocks, nor the active one when it
stays known -/
def Fresh (s : Session) (keepsActive : Bool) (place numBytes : Nat) : Prop :=
  (keepsActive = true ∨ s.alloc.myState.curBlockUserSupplied = false →
    InactiveAllocationBlock.Apart ⟨place, place + numBytes⟩ s.alloc.myState.block) ∧
  ∀ b ∈ s.alloc.allInactives, InactiveAllocationBlock.Apart ⟨place, place + numBytes⟩ b

instance (s : Session) (k : Bool) (p n : Nat) : Decidable (s.Fresh k p n) :=
  inferInstanceAs (Decidable (_ ∧ _))

/-- remember the object that `getRAM` has returned -/
def afterGetRAM (s : Session) : RamResult × Allocator → Session
  | (.ret p, a) => ⟨a, s.stack, ⟨p, s.alloc.myState.activeRAM⟩ :: s.live⟩
  | (_, a) => { s with alloc := a }

/-- `none`: the callers do not do this, or the process exits -/
def step (s : Session) : SessionOp → Option Session
  | .temporarilyUseBlockForAllocations p n =>
    if s.Fresh true p n then
      (s.alloc.temporarilyUseBlockForAllocations p n).map fun r =>
        ⟨r.2, s.suspend r.1 :: s.stack, s.live⟩
    else none
  | .temporarilyUseNewBlockForAllocations p n =>
    if s.Fresh true p n then
      (s.alloc.temporarilyUseNewBlockForAllocations p n).map fun r =>
        ⟨r.2, s.suspend r.1 :: s.stack, s.live⟩
    else none
  | .restoreAllocationBlock =>
    match s.stack with
    | [] => none
    | e :: rest => some ⟨s.alloc.restoreAllocationBlock e.saved, rest, s.kept⟩
  | .setupBlock p n thr =>
    if s.Fresh false p n then
      ((s.alloc.malloc p).setupBlock p n thr).map fun a => ⟨a, s.stack, s.kept⟩
    else none
  | .setupUserSuppliedBlock p n thr =>
    if s.Fresh false p n then
      (s.alloc.setupUserSuppliedBlock p n thr).map fun a => ⟨a, s.stack, s.kept⟩
    else none
  | .getRAM howMuch => some (s.afterGetRAM (s.alloc.getRAM howMuch))
  | .freeRAM o =>
    if o ∈ s.live then
      some ⟨s.alloc.freeRAM o.addr, s.stack.map (Suspended.noteFree o.home), s.live.erase o⟩
    else none

/-- number of live objects in the active block -/
def liveHere (s : Session) : Nat := liveIn s.live s.alloc.myState.activeRAM

/-- the steps that keep the books right: `contains` tells the objects of the active block from
the others, the reference count of the active block has room for one more, and the request
does not wrap around to nothing -/
def Fine (s : Session) : SessionOp → Prop
  | .temporarilyUseBlockForAllocations _ _ => s.liveHere + 1 < 2^32
  | .temporarilyUseNewBlockForAllocations _ _ => s.liveHere + 1 < 2^32
  | .restoreAllocationBlock => True
  | .setupBlock _ _ _ => True
  | .setupUserSuppliedBlock _ _ _ => True
  | .getRAM howMuch => bytesNeeded howMuch ≠ 0 ∧ (s.liveHere + 1 < 2^32 ∨ s.alloc.Full howMuch)
  | .freeRAM o => s.alloc.contains o.addr = decide (o.home = s.alloc.myState.activeRAM)

instance (s : Session) (op : SessionOp) : Decidable (s.Fine op) :=
  match op with
  | .temporarilyUseBlockForAllocations _ _ => inferInstanceAs (Decidable (_ < _))
  | .temporarilyUseNewBlockForAllocations _ _ => inferInstanceAs (Decidable (_ < _))
  | .restoreAllocationBlock => inferInstanceAs (Decidable True)
  | .setupBlock _ _ _ => inferInstanceAs (Decidable True)
  | .setupUserSuppliedBlock _ _ _ => inferInstanceAs (Decidable True)
  | .getRAM _ => inferInstanceAs (Decidable (_ ∧ _))
  | .freeRAM _ => inferInstanceAs (Decidable (_ = _))

/-- the blocks that wait for `restoreAllocationBlock` -/
def suspended (s : Session) : List InactiveAllocationBlock := s.stack.map fun e => e.saved.block

/-- the blocks the allocator remembers and nobody waits for -/
def inactive (s : Session) : List InactiveAllocationBlock :=
  s.alloc.allInactives.filter fun b => b ∉ s.suspended

end Session

/-- the books of the allocator are right -/
structure Lifecycle (s : Session) : Prop where
  /-- no block is in two states, and no two blocks overlap -/
  apart : (s.alloc.myState.block :: (s.suspended ++ s.inactive)).Pairwise
    InactiveAllocationBlock.Apart
  nodup : ((s.alloc.myState.block :: (s.suspended ++ s.inactive)).map
    InactiveAllocationBlock.start).Nodup
  /-- the list of inactive blocks holds the suspended blocks, too: their objects can be freed -/
  known : s.alloc.allInactives.Perm (s.suspended ++ s.inactive)
  /-- live objects are in known blocks -/
  home : ∀ o ∈ s.live, ∃ b ∈ s.alloc.myState.block :: (s.suspended ++ s.inactive),
    o.home = b.start ∧ b.start < o.addr ∧ o.addr ≤ b.end_
  /-- what is allocated: the owned blocks that are active, suspended or inactive, each once -/
  heap_nodup : s.alloc.heap.Nodup
  heap_iff : ∀ w, w ∈ s.alloc.heap ↔
    (w = s.alloc.myState.activeRAM ∧ s.alloc.myState.curBlockUserSupplied = false) ∨
    (∃ e ∈ s.stack, w = e.saved.activeRAM ∧ e.saved.curBlockUserSupplied = false) ∨
    (∃ b ∈ s.inactive, w = b.start)
  /-- an inactive block holds a live object -/
  inactive_live : ∀ b ∈ s.inactive, ∃ o ∈ s.live, o.home = b.start
  /-- `free` was never called on anything that was not allocated -/
  badFree : s.alloc.badFree = false
  /-- the reference counts -/
  count_active : s.alloc.refCount s.alloc.myState.activeRAM = s.liveHere
  count_inactive : ∀ b ∈ s.inactive, s.alloc.refCount b.start = liveIn s.live b.start
  count_suspended : ∀ e ∈ s.stack,
    s.alloc.refCount e.saved.activeRAM = liveIn s.live e.saved.activeRAM + 1

/-! ## counting live objects -/

section
variable {live : List Obj} {o : Obj} {w : Nat}

theorem liveIn_cons (o : Obj) (live : List Obj) (w : Nat) :
    liveIn (o :: live) w = liveIn live w + if o.home = w then 1 else 0 := by
  simp [liveIn, List.countP_cons]

theorem liveIn_erase (ho : o ∈ live) (w : Nat) :
    liveIn live w = liveIn (live.erase o) w + if o.home = w then 1 else 0 := by
  rw [← liveIn_cons]
  exact (List.perm_cons_erase ho).countP_eq _

theorem liveIn_pos : 0 < liveIn live w ↔ ∃ o ∈ live, o.home = w := by
  simp [liveIn, List.countP_pos_iff]

theorem liveIn_filter_ne {v : Nat} (h : w ≠ v) :
    liveIn (live.filter fun o => o.home ≠ v) w = liveIn live w := by
  unfold liveIn
  rw [List.countP_filter]
  refine List.countP_congr fun o _ => ?_
  by_cases e : o.home = w
  · simp [e, h]
  · simp [e]

end

/-! ## the blocks in and out of use

`Blocks act a stack live`: what the allocator's records say while the blocks in `act` (one, or
none in the middle of an operation) are active. -/

structure Active where
  block : InactiveAllocationBlock
  userSupplied : Bool

/-- the free chunks that a state remembers lie in its block -/
def AllocatorState.ChunksIn (st : AllocatorState) : Prop :=
  ∀ i, ∀ c ∈ st.chunks i, st.activeRAM < c ∧ c + chunkHeaderSize ≤ st.activeRAM + st.numBytes

/-- blocks whose states wait for `restoreAllocationBlock` -/
def starts (stack : List Suspended) : List Nat := stack.map fun e => e.saved.activeRAM

def knownBlocks (act : List Active) (a : Allocator) : List InactiveAllocationBlock :=
  act.map Active.block ++ a.allInactives

structure Blocks (act : List Active) (a : Allocator) (stack : List Suspended) (live : List Obj) :
    Prop where
  sorted : a.allInactives.Pairwise fun b c => b.end_ ≤ c.end_
  apart : (knownBlocks act a).Pairwise InactiveAllocationBlock.Apart
  size : ∀ b ∈ knownBlocks act a, b.start ≠ 0 ∧ b.start + headerSize ≤ b.end_
  parked : ∀ e ∈ stack, e.saved.block ∈ a.allInactives
  distinct : (starts stack).Nodup
  home : ∀ o ∈ live, ∃ b ∈ knownBlocks act a,
    o.home = b.start ∧ b.start + chunkHeaderSize < o.addr ∧ o.addr ≤ b.end_
  counts : ∀ b ∈ knownBlocks act a,
    a.refCount b.start = liveIn live b.start + (if b.start ∈ starts stack then 1 else 0) ∧
    liveIn live b.start + (if b.start ∈ starts stack then 1 else 0) < 2^32
  freed : ∀ e ∈ stack, liveIn live e.saved.activeRAM + e.freed = e.count
  used : ∀ b ∈ a.allInactives, b.start ∉ starts stack → 0 < liveIn live b.start
  lastUsed : ∀ b ∈ knownBlocks act a, headerSize ≤ a.lastUsed b.start
  chunks : ∀ e ∈ stack, e.saved.ChunksIn
  heap_nodup : a.heap.Nodup
  heap_iff : ∀ w, w ∈ a.heap ↔ (∃ x ∈ act, x.block.start = w ∧ x.userSupplied = false) ∨
    ∃ b ∈ a.allInactives, b.start = w ∧
      ∀ e ∈ stack, e.saved.activeRAM = w → e.saved.curBlockUserSupplied = false
  badFree : a.badFree = false

namespace Blocks
variable {act : List Active} {a a' : Allocator} {stack : List Suspended} {live : List Obj}

/-- only the records matter -/
theorem congr (h : Blocks act a stack live) (h1 : a'.allInactives = a.allInactives)
    (h2 : a'.refCount = a.refCount) (h3 : a'.lastUsed = a.lastUsed) (h4 : a'.heap = a.heap)
    (h5 : a'.badFree = a.badFree) : Blocks act a' stack live := by
  have hk : knownBlocks act a' = knownBlocks act a := by
    unfold knownBlocks
    rw [h1]
  refine ⟨?_, ?_, ?_, ?_, h.distinct, ?_, ?_, h.freed, ?_, ?_, h.chunks, ?_, ?_, ?_⟩
  · rw [h1]; exact h.sorted
  · rw [hk]; exact h.apart
  · rw [hk]; exact h.size
  · rw [h1]; exact h.parked
  · rw [hk]; exact h.home
  · rw [hk, h2]; exact h.counts
  · rw [h1]; exact h.used
  · rw [hk, h3]; exact h.lastUsed
  · rw [h4]; exact h.heap_nodup
  · rw [h4, h1]; exact h.heap_iff
  · rw [h5]; exact h.badFree

theorem apart_of_ne (h : Blocks act a stack live) {b c : InactiveAllocationBlock}
    (hb : b ∈ knownBlocks act a) (hc : c ∈ knownBlocks act a) (hne : b ≠ c) : b.Apart c := by
  have hsym : Std.Symm InactiveAllocationBlock.Apart :=
    ⟨fun _ _ => InactiveAllocationBlock.Apart.symm⟩
  exact h.apart.forall hb hc hne

/-- a known block is determined by any address in it -/
theorem eq_of_start (h : Blocks act a stack live) {b c : InactiveAllocationBlock}
    (hb : b ∈ knownBlocks act a) (hc : c ∈ knownBlocks act a) (e : b.start = c.start) : b = c := by
  by_contra hne
  have hd := h.apart_of_ne hb hc hne
  have h1 := (h.size b hb).2
  have h2 := (h.size c hc).2
  unfold InactiveAllocationBlock.Apart headerSize at *
  omega

theorem mem_known_of_inactive {b : InactiveAllocationBlock} (hb : b ∈ a.allInactives) :
    b ∈ knownBlocks act a :=
  List.mem_append_right _ hb

/-- the active block starts elsewhere than the inactive ones -/
theorem active_ne (h : Blocks act a stack live) {x : Active} {b : InactiveAllocationBlock}
    (hx : x ∈ act) (hb : b ∈ a.allInactives) : x.block.start ≠ b.start := by
  intro e
  have hap := (List.pairwise_append.mp h.apart).2.2 x.block (List.mem_map_of_mem hx) b hb
  have h1 := (h.size _ (List.mem_append_left _ (List.mem_map_of_mem hx))).2
  have h2 := (h.size b (mem_known_of_inactive hb)).2
  unfold InactiveAllocationBlock.Apart headerSize at *
  omega

theorem active_not_suspended (h : Blocks act a stack live) {x : Active} (hx : x ∈ act) :
    x.block.start ∉ starts stack := by
  intro hm
  obtain ⟨e, he, heq⟩ := List.mem_map.mp hm
  exact h.active_ne hx (h.parked e he) heq.symm

theorem addInactive_perm (l : List InactiveAllocationBlock) (p n : Nat) :
    (addInactive l p n).Perm (⟨p, p + n⟩ :: l) :=
  (List.perm_insertionSort _ _).trans (List.perm_append_singleton _ _)

theorem addInactive_sorted (l : List InactiveAllocationBlock) (p n : Nat) :
    (addInactive l p n).Pairwise fun b c => b.end_ ≤ c.end_ := by
  have htotal : Std.Total InactiveAllocationBlock.EndLE :=
    ⟨fun b c => Nat.le_total b.end_ c.end_⟩
  have htrans : IsTrans InactiveAllocationBlock InactiveAllocationBlock.EndLE :=
    ⟨fun _ _ _ => Nat.le_trans⟩
  exact List.pairwise_insertionSort _ _

/-- the active block goes to the inactive ones: the order of the known blocks changes -/
theorem known_park {x : Active} (hi : a'.allInactives.Perm (x.block :: a.allInactives)) :
    (knownBlocks [x] a).Perm (knownBlocks [] a') :=
  hi.symm

/-- an owned block that still has objects becomes inactive -/
theorem retire {b : InactiveAllocationBlock} (h : Blocks [⟨b, false⟩] a stack live)
    (hused : 0 < liveIn live b.start) (hi : a'.allInactives.Perm (b :: a.allInactives))
    (hs : a'.allInactives.Pairwise fun b c => b.end_ ≤ c.end_) (hr : a'.refCount = a.refCount)
    (hl : a'.lastUsed = a.lastUsed) (hh : a'.heap = a.heap) (hb : a'.badFree = a.badFree) :
    Blocks [] a' stack live := by
  have hk : (knownBlocks [⟨b, false⟩] a).Perm (knownBlocks [] a') := known_park hi
  refine ⟨hs, (hk.pairwise_iff InactiveAllocationBlock.Apart.symm).mp h.apart, ?_, ?_,
    h.distinct, ?_, ?_, h.freed, ?_, ?_, h.chunks, ?_, ?_, ?_⟩
  · exact fun c hc => h.size c (hk.mem_iff.mpr hc)
  · exact fun e he => hi.mem_iff.mpr (List.mem_cons_of_mem _ (h.parked e he))
  · intro o ho
    obtain ⟨c, hc, hin⟩ := h.home o ho
    exact ⟨c, hk.mem_iff.mp hc, hin⟩
  · rw [hr]
    exact fun c hc => h.counts c (hk.mem_iff.mpr hc)
  · intro c hc hns
    rcases List.mem_cons.mp (hi.mem_iff.mp hc) with rfl | hc
    · exact hused
    · exact h.used c hc hns
  · rw [hl]
    exact fun c hc => h.lastUsed c (hk.mem_iff.mpr hc)
  · rw [hh]
    exact h.heap_nodup
  · intro w
    rw [hh, h.heap_iff w]
    constructor
    · rintro (⟨x, hx, rfl, -⟩ | ⟨c, hc, hw, hown⟩)
      · rw [List.mem_singleton.mp hx]
        refine Or.inr ⟨b, hi.mem_iff.mpr List.mem_cons_self, rfl, fun e he heq => ?_⟩
        exact absurd heq.symm (h.active_ne List.mem_cons_self (h.parked e he))
      · exact Or.inr ⟨c, hi.mem_iff.mpr (List.mem_cons_of_mem _ hc), hw, hown⟩
    · rintro (⟨x, hx, -⟩ | ⟨c, hc, hw, hown⟩)
      · cases hx
      · rcases List.mem_cons.mp (hi.mem_iff.mp hc) with rfl | hc
        · exact Or.inl ⟨_, List.mem_cons_self, hw, rfl⟩
        · exact Or.inr ⟨c, hc, hw, hown⟩
  · rw [hb]
    exact h.badFree

/-- an owned block without objects is freed -/
theorem discard {b : InactiveAllocationBlock} (h : Blocks (⟨b, false⟩ :: act) a stack live)
    (hempty : liveIn live b.start = 0) : Blocks act (a.free b.start) stack live := by
  have hheap : b.start ∈ a.heap := (h.heap_iff _).mpr (Or.inl ⟨_, List.mem_cons_self, rfl, rfl⟩)
  have hfree : a.free b.start = { a with heap := a.heap.erase b.start } :=
    if_pos hheap
  rw [hfree]
  have hsub : ∀ c ∈ knownBlocks act a, c ∈ knownBlocks (⟨b, false⟩ :: act) a :=
    fun c hc => List.mem_cons_of_mem _ hc
  have hne : ∀ c ∈ knownBlocks act a, b.start ≠ c.start := by
    intro c hc e
    have h1 : b.Apart c := (List.pairwise_cons.mp h.apart).1 c hc
    have h2 : b.start + headerSize ≤ b.end_ := (h.size b List.mem_cons_self).2
    have h3 := (h.size c (hsub c hc)).2
    unfold InactiveAllocationBlock.Apart headerSize at *
    omega
  refine ⟨h.sorted, (List.pairwise_cons.mp h.apart).2, fun c hc => h.size c (hsub c hc), h.parked,
    h.distinct, ?_, fun c hc => h.counts c (hsub c hc), h.freed, h.used,
    fun c hc => h.lastUsed c (hsub c hc), h.chunks, h.heap_nodup.erase _, ?_, h.badFree⟩
  · intro o ho
    obtain ⟨c, hc, hin⟩ := h.home o ho
    rcases List.mem_cons.mp hc with rfl | hc
    · have := liveIn_pos.mpr ⟨o, ho, hin.1⟩
      exact absurd hempty (by show ¬ liveIn live c.start = 0; omega)
    · exact ⟨c, hc, hin⟩
  · intro w
    rw [h.heap_nodup.mem_erase_iff, h.heap_iff w]
    constructor
    · rintro ⟨hw, ⟨x, hx, hxw, hu⟩ | hr⟩
      · rcases List.mem_cons.mp hx with rfl | hx
        · exact absurd hxw.symm hw
        · exact Or.inl ⟨x, hx, hxw, hu⟩
      · exact Or.inr hr
    · rintro (⟨x, hx, hxw, hu⟩ | ⟨c, hc, hcw, hown⟩)
      · have := hne x.block (List.mem_append_left _ (List.mem_map_of_mem hx))
        exact ⟨hxw ▸ this.symm, Or.inl ⟨x, List.mem_cons_of_mem _ hx, hxw, hu⟩⟩
      · have := hne c (mem_known_of_inactive hc)
        exact ⟨hcw ▸ this.symm, Or.inr ⟨c, hc, hcw, hown⟩⟩

/-- a block the caller supplied is forgotten, with its objects -/
theorem forget {b : InactiveAllocationBlock} (h : Blocks [⟨b, true⟩] a stack live) :
    Blocks [] a stack (live.filter fun o => o.home ≠ b.start) := by
  have hsub : ∀ c ∈ a.allInactives, c ∈ knownBlocks [⟨b, true⟩] a :=
    fun c hc => mem_known_of_inactive hc
  have hlive : ∀ c ∈ a.allInactives,
      liveIn (live.filter fun o => o.home ≠ b.start) c.start = liveIn live c.start :=
    fun c hc => liveIn_filter_ne (h.active_ne List.mem_cons_self hc).symm
  refine ⟨h.sorted, (List.pairwise_cons.mp h.apart).2, fun c hc => h.size c (hsub c hc), h.parked,
    h.distinct, ?_, ?_, ?_, ?_, fun c hc => h.lastUsed c (hsub c hc), h.chunks, h.heap_nodup, ?_,
    h.badFree⟩
  · intro o ho
    obtain ⟨ho, hne⟩ := List.mem_filter.mp ho
    obtain ⟨c, hc, hin⟩ := h.home o ho
    rcases List.mem_cons.mp hc with rfl | hc
    · exact absurd hin.1 (by simpa using hne)
    · exact ⟨c, hc, hin⟩
  · intro c hc
    rw [hlive c hc]
    exact h.counts c (hsub c hc)
  · intro e he
    have := hlive _ (h.parked e he)
    rw [show liveIn (live.filter _) e.saved.activeRAM = liveIn live e.saved.activeRAM from this]
    exact h.freed e he
  · intro c hc hns
    rw [hlive c hc]
    exact h.used c hc hns
  · intro w
    rw [h.heap_iff w]
    simp

/-- the active block is suspended with a phantom reference -/
theorem suspend {x : Active} {e : Suspended} (h : Blocks [x] a stack live)
    (hx : x = ⟨e.saved.block, e.saved.curBlockUserSupplied⟩)
    (he : liveIn live e.saved.activeRAM = e.count) (hf : e.freed = 0) (hch : e.saved.ChunksIn)
    (hroom : liveIn live e.saved.activeRAM + 1 < 2^32)
    (hi : a'.allInactives.Perm (x.block :: a.allInactives))
    (hs : a'.allInactives.Pairwise fun b c => b.end_ ≤ c.end_)
    (hr : a'.refCount = (a.incRef e.saved.activeRAM).refCount)
    (hl : a'.lastUsed = a.lastUsed) (hh : a'.heap = a.heap) (hb : a'.badFree = a.badFree) :
    Blocks [] a' (e :: stack) live := by
  subst hx
  have hk := known_park hi
  have hns : e.saved.activeRAM ∉ starts stack := h.active_not_suspended List.mem_cons_self
  have hne : ∀ c ∈ a.allInactives, e.saved.activeRAM ≠ c.start :=
    fun c hc => h.active_ne List.mem_cons_self hc
  refine ⟨hs, (hk.pairwise_iff InactiveAllocationBlock.Apart.symm).mp h.apart, ?_, ?_, ?_, ?_, ?_,
    ?_, ?_, ?_, ?_, ?_, ?_, ?_⟩
  · exact fun c hc => h.size c (hk.mem_iff.mpr hc)
  · intro d hd
    rcases List.mem_cons.mp hd with rfl | hd
    · exact hi.mem_iff.mpr List.mem_cons_self
    · exact hi.mem_iff.mpr (List.mem_cons_of_mem _ (h.parked d hd))
  · exact List.nodup_cons.mpr ⟨hns, h.distinct⟩
  · intro o ho
    obtain ⟨c, hc, hin⟩ := h.home o ho
    exact ⟨c, hk.mem_iff.mp hc, hin⟩
  · intro c hc
    have hcount := h.counts c (hk.mem_iff.mpr hc)
    rw [hr]
    by_cases e1 : c.start = e.saved.activeRAM
    · rw [e1, if_neg hns] at hcount
      simp only [e1, Allocator.incRef, Allocator.setRefCount, Function.update_self, hcount.1,
        starts, List.map_cons, List.mem_cons, true_or, if_true]
      exact ⟨u32_of_lt hroom, hroom⟩
    · simp only [Allocator.incRef, Allocator.setRefCount, Function.update_of_ne e1, starts,
        List.map_cons, List.mem_cons, e1, false_or]
      exact hcount
  · intro d hd
    rcases List.mem_cons.mp hd with rfl | hd
    · rw [hf]
      exact he
    · exact h.freed d hd
  · intro c hc hcs
    have hc' : c.start ≠ e.saved.activeRAM ∧ c.start ∉ starts stack := by
      simpa [starts] using hcs
    rcases List.mem_cons.mp (hi.mem_iff.mp hc) with rfl | hc
    · exact absurd rfl hc'.1
    · exact h.used c hc hc'.2
  · rw [hl]
    exact fun c hc => h.lastUsed c (hk.mem_iff.mpr hc)
  · intro d hd
    rcases List.mem_cons.mp hd with rfl | hd
    · exact hch
    · exact h.chunks d hd
  · rw [hh]
    exact h.heap_nodup
  · intro w
    rw [hh, h.heap_iff w]
    constructor
    · rintro (⟨x, hx, hw, hu⟩ | ⟨c, hc, hw, hown⟩)
      · rw [List.mem_singleton.mp hx] at hw hu
        refine Or.inr ⟨_, hi.mem_iff.mpr List.mem_cons_self, hw, fun d hd hdw => ?_⟩
        rcases List.mem_cons.mp hd with rfl | hd
        · exact hu
        · exact absurd (hw.trans hdw.symm) (hne _ (h.parked d hd))
      · refine Or.inr ⟨c, hi.mem_iff.mpr (List.mem_cons_of_mem _ hc), hw, fun d hd hdw => ?_⟩
        rcases List.mem_cons.mp hd with rfl | hd
        · exact absurd (hdw.trans hw.symm) (hne c hc)
        · exact hown d hd hdw
    · rintro (⟨x, hx, -⟩ | ⟨c, hc, hw, hown⟩)
      · cases hx
      · rcases List.mem_cons.mp (hi.mem_iff.mp hc) with rfl | hc
        · exact Or.inl ⟨_, List.mem_cons_self, hw, hown e List.mem_cons_self hw⟩
        · exact Or.inr ⟨c, hc, hw, fun d hd => hown d (List.mem_cons_of_mem _ hd)⟩
  · rw [hb]
    exact h.badFree

/-- new memory becomes the active block -/
theorem install (h : Blocks [] a stack live) (b : InactiveAllocationBlock) (user : Bool)
    (hfresh : ∀ c ∈ a.allInactives, b.Apart c) (h0 : b.start ≠ 0)
    (hsize : b.start + headerSize ≤ b.end_) (hi : a'.allInactives = a.allInactives)
    (hr : a'.refCount = Function.update a.refCount b.start 0)
    (hl : a'.lastUsed = Function.update a.lastUsed b.start headerSize)
    (hh : a'.heap = if user then a.heap else b.start :: a.heap) (hb : a'.badFree = a.badFree) :
    Blocks [⟨b, user⟩] a' stack live := by
  have hne : ∀ c ∈ a.allInactives, b.start ≠ c.start := by
    intro c hc e
    have h1 := hfresh c hc
    have h2 := (h.size c hc).2
    unfold InactiveAllocationBlock.Apart headerSize at *
    omega
  have hns : b.start ∉ starts stack := by
    intro hm
    obtain ⟨e, he, heq⟩ := List.mem_map.mp hm
    exact hne _ (h.parked e he) heq.symm
  have hnone : liveIn live b.start = 0 := by
    by_contra hpos
    obtain ⟨o, ho, hw⟩ := liveIn_pos.mp (Nat.pos_of_ne_zero hpos)
    obtain ⟨c, hc, hin⟩ := h.home o ho
    exact hne c hc (hw.symm.trans hin.1)
  have hk : knownBlocks [⟨b, user⟩] a' = b :: a.allInactives := by
    simp [knownBlocks, hi]
  have hheap : b.start ∉ a.heap := by
    intro hm
    rcases (h.heap_iff _).mp hm with ⟨x, hx, -⟩ | ⟨c, hc, hw, -⟩
    · cases hx
    · exact hne c hc hw.symm
  refine ⟨?_, ?_, ?_, ?_, h.distinct, ?_, ?_, h.freed, ?_, ?_, h.chunks, ?_, ?_, ?_⟩
  · rw [hi]
    exact h.sorted
  · rw [hk]
    exact List.pairwise_cons.mpr ⟨hfresh, h.apart⟩
  · rw [hk]
    exact List.forall_mem_cons.mpr ⟨⟨h0, hsize⟩, h.size⟩
  · rw [hi]
    exact h.parked
  · rw [hk]
    intro o ho
    obtain ⟨c, hc, hin⟩ := h.home o ho
    exact ⟨c, List.mem_cons_of_mem _ hc, hin⟩
  · rw [hk, hr]
    refine List.forall_mem_cons.mpr ⟨?_, fun c hc => ?_⟩
    · rw [Function.update_self, hnone, if_neg hns]
      exact ⟨rfl, Nat.two_pow_pos 32⟩
    · rw [Function.update_of_ne (hne c hc).symm]
      exact h.counts c hc
  · rw [hi]
    exact h.used
  · rw [hk, hl]
    refine List.forall_mem_cons.mpr ⟨?_, fun c hc => ?_⟩
    · rw [Function.update_self]
    · rw [Function.update_of_ne (hne c hc).symm]
      exact h.lastUsed c hc
  · rw [hh]
    cases user
    · exact List.nodup_cons.mpr ⟨hheap, h.heap_nodup⟩
    · exact h.heap_nodup
  · intro w
    rw [hh, hi]
    have hw := h.heap_iff w
    simp only [List.not_mem_nil, false_and, exists_false, false_or] at hw
    cases user
    · show w ∈ b.start :: a.heap ↔ _
      rw [List.mem_cons, hw]
      refine or_congr_left ⟨fun e => ⟨_, List.mem_singleton_self _, e.symm, rfl⟩, ?_⟩
      rintro ⟨x, hx, e, -⟩
      rw [← e, List.mem_singleton.mp hx]
    · show w ∈ a.heap ↔ _
      rw [hw]
      refine ⟨Or.inr, fun hor => hor.resolve_left ?_⟩
      rintro ⟨x, hx, -, hu⟩
      rw [List.mem_singleton.mp hx] at hu
      cases hu
  · rw [hb]
    exact h.badFree

/-- the block suspended last becomes active again and loses its phantom reference -/
theorem resume {e : Suspended} (h : Blocks [] a (e :: stack) live)
    (hi : a'.allInactives = a.allInactives.eraseP fun b => b.start = e.saved.activeRAM)
    (hr : a'.refCount = (a.decRef e.saved.activeRAM).refCount)
    (hl : a'.lastUsed = a.lastUsed) (hh : a'.heap = a.heap) (hb : a'.badFree = a.badFree) :
    Blocks [⟨e.saved.block, e.saved.curBlockUserSupplied⟩] a' stack live := by
  have hmem := h.parked e List.mem_cons_self
  obtain ⟨c, l₁, l₂, -, hstart, hsplit, herase⟩ := List.exists_of_eraseP
    (p := fun b : InactiveAllocationBlock => decide (b.start = e.saved.activeRAM)) hmem
    (by simp [AllocatorState.block])
  have hce : c = e.saved.block := by
    refine h.eq_of_start (mem_known_of_inactive ?_) (mem_known_of_inactive hmem)
      (of_decide_eq_true hstart)
    rw [hsplit]
    simp
  subst hce
  have hperm : a.allInactives.Perm (e.saved.block :: a'.allInactives) := by
    rw [hi, herase, hsplit]
    exact List.perm_middle
  have hk : (knownBlocks [] a).Perm
      (knownBlocks [⟨e.saved.block, e.saved.curBlockUserSupplied⟩] a') := hperm
  have hap := (hperm.pairwise_iff InactiveAllocationBlock.Apart.symm).mp h.apart
  obtain ⟨hns, hdistinct⟩ := List.nodup_cons.mp h.distinct
  have hne : ∀ c ∈ a'.allInactives, c.start ≠ e.saved.activeRAM := by
    intro c hc heq
    have h1 := (List.pairwise_cons.mp hap).1 c hc
    have h2 := (h.size c (hperm.mem_iff.mpr (List.mem_cons_of_mem _ hc))).2
    have h3 := (h.size _ hmem).2
    unfold InactiveAllocationBlock.Apart AllocatorState.block headerSize at *
    simp only at *
    omega
  have hold : ∀ c ∈ a'.allInactives, c ∈ a.allInactives :=
    fun c hc => hperm.mem_iff.mpr (List.mem_cons_of_mem _ hc)
  have hstarts : ∀ w, w ≠ e.saved.activeRAM → (w ∈ starts (e :: stack) ↔ w ∈ starts stack) := by
    intro w hw
    simp [starts, hw]
  refine ⟨?_, hap, ?_, ?_, hdistinct, ?_, ?_, ?_, ?_, ?_, ?_, ?_, ?_, ?_⟩
  · rw [hi]
    exact h.sorted.sublist List.eraseP_sublist
  · exact fun c hc => h.size c (hk.mem_iff.mpr hc)
  · intro d hd
    rcases List.mem_cons.mp (hperm.mem_iff.mp (h.parked d (List.mem_cons_of_mem _ hd))) with e1 | hd'
    · exact absurd (List.mem_map.mpr ⟨d, hd, congrArg InactiveAllocationBlock.start e1⟩) hns
    · exact hd'
  · intro o ho
    obtain ⟨c, hc, hin⟩ := h.home o ho
    exact ⟨c, hk.mem_iff.mp hc, hin⟩
  · rw [hr]
    have hself := h.counts e.saved.block hmem
    refine List.forall_mem_cons.mpr ⟨?_, fun c hc => ?_⟩
    · have hs1 : e.saved.block.start ∈ starts (e :: stack) := List.mem_cons_self
      have hs2 : e.saved.block.start ∉ starts stack := hns
      rw [if_pos hs1] at hself
      have hlt : liveIn live e.saved.block.start < 2^32 := by omega
      refine ⟨?_, by rw [if_neg hs2]; exact hlt⟩
      rw [if_neg hs2]
      show Function.update a.refCount e.saved.block.start
        (u32 (a.refCount e.saved.block.start + (2^32 - 1))) e.saved.block.start = _
      rw [Function.update_self, hself.1]
      exact u32_pred hlt
    · have hcount := h.counts c (hold c hc)
      simp only [hstarts _ (hne c hc)] at hcount
      show Function.update a.refCount e.saved.activeRAM _ c.start = _ ∧ _
      rw [Function.update_of_ne (hne c hc)]
      exact hcount
  · exact fun d hd => h.freed d (List.mem_cons_of_mem _ hd)
  · intro c hc hcs
    exact h.used c (hold c hc) fun hm => hcs ((hstarts _ (hne c hc)).mp hm)
  · rw [hl]
    exact fun c hc => h.lastUsed c (hk.mem_iff.mpr hc)
  · exact fun d hd => h.chunks d (List.mem_cons_of_mem _ hd)
  · rw [hh]
    exact h.heap_nodup
  · intro w
    rw [hh, h.heap_iff w]
    constructor
    · rintro (⟨x, hx, -⟩ | ⟨c, hc, hw, hown⟩)
      · cases hx
      · rcases List.mem_cons.mp (hperm.mem_iff.mp hc) with rfl | hc
        · exact Or.inl ⟨_, List.mem_cons_self, hw, hown e List.mem_cons_self hw⟩
        · exact Or.inr ⟨c, hc, hw, fun d hd => hown d (List.mem_cons_of_mem _ hd)⟩
    · rintro (⟨x, hx, hw, hu⟩ | ⟨c, hc, hw, hown⟩)
      · rw [List.mem_singleton.mp hx] at hw hu
        refine Or.inr ⟨_, hmem, hw, fun d hd hdw => ?_⟩
        rcases List.mem_cons.mp hd with rfl | hd
        · exact hu
        · exact absurd (List.mem_map.mpr ⟨d, hd, hdw.trans hw.symm⟩) hns
      · refine Or.inr ⟨c, hold c hc, hw, fun d hd hdw => ?_⟩
        rcases List.mem_cons.mp hd with rfl | hd
        · exact absurd (hw.trans hdw.symm) (hne c hc)
        · exact hown d hd hdw
  · rw [hb]
    exact h.badFree

/-- one more object in the active block -/
theorem alloc {x : Active} {o : Obj} (h : Blocks [x] a stack live)
    (ho : o.home = x.block.start) (hlo : x.block.start + chunkHeaderSize < o.addr)
    (hhi : o.addr ≤ x.block.end_)
    (hroom : liveIn live x.block.start + 1 < 2^32) (hi : a'.allInactives = a.allInactives)
    (hr : a'.refCount = (a.incRef x.block.start).refCount)
    (hl : ∀ w, a.lastUsed w ≤ a'.lastUsed w) (hh : a'.heap = a.heap)
    (hb : a'.badFree = a.badFree) : Blocks [x] a' stack (o :: live) := by
  have hk : knownBlocks [x] a' = knownBlocks [x] a := by
    simp [knownBlocks, hi]
  have hns := h.active_not_suspended List.mem_cons_self
  have hx : x.block ∈ knownBlocks [x] a := List.mem_cons_self
  have hother : ∀ w, w ≠ x.block.start → liveIn (o :: live) w = liveIn live w := by
    intro w hw
    rw [liveIn_cons, if_neg (by rw [ho]; exact hw.symm)]
    rfl
  have hstart : ∀ c ∈ a.allInactives, c.start ≠ x.block.start :=
    fun c hc => (h.active_ne List.mem_cons_self hc).symm
  refine ⟨?_, ?_, ?_, ?_, h.distinct, ?_, ?_, ?_, ?_, ?_, h.chunks, ?_, ?_, ?_⟩
  · rw [hi]
    exact h.sorted
  · rw [hk]
    exact h.apart
  · rw [hk]
    exact h.size
  · rw [hi]
    exact h.parked
  · rw [hk]
    exact List.forall_mem_cons.mpr ⟨⟨x.block, hx, ho, hlo, hhi⟩, h.home⟩
  · rw [hk, hr]
    intro c hc
    have hcount := h.counts c hc
    by_cases e : c.start = x.block.start
    · rw [e, if_neg hns] at hcount ⊢
      rw [liveIn_cons, if_pos ho]
      refine ⟨?_, hroom⟩
      show Function.update a.refCount x.block.start (u32 (a.refCount x.block.start + 1))
        x.block.start = _
      rw [Function.update_self, hcount.1]
      exact u32_of_lt hroom
    · rw [hother _ e]
      refine ⟨?_, hcount.2⟩
      show Function.update a.refCount x.block.start _ c.start = _
      rw [Function.update_of_ne e]
      exact hcount.1
  · intro e he
    rw [hother e.saved.activeRAM (hstart _ (h.parked e he))]
    exact h.freed e he
  · rw [hi]
    intro c hc hcs
    rw [hother _ (hstart c hc)]
    exact h.used c hc hcs
  · rw [hk]
    exact fun c hc => (h.lastUsed c hc).trans (hl _)
  · rw [hh]
    exact h.heap_nodup
  · rw [hh, hi]
    exact h.heap_iff
  · rw [hb]
    exact h.badFree

theorem starts_noteFree (stack : List Suspended) (w : Nat) :
    starts (stack.map (Suspended.noteFree w)) = starts stack := by
  unfold starts
  rw [List.map_map]
  refine List.map_congr_left fun e _ => ?_
  show (Suspended.noteFree w e).saved.activeRAM = _
  unfold Suspended.noteFree
  split <;> rfl

theorem noteFree_saved (w : Nat) (e : Suspended) : (e.noteFree w).saved = e.saved := by
  unfold Suspended.noteFree
  split <;> rfl

/-- an object is freed, and its block keeps a reference: the books but for the counts -/
theorem free_object {o : Obj} {b : InactiveAllocationBlock} (h : Blocks act a stack live)
    (ho : o ∈ live) (hb : b ∈ knownBlocks act a) (hob : o.home = b.start)
    (hi : a'.allInactives = a.allInactives)
    (hr : a'.refCount = (a.decRef b.start).refCount) (hl : a'.lastUsed = a.lastUsed)
    (hh : a'.heap = a.heap) (hbad : a'.badFree = a.badFree)
    (hleft : b ∈ a.allInactives → b.start ∉ starts stack → a'.refCount b.start ≠ 0) :
    Blocks act a' (stack.map (Suspended.noteFree o.home)) (live.erase o) := by
  have hk : knownBlocks act a' = knownBlocks act a := by
    simp [knownBlocks, hi]
  have hother : ∀ w, w ≠ b.start → liveIn live w = liveIn (live.erase o) w := by
    intro w hw
    rw [liveIn_erase ho, if_neg (by rw [hob]; exact hw.symm)]
    rfl
  have hself : liveIn live b.start = liveIn (live.erase o) b.start + 1 := by
    rw [liveIn_erase ho, if_pos hob]
  have hcounts : ∀ c ∈ knownBlocks act a, a'.refCount c.start =
      liveIn (live.erase o) c.start + (if c.start ∈ starts stack then 1 else 0) ∧
      liveIn (live.erase o) c.start + (if c.start ∈ starts stack then 1 else 0) < 2^32 := by
    intro c hc
    have hcount := h.counts c hc
    rw [hr]
    by_cases e : c.start = b.start
    · rw [e, hself, Nat.add_right_comm] at hcount
      rw [e]
      refine ⟨?_, by omega⟩
      show Function.update a.refCount b.start (u32 (a.refCount b.start + (2^32 - 1)))
        b.start = _
      rw [Function.update_self, hcount.1]
      exact u32_pred (by omega)
    · rw [hother _ e] at hcount
      refine ⟨?_, hcount.2⟩
      show Function.update a.refCount b.start _ c.start = _
      rw [Function.update_of_ne e]
      exact hcount.1
  refine ⟨?_, ?_, ?_, ?_, ?_, ?_, ?_, ?_, ?_, ?_, ?_, ?_, ?_, ?_⟩
  · rw [hi]
    exact h.sorted
  · rw [hk]
    exact h.apart
  · rw [hk]
    exact h.size
  · rw [hi]
    intro e he
    obtain ⟨d, hd, rfl⟩ := List.mem_map.mp he
    rw [noteFree_saved]
    exact h.parked d hd
  · rw [starts_noteFree]
    exact h.distinct
  · rw [hk]
    exact fun o' ho' => h.home o' (List.mem_of_mem_erase ho')
  · rw [hk, starts_noteFree]
    exact hcounts
  · intro e he
    obtain ⟨d, hd, rfl⟩ := List.mem_map.mp he
    have hfreed := h.freed d hd
    unfold Suspended.noteFree
    by_cases e1 : d.saved.activeRAM = o.home
    · rw [if_pos e1]
      show liveIn (live.erase o) d.saved.activeRAM + (d.freed + 1) = d.count
      rw [e1, hob] at hfreed ⊢
      omega
    · rw [if_neg e1, ← hother _ (by rw [← hob]; exact e1)]
      exact hfreed
  · rw [hi, starts_noteFree]
    intro c hc hcs
    by_cases e : c.start = b.start
    · have hcb : c = b := h.eq_of_start (mem_known_of_inactive hc) hb e
      subst hcb
      have h1 := (hcounts c hb).1
      rw [if_neg hcs] at h1
      have h2 := hleft hc hcs
      omega
    · rw [← hother _ e]
      exact h.used c hc hcs
  · rw [hk, hl]
    exact h.lastUsed
  · intro e he
    obtain ⟨d, hd, rfl⟩ := List.mem_map.mp he
    rw [noteFree_saved]
    exact h.chunks d hd
  · rw [hh]
    exact h.heap_nodup
  · intro w
    rw [hh, hi, h.heap_iff w]
    refine or_congr_right (exists_congr fun c => and_congr_right fun _ => and_congr_right fun _ => ?_)
    constructor
    · intro hown e he
      obtain ⟨d, hd, rfl⟩ := List.mem_map.mp he
      rw [noteFree_saved]
      exact hown d hd
    · intro hown d hd
      have := hown _ (List.mem_map_of_mem (f := Suspended.noteFree o.home) hd)
      rwa [noteFree_saved] at this
  · rw [hbad]
    exact h.badFree

/-- an inactive block, taken out of the list to be dealt with -/
theorem pick {b : InactiveAllocationBlock} (h : Blocks act a stack live) (hb : b ∈ a.allInactives)
    (hns : b.start ∉ starts stack) :
    Blocks (⟨b, false⟩ :: act) { a with allInactives := a.allInactives.erase b } stack live := by
  have hperm := List.perm_cons_erase hb
  have hk : (knownBlocks act a).Perm
      (knownBlocks (⟨b, false⟩ :: act) { a with allInactives := a.allInactives.erase b }) :=
    (hperm.append_left _).trans List.perm_middle
  have hold : ∀ c ∈ a.allInactives.erase b, c ∈ a.allInactives :=
    fun c hc => List.mem_of_mem_erase hc
  refine ⟨h.sorted.sublist List.erase_sublist,
    (hk.pairwise_iff InactiveAllocationBlock.Apart.symm).mp h.apart,
    fun c hc => h.size c (hk.mem_iff.mpr hc), ?_, h.distinct, ?_,
    fun c hc => h.counts c (hk.mem_iff.mpr hc), h.freed, fun c hc => h.used c (hold c hc),
    fun c hc => h.lastUsed c (hk.mem_iff.mpr hc), h.chunks, h.heap_nodup, ?_, h.badFree⟩
  · intro e he
    refine (List.mem_erase_of_ne ?_).mpr (h.parked e he)
    rintro rfl
    exact hns (List.mem_map_of_mem (f := fun e : Suspended => e.saved.activeRAM) he)
  · intro o ho
    obtain ⟨c, hc, hin⟩ := h.home o ho
    exact ⟨c, hk.mem_iff.mp hc, hin⟩
  · intro w
    rw [h.heap_iff w]
    constructor
    · rintro (⟨x, hx, hxw⟩ | ⟨c, hc, hw, hown⟩)
      · exact Or.inl ⟨x, List.mem_cons_of_mem _ hx, hxw⟩
      · rcases List.mem_cons.mp (hperm.mem_iff.mp hc) with rfl | hc
        · exact Or.inl ⟨_, List.mem_cons_self, hw, rfl⟩
        · exact Or.inr ⟨c, hc, hw, hown⟩
    · rintro (⟨x, hx, hxw, hu⟩ | ⟨c, hc, hw, hown⟩)
      · rcases List.mem_cons.mp hx with rfl | hx
        · refine Or.inr ⟨b, hb, hxw, fun e he hew => ?_⟩
          exact absurd (List.mem_map.mpr ⟨e, he, hew.trans hxw.symm⟩) hns
        · exact Or.inl ⟨x, hx, hxw, hu⟩
      · exact Or.inr ⟨c, hold c hc, hw, hown⟩

/-- the search by address finds the block of an object -/
theorem lookup (h : Blocks act a stack live) {b : InactiveAllocationBlock} {here : Nat}
    (hb : b ∈ a.allInactives) (hlo : b.start < here) (hhi : here ≤ b.end_) :
    lookupInactive a.allInactives here = some b := by
  have hfind : (a.allInactives.find? fun c => ¬ c.end_ < here) = some b := by
    obtain ⟨l₁, l₂, hsplit⟩ := List.append_of_mem hb
    have hsorted := h.sorted
    rw [hsplit] at hsorted
    refine List.find?_eq_some_iff_append.mpr ⟨by simpa using hhi, l₁, l₂, hsplit, fun c hc => ?_⟩
    have hcb := (List.pairwise_append.mp hsorted).2.2 c hc b List.mem_cons_self
    have hmem : c ∈ a.allInactives := by
      rw [hsplit]
      exact List.mem_append_left _ hc
    -- `c` ends before `b`, so it lies before `b`
    have hap : c.Apart b := by
      have := h.apart
      unfold knownBlocks at this
      rw [hsplit] at this
      exact (List.pairwise_append.mp (List.pairwise_append.mp this).2.1).2.2 c hc b
        List.mem_cons_self
    have h1 := (h.size b (mem_known_of_inactive hb)).2
    have h2 := (h.size c (mem_known_of_inactive hmem)).2
    unfold InactiveAllocationBlock.Apart headerSize at *
    have : c.end_ < here := by omega
    simpa using this
  unfold lookupInactive
  rw [hfind]
  exact if_neg (by omega)

end Blocks

/-! ## steps of a session -/

/-- the active block of a session -/
def Session.active (s : Session) : Active :=
  ⟨s.alloc.myState.block, s.alloc.myState.curBlockUserSupplied⟩

/-- what every step keeps -/
structure Session.Ok (s : Session) : Prop where
  blocks : Blocks [s.active] s.alloc s.stack s.live
  chunks : s.alloc.myState.ChunksIn
  policy : s.alloc.policy.Counts
  policies : ∀ e ∈ s.stack, e.policy = s.alloc.policy

namespace Allocator
variable {a a' : Allocator}

/-- what `setupBlock` and `restoreAllocationBlock` do with the block that stops being active -/
def leave (a : Allocator) : Allocator :=
  if a.myState.curBlockUserSupplied = false then a.retireActive else a

theorem free_inactives (a : Allocator) (w : Nat) (m : List InactiveAllocationBlock) :
    ({ a with allInactives := m }).free w = { a.free w with allInactives := m } := by
  by_cases hm : w ∈ a.heap
  · simp [free, hm]
  · simp [free, hm]

theorem free_myState (a : Allocator) (w : Nat) : (a.free w).myState = a.myState := by
  unfold free
  split <;> rfl

theorem free_policy (a : Allocator) (w : Nat) : (a.free w).policy = a.policy := by
  unfold free
  split <;> rfl

theorem retireActive_policy (a : Allocator) : a.retireActive.policy = a.policy := by
  simp only [retireActive]
  split
  · rfl
  · exact free_policy a _

theorem leave_policy (a : Allocator) : a.leave.policy = a.policy := by
  unfold leave
  split
  · exact retireActive_policy a
  · rfl

/-- memory that is not the active block may as well be allocated afterwards -/
theorem leave_malloc {p : Nat}
    (h : a.myState.curBlockUserSupplied = false → p ≠ a.myState.activeRAM) :
    (a.malloc p).leave = a.leave.malloc p := by
  by_cases hu : a.myState.curBlockUserSupplied = false
  · have hne := h hu
    have h1 : (a.malloc p).leave = (a.malloc p).retireActive := if_pos hu
    have h2 : a.leave = a.retireActive := if_pos hu
    rw [h1, h2]
    by_cases hr : a.refCount a.myState.activeRAM ≠ 0
    · simp [retireActive, malloc, hr]
    · by_cases hm : a.myState.activeRAM ∈ a.heap
      · simp [retireActive, malloc, free, hr, hm, hne]
      · simp [retireActive, malloc, free, hr, hm, hne.symm]
  · have h1 : (a.malloc p).leave = a.malloc p := if_neg hu
    have h2 : a.leave = a := if_neg hu
    rw [h1, h2]

/-- a successful `setupBlock` with an active block in place -/
theorem setupBlock_eq {p n : Nat} {thr : Bool} (h0 : a.myState.activeRAM ≠ 0)
    (h : a.setupBlock p n thr = some a') : headerSize ≤ n ∧ p ≠ 0 ∧
      a' = { a.leave with
        myState := ⟨p, n, thr, false, fun _ => []⟩
        lastUsed := Function.update a.leave.lastUsed p headerSize
        refCount := Function.update a.leave.refCount p 0 } := by
  unfold setupBlock at h
  split at h
  · cases h
  split at h
  · cases h
  next hn hp =>
  refine ⟨by omega, hp, ?_⟩
  have hleave : (if a.myState.activeRAM ≠ 0 ∧ a.myState.curBlockUserSupplied = false then
      a.retireActive else a) = a.leave := by
    simp only [leave, h0, ne_eq, not_false_eq_true, true_and]
  simp only [hleave] at h
  exact (Option.some.inj h).symm

end Allocator

namespace Session
variable {s t : Session}

theorem noteFree_policy (w : Nat) (e : Suspended) : (e.noteFree w).policy = e.policy := by
  unfold Suspended.noteFree
  split <;> rfl

theorem Ok.activeRAM_ne (h : s.Ok) : s.alloc.myState.activeRAM ≠ 0 :=
  (h.blocks.size s.active.block List.mem_cons_self).1

/-- the reference count of the active block -/
theorem Ok.count (h : s.Ok) : s.alloc.refCount s.alloc.myState.activeRAM = s.liveHere ∧
    s.liveHere < 2^32 := by
  have hc := h.blocks.counts s.active.block List.mem_cons_self
  have hns := h.blocks.active_not_suspended (x := s.active) List.mem_cons_self
  rw [if_neg hns] at hc
  exact hc

/-- the active block is given up -/
theorem Ok.leave (h : s.Ok) : Blocks [] s.alloc.leave s.stack s.kept := by
  have hb := h.blocks
  by_cases hu : s.alloc.myState.curBlockUserSupplied = false
  · have hact : s.active = ⟨s.alloc.myState.block, false⟩ := by
      unfold active
      rw [hu]
    have hl : s.alloc.leave = s.alloc.retireActive := if_pos hu
    have hk : s.kept = s.live := if_neg (by simp [hu])
    rw [hact] at hb
    rw [hl, hk]
    have hcount := h.count.1
    unfold liveHere at hcount
    by_cases hr : s.alloc.refCount s.alloc.myState.activeRAM ≠ 0
    · have hret : s.alloc.retireActive = { s.alloc with
          allInactives := addInactive s.alloc.allInactives s.alloc.myState.activeRAM
            s.alloc.myState.numBytes } := if_pos hr
      rw [hret]
      exact hb.retire (Nat.pos_of_ne_zero (hcount ▸ hr)) (Blocks.addInactive_perm _ _ _)
        (Blocks.addInactive_sorted _ _ _) rfl rfl rfl rfl
    · have hret : s.alloc.retireActive = s.alloc.free s.alloc.myState.activeRAM := if_neg hr
      rw [hret]
      exact hb.discard (hcount ▸ not_not.mp hr)
  · have hu' : s.alloc.myState.curBlockUserSupplied = true := by simpa using hu
    have hact : s.active = ⟨s.alloc.myState.block, true⟩ := by
      unfold active
      rw [hu']
    have hl : s.alloc.leave = s.alloc := if_neg hu
    have hk : s.kept = s.live.filter fun o => o.home ≠ s.alloc.myState.activeRAM := if_pos hu'
    rw [hact] at hb
    rw [hl, hk]
    exact hb.forget

/-- memory for a new block, seen from the blocks that stay known -/
theorem Fresh.leave {k : Bool} {p n : Nat} (hf : s.Fresh k p n) :
    ∀ c ∈ s.alloc.leave.allInactives, InactiveAllocationBlock.Apart ⟨p, p + n⟩ c := by
  by_cases hu : s.alloc.myState.curBlockUserSupplied = false
  · have hl : s.alloc.leave = s.alloc.retireActive := if_pos hu
    rw [hl]
    simp only [Allocator.retireActive]
    split
    · intro c hc
      rcases List.mem_cons.mp ((Blocks.addInactive_perm _ _ _).mem_iff.mp hc) with rfl | hc
      · exact hf.1 (Or.inr hu)
      · exact hf.2 c hc
    · simp only [Allocator.free]
      split
      · exact hf.2
      · exact hf.2
  · have hl : s.alloc.leave = s.alloc := if_neg hu
    rw [hl]
    exact hf.2

theorem chunksIn_nil (p n : Nat) (thr user : Bool) :
    AllocatorState.ChunksIn ⟨p, n, thr, user, fun _ => []⟩ := by
  intro i c hc
  cases hc

/-- `setupBlock` on memory from `malloc` -/
theorem Ok.setupBlock (h : s.Ok) {p n : Nat} {thr : Bool} {a : Allocator}
    (hf : s.Fresh false p n) (he : (s.alloc.malloc p).setupBlock p n thr = some a) :
    Ok ⟨a, s.stack, s.kept⟩ := by
  obtain ⟨hn, hp, ha⟩ := Allocator.setupBlock_eq (a := s.alloc.malloc p) h.activeRAM_ne he
  have hne : s.alloc.myState.curBlockUserSupplied = false → p ≠ s.alloc.myState.activeRAM := by
    intro hu heq
    have h1 := hf.1 (Or.inr hu)
    have h2 := (h.blocks.size s.active.block List.mem_cons_self).2
    unfold InactiveAllocationBlock.Apart headerSize at *
    unfold active AllocatorState.block at *
    simp only at *
    omega
  rw [Allocator.leave_malloc hne] at ha
  subst ha
  refine ⟨?_, chunksIn_nil _ _ _ _, ?_, ?_⟩
  · exact h.leave.install ⟨p, p + n⟩ false hf.leave hp
      (Nat.add_le_add_left hn _) rfl rfl rfl rfl rfl
  · show s.alloc.leave.policy.Counts
    rw [Allocator.leave_policy]
    exact h.policy
  · show ∀ e ∈ s.stack, e.policy = s.alloc.leave.policy
    rw [Allocator.leave_policy]
    exact h.policies

/-- `setupUserSuppliedBlock` -/
theorem Ok.setupUserSuppliedBlock (h : s.Ok) {p n : Nat} {thr : Bool} {a : Allocator}
    (hf : s.Fresh false p n) (he : s.alloc.setupUserSuppliedBlock p n thr = some a) :
    Ok ⟨a, s.stack, s.kept⟩ := by
  obtain ⟨a₁, he₁, rfl⟩ := Option.map_eq_some_iff.mp he
  obtain ⟨hn, hp, rfl⟩ := Allocator.setupBlock_eq h.activeRAM_ne he₁
  refine ⟨?_, chunksIn_nil _ _ _ _, ?_, ?_⟩
  · exact h.leave.install ⟨p, p + n⟩ true hf.leave hp
      (Nat.add_le_add_left hn _) rfl rfl rfl rfl rfl
  · show s.alloc.leave.policy.Counts
    rw [Allocator.leave_policy]
    exact h.policy
  · show ∀ e ∈ s.stack, e.policy = s.alloc.leave.policy
    rw [Allocator.leave_policy]
    exact h.policies

/-- the two statements in front of `setupBlock`, and what it makes of the suspended block -/
theorem Ok.suspended (h : s.Ok) (hroom : s.liveHere + 1 < 2^32) :
    Blocks [] s.alloc.suspendActive.leave (s.suspend s.alloc.myState :: s.stack) s.live := by
  have hr : s.alloc.suspendActive.refCount s.alloc.suspendActive.myState.activeRAM ≠ 0 := by
    show Function.update s.alloc.refCount s.alloc.myState.activeRAM
      (u32 (s.alloc.refCount s.alloc.myState.activeRAM + 1)) s.alloc.myState.activeRAM ≠ 0
    rw [Function.update_self, h.count.1, u32_of_lt hroom]
    omega
  have hl : s.alloc.suspendActive.leave = { s.alloc.suspendActive with
      allInactives := addInactive s.alloc.allInactives s.alloc.myState.activeRAM
        s.alloc.myState.numBytes } := if_pos hr
  rw [hl]
  exact h.blocks.suspend (e := s.suspend s.alloc.myState) rfl h.count.1.symm rfl h.chunks hroom
    (Blocks.addInactive_perm _ _ _) (Blocks.addInactive_sorted _ _ _) rfl rfl rfl rfl

theorem suspendActive_leave_policy (a : Allocator) : a.suspendActive.leave.policy = a.policy :=
  Allocator.leave_policy _

theorem Fresh.suspended {p n : Nat} (hf : s.Fresh true p n) :
    ∀ c ∈ s.alloc.suspendActive.leave.allInactives,
      InactiveAllocationBlock.Apart ⟨p, p + n⟩ c := by
  have hf' : (⟨s.alloc.suspendActive, s.stack, s.live⟩ : Session).Fresh true p n :=
    ⟨fun _ => hf.1 (Or.inl rfl), hf.2⟩
  exact hf'.leave

/-- `temporarilyUseBlockForAllocations` with memory of the caller -/
theorem Ok.temporarilyUse (h : s.Ok) {p n : Nat} {r : AllocatorState × Allocator}
    (hf : s.Fresh true p n) (hroom : s.liveHere + 1 < 2^32)
    (he : s.alloc.temporarilyUseBlockForAllocations p n = some r) :
    Ok ⟨r.2, s.suspend r.1 :: s.stack, s.live⟩ := by
  obtain ⟨a₁, he₁, rfl⟩ := Option.map_eq_some_iff.mp he
  obtain ⟨a₂, he₂, rfl⟩ := Option.map_eq_some_iff.mp he₁
  obtain ⟨hn, hp, rfl⟩ := Allocator.setupBlock_eq (a := s.alloc.suspendActive) h.activeRAM_ne he₂
  refine ⟨?_, chunksIn_nil _ _ _ _, ?_, ?_⟩
  · exact (h.suspended hroom).install ⟨p, p + n⟩ true hf.suspended hp
      (Nat.add_le_add_left hn _) rfl rfl rfl rfl rfl
  · show s.alloc.suspendActive.leave.policy.Counts
    rw [suspendActive_leave_policy]
    exact h.policy
  · show ∀ e ∈ s.suspend s.alloc.myState :: s.stack, e.policy = s.alloc.suspendActive.leave.policy
    rw [suspendActive_leave_policy]
    exact List.forall_mem_cons.mpr ⟨rfl, h.policies⟩

/-- `temporarilyUseBlockForAllocations` with memory from `malloc` -/
theorem Ok.temporarilyUseNew (h : s.Ok) {p n : Nat} {r : AllocatorState × Allocator}
    (hf : s.Fresh true p n) (hroom : s.liveHere + 1 < 2^32)
    (he : s.alloc.temporarilyUseNewBlockForAllocations p n = some r) :
    Ok ⟨r.2, s.suspend r.1 :: s.stack, s.live⟩ := by
  obtain ⟨a₁, he₁, rfl⟩ := Option.map_eq_some_iff.mp he
  obtain ⟨hn, hp, ha⟩ := Allocator.setupBlock_eq (a := s.alloc.suspendActive.malloc p)
    h.activeRAM_ne he₁
  have hne : s.alloc.suspendActive.myState.curBlockUserSupplied = false →
      p ≠ s.alloc.suspendActive.myState.activeRAM := by
    intro _ heq
    have h1 := hf.1 (Or.inl rfl)
    have h2 := (h.blocks.size s.active.block List.mem_cons_self).2
    have heq' : p = s.alloc.myState.activeRAM := heq
    unfold InactiveAllocationBlock.Apart headerSize at *
    unfold active AllocatorState.block at *
    simp only at *
    omega
  rw [Allocator.leave_malloc hne] at ha
  subst ha
  refine ⟨?_, chunksIn_nil _ _ _ _, ?_, ?_⟩
  · exact (h.suspended hroom).install ⟨p, p + n⟩ false hf.suspended hp
      (Nat.add_le_add_left hn _) rfl rfl rfl rfl rfl
  · show s.alloc.suspendActive.leave.policy.Counts
    rw [suspendActive_leave_policy]
    exact h.policy
  · show ∀ e ∈ s.suspend s.alloc.myState :: s.stack, e.policy = s.alloc.suspendActive.leave.policy
    rw [suspendActive_leave_policy]
    exact List.forall_mem_cons.mpr ⟨rfl, h.policies⟩

/-- `restoreAllocationBlock` -/
theorem Ok.restore (h : s.Ok) {e : Suspended} {rest : List Suspended} (hs : s.stack = e :: rest) :
    Ok ⟨s.alloc.restoreAllocationBlock e.saved, rest, s.kept⟩ := by
  have hl := h.leave
  rw [hs] at hl
  have hp : (s.alloc.restoreAllocationBlock e.saved).policy = s.alloc.policy :=
    Allocator.leave_policy s.alloc
  refine ⟨?_, ?_, ?_, ?_⟩
  · exact hl.resume rfl rfl rfl rfl rfl
  · exact h.blocks.chunks e (by rw [hs]; exact List.mem_cons_self)
  · show (s.alloc.restoreAllocationBlock e.saved).policy.Counts
    rw [hp]
    exact h.policy
  · show ∀ d ∈ rest, d.policy = (s.alloc.restoreAllocationBlock e.saved).policy
    rw [hp]
    exact fun d hd => h.policies d (by rw [hs]; exact List.mem_cons_of_mem _ hd)

/-- the records after `getRAM` has handed out an object -/
theorem Ok.gotRAM (h : s.Ok) (hroom : s.liveHere + 1 < 2^32) {p : Nat} {a : Allocator}
    (hlo : s.alloc.myState.activeRAM + chunkHeaderSize < p)
    (hhi : p ≤ s.alloc.myState.activeRAM + s.alloc.myState.numBytes)
    (hst : a.myState.block = s.alloc.myState.block)
    (huser : a.myState.curBlockUserSupplied = s.alloc.myState.curBlockUserSupplied)
    (hchunks : a.myState.ChunksIn) (hi : a.allInactives = s.alloc.allInactives)
    (hr : a.refCount = (s.alloc.incRef s.alloc.myState.activeRAM).refCount)
    (hl : ∀ w, s.alloc.lastUsed w ≤ a.lastUsed w) (hh : a.heap = s.alloc.heap)
    (hb : a.badFree = s.alloc.badFree) (hp : a.policy = s.alloc.policy) :
    Ok ⟨a, s.stack, ⟨p, s.alloc.myState.activeRAM⟩ :: s.live⟩ := by
  refine ⟨?_, hchunks, hp ▸ h.policy, hp ▸ h.policies⟩
  have hact : active ⟨a, s.stack, ⟨p, s.alloc.myState.activeRAM⟩ :: s.live⟩ = s.active := by
    simp only [active, hst, huser]
  rw [hact]
  exact h.blocks.alloc rfl hlo hhi hroom hi hr hl hh hb

/-- `getRAM` on the active block -/
theorem Ok.getRAM (h : s.Ok) {howMuch : Nat} (hn : bytesNeeded howMuch ≠ 0)
    (hroom : s.liveHere + 1 < 2^32 ∨ s.alloc.Full howMuch) :
    Ok (s.afterGetRAM (s.alloc.getRAM howMuch)) := by
  have hfail : (∃ r, (∀ p, r ≠ .ret p) ∧ s.alloc.getRAM howMuch = (r, s.alloc)) →
      Ok (s.afterGetRAM (s.alloc.getRAM howMuch)) := by
    rintro ⟨r, hr, e⟩
    rw [e]
    cases r with
    | ret p => exact absurd rfl (hr p)
    | nullptr => exact h
    | notEnoughSpace => exact h
  rcases hroom with hroom | hfull
  · rcases s.alloc.getRAM_cases howMuch with ⟨-, i, j, -, hj, -, e⟩ | ⟨hfit, e⟩ | hf
    · -- a free chunk
      rw [e]
      have hmem : (s.alloc.myState.chunks i).getD j 0 ∈ s.alloc.myState.chunks i := by
        rw [List.getD_eq_getElem _ _ hj]
        exact List.getElem_mem hj
      obtain ⟨hlo, hhi⟩ := h.chunks i _ hmem
      refine h.gotRAM hroom (by omega) hhi rfl rfl ?_ rfl rfl (fun _ => Nat.le_refl _) rfl rfl rfl
      intro k c hc
      refine h.chunks k c ?_
      by_cases ek : k = i
      · subst ek
        have hc' : c ∈ (s.alloc.myState.chunks k).eraseIdx j := by
          simpa [Allocator.reused, Allocator.setChunks, Allocator.incRef, Allocator.setRefCount]
            using hc
        exact List.mem_of_mem_eraseIdx hc'
      · simpa [Allocator.reused, Allocator.setChunks, Allocator.incRef, Allocator.setRefCount, ek]
          using hc
    · -- a new chunk
      rw [e]
      have h4 := four_dvd_bytesNeeded howMuch
      have hused := h.blocks.lastUsed s.active.block List.mem_cons_self
      have hge : chunkHeaderSize ≤ bytesNeeded howMuch := by
        unfold chunkHeaderSize
        omega
      have hpos : 0 < s.alloc.lastUsed s.alloc.myState.activeRAM :=
        Nat.lt_of_lt_of_le (by decide) hused
      refine h.gotRAM hroom (by omega) (by omega) rfl rfl h.chunks rfl rfl ?_ rfl rfl rfl
      intro w
      by_cases ew : w = s.alloc.myState.activeRAM
      · subst ew
        simp [Allocator.carved]
      · simp [Allocator.carved, ew]
    · exact hfail hf
  · exact hfail (Allocator.getRAM_full hfull)

/-- `freeRAM` of an object of the active block -/
theorem Ok.freeRAM_active (h : s.Ok) {o : Obj} (ho : o ∈ s.live)
    (hhome : o.home = s.alloc.myState.activeRAM) (hc : s.alloc.contains o.addr = true) :
    Ok ⟨s.alloc.freeRAM o.addr, s.stack.map (Suspended.noteFree o.home), s.live.erase o⟩ := by
  have hin : s.alloc.myState.activeRAM + chunkHeaderSize < o.addr ∧
      o.addr ≤ s.alloc.myState.activeRAM + s.alloc.myState.numBytes := by
    obtain ⟨b, hb, hob, hlo, hhi⟩ := h.blocks.home o ho
    have heq : b = s.alloc.myState.block :=
      h.blocks.eq_of_start hb List.mem_cons_self (hob.symm.trans hhome)
    subst heq
    exact ⟨hlo, hhi⟩
  rw [Allocator.freeRAM_contained h.policy hc]
  refine ⟨?_, ?_, h.policy, ?_⟩
  · exact h.blocks.free_object (b := s.alloc.myState.block) ho List.mem_cons_self hhome rfl rfl
      rfl rfl rfl fun hb => absurd rfl (h.blocks.active_ne (x := s.active) List.mem_cons_self hb)
  · intro k c hk
    have hk' : c ∈ Function.update s.alloc.myState.chunks
        (31 - leadingZeros (s.alloc.chunkSize (o.addr - chunkHeaderSize)))
        (s.alloc.myState.chunks (31 - leadingZeros (s.alloc.chunkSize
          (o.addr - chunkHeaderSize))) ++ [o.addr - chunkHeaderSize]) k := hk
    rw [Function.update_apply] at hk'
    split at hk'
    · rcases List.mem_append.mp hk' with hk' | hk'
      · exact h.chunks _ c hk'
      · rw [List.mem_singleton.mp hk']
        show s.alloc.myState.activeRAM < _ ∧
          _ ≤ s.alloc.myState.activeRAM + s.alloc.myState.numBytes
        omega
    · exact h.chunks k c hk'
  · intro e he
    obtain ⟨d, hd, rfl⟩ := List.mem_map.mp he
    rw [noteFree_policy]
    exact h.policies d hd

/-- `freeRAM` of an object of another block -/
theorem Ok.freeRAM_inactive (h : s.Ok) {o : Obj} (ho : o ∈ s.live)
    (hhome : o.home ≠ s.alloc.myState.activeRAM) (hc : s.alloc.contains o.addr = false) :
    Ok ⟨s.alloc.freeRAM o.addr, s.stack.map (Suspended.noteFree o.home), s.live.erase o⟩ := by
  obtain ⟨b, hb, hob, hlo, hhi⟩ := h.blocks.home o ho
  have hbi : b ∈ s.alloc.allInactives := by
    rcases List.mem_cons.mp hb with rfl | hb
    · exact absurd hob hhome
    · exact hb
  have hlook := h.blocks.lookup hbi (by omega) hhi
  have hfree : s.alloc.freeRAM o.addr =
      if (s.alloc.decRef b.start).refCount b.start = 0 then
        { (s.alloc.decRef b.start).free b.start with
          allInactives := s.alloc.allInactives.erase b }
      else s.alloc.decRef b.start := by
    have hd : s.alloc.freeRAM o.addr = s.alloc.defaultFreeRAM o.addr := by
      unfold Allocator.freeRAM
      cases e : s.alloc.policy with
      | defaultAllocator => rfl
      | noReuseAllocator => rfl
      | noReferenceCountAllocator => exact absurd e h.policy
    rw [hd]
    simp only [Allocator.defaultFreeRAM, hc, hlook]
    rfl
  have hpol : ∀ e ∈ s.stack.map (Suspended.noteFree o.home), e.policy = s.alloc.policy := by
    intro e he
    obtain ⟨d, hd, rfl⟩ := List.mem_map.mp he
    rw [noteFree_policy]
    exact h.policies d hd
  rw [hfree]
  by_cases hz : (s.alloc.decRef b.start).refCount b.start = 0
  · rw [if_pos hz]
    -- the last object: the phantom reference of a suspended block would keep the count up
    have hcount := h.blocks.counts b hb
    have hpos : 0 < liveIn s.live b.start := liveIn_pos.mpr ⟨o, ho, hob⟩
    have hz' : u32 (s.alloc.refCount b.start + (2^32 - 1)) = 0 := by
      have hupd : (s.alloc.decRef b.start).refCount b.start =
          u32 (s.alloc.refCount b.start + (2^32 - 1)) := Function.update_self _ _ _
      rw [← hupd]
      exact hz
    have hone : s.alloc.refCount b.start = 1 := by
      rw [hcount.1] at hz' ⊢
      unfold u32 at hz'
      omega
    have hns : b.start ∉ starts s.stack := by
      intro hm
      rw [if_pos hm] at hcount
      omega
    have hpick : Blocks [⟨b, false⟩, s.active]
        (({ s.alloc with allInactives := s.alloc.allInactives.erase b }).decRef b.start)
        (s.stack.map (Suspended.noteFree o.home)) (s.live.erase o) :=
      (h.blocks.pick hbi hns).free_object (b := b) ho List.mem_cons_self hob rfl rfl rfl rfl rfl
        fun hmem => absurd rfl ((h.blocks.pick hbi hns).active_ne List.mem_cons_self hmem)
    have hgone : liveIn (s.live.erase o) b.start = 0 := by
      have h1 := liveIn_erase ho b.start
      rw [if_pos hob] at h1
      rw [if_neg hns] at hcount
      omega
    have hdone := hpick.discard hgone
    have hcomm : (({ s.alloc with allInactives := s.alloc.allInactives.erase b }).decRef
        b.start).free b.start = { (s.alloc.decRef b.start).free b.start with
          allInactives := s.alloc.allInactives.erase b } :=
      Allocator.free_inactives (s.alloc.decRef b.start) _ _
    rw [hcomm] at hdone
    have hst : ((s.alloc.decRef b.start).free b.start).myState = s.alloc.myState :=
      Allocator.free_myState _ _
    have hpo : ((s.alloc.decRef b.start).free b.start).policy = s.alloc.policy :=
      Allocator.free_policy _ _
    refine ⟨?_, ?_, ?_, ?_⟩
    · show Blocks [⟨((s.alloc.decRef b.start).free b.start).myState.block,
        ((s.alloc.decRef b.start).free b.start).myState.curBlockUserSupplied⟩] _ _ _
      rw [hst]
      exact hdone
    · show ((s.alloc.decRef b.start).free b.start).myState.ChunksIn
      rw [hst]
      exact h.chunks
    · show ((s.alloc.decRef b.start).free b.start).policy.Counts
      rw [hpo]
      exact h.policy
    · show ∀ e ∈ s.stack.map (Suspended.noteFree o.home),
        e.policy = ((s.alloc.decRef b.start).free b.start).policy
      rw [hpo]
      exact hpol
  · rw [if_neg hz]
    exact ⟨h.blocks.free_object ho hb hob rfl rfl rfl rfl rfl fun _ _ => hz, h.chunks, h.policy,
      hpol⟩

/-- **One step keeps the books.** -/
theorem Ok.step {op : SessionOp} (h : s.Ok) (hc : s.Fine op) (he : s.step op = some t) :
    t.Ok := by
  cases op with
  | temporarilyUseBlockForAllocations p n =>
    simp only [Session.step] at he
    split at he
    · next hf =>
      obtain ⟨r, hr, rfl⟩ := Option.map_eq_some_iff.mp he
      exact h.temporarilyUse hf hc hr
    · cases he
  | temporarilyUseNewBlockForAllocations p n =>
    simp only [Session.step] at he
    split at he
    · next hf =>
      obtain ⟨r, hr, rfl⟩ := Option.map_eq_some_iff.mp he
      exact h.temporarilyUseNew hf hc hr
    · cases he
  | restoreAllocationBlock =>
    simp only [Session.step] at he
    split at he
    · cases he
    · next e rest hs =>
      cases he
      exact h.restore hs
  | setupBlock p n thr =>
    simp only [Session.step] at he
    split at he
    · next hf =>
      obtain ⟨a, ha, rfl⟩ := Option.map_eq_some_iff.mp he
      exact h.setupBlock hf ha
    · cases he
  | setupUserSuppliedBlock p n thr =>
    simp only [Session.step] at he
    split at he
    · next hf =>
      obtain ⟨a, ha, rfl⟩ := Option.map_eq_some_iff.mp he
      exact h.setupUserSuppliedBlock hf ha
    · cases he
  | getRAM howMuch =>
    cases he
    exact h.getRAM hc.1 hc.2
  | freeRAM o =>
    simp only [Session.step] at he
    split at he
    · next ho =>
      cases he
      by_cases hhome : o.home = s.alloc.myState.activeRAM
      · exact h.freeRAM_active ho hhome (by rw [hc]; exact decide_eq_true hhome)
      · exact h.freeRAM_inactive ho hhome (by rw [hc]; exact decide_eq_false hhome)
    · cases he

/-! ## the books, read as states of blocks -/

theorem Ok.nodup_start (h : s.Ok) :
    ((knownBlocks [s.active] s.alloc).map InactiveAllocationBlock.start).Nodup := by
  refine List.pairwise_map.mpr (h.blocks.apart.imp_of_mem fun {b c} hb hc hap heq => ?_)
  have h1 := (h.blocks.size b hb).2
  have h2 := (h.blocks.size c hc).2
  unfold InactiveAllocationBlock.Apart headerSize at *
  omega

/-- the list of inactive blocks is made of the suspended ones and the others -/
theorem Ok.known (h : s.Ok) : s.alloc.allInactives.Perm (s.suspended ++ s.inactive) := by
  have hnd : s.alloc.allInactives.Nodup :=
    (List.nodup_cons.mp (h.nodup_start.of_map _)).2
  have hsusp : (s.alloc.allInactives.filter fun b => b ∈ s.suspended).Perm s.suspended := by
    refine (List.perm_ext_iff_of_nodup (hnd.filter _) ?_).mpr fun b => ?_
    · refine List.Nodup.of_map InactiveAllocationBlock.start ?_
      unfold Session.suspended
      rw [List.map_map]
      exact h.blocks.distinct
    · simp only [List.mem_filter, decide_eq_true_eq, and_iff_right_iff_imp]
      intro hb
      obtain ⟨e, he, rfl⟩ := List.mem_map.mp hb
      exact h.blocks.parked e he
  have hsplit := (List.filter_append_perm (fun b => decide (b ∈ s.suspended))
    s.alloc.allInactives).symm
  have hinact : s.inactive =
      s.alloc.allInactives.filter fun b => !decide (b ∈ s.suspended) := by
    simp [inactive]
  rw [hinact]
  exact hsplit.trans (hsusp.append_right _)

theorem Ok.mem_inactive (h : s.Ok) {b : InactiveAllocationBlock} :
    b ∈ s.inactive ↔ b ∈ s.alloc.allInactives ∧ b.start ∉ starts s.stack := by
  unfold inactive
  rw [List.mem_filter]
  refine and_congr_right fun hb => ?_
  rw [decide_eq_true_iff, not_iff_not]
  constructor
  · intro hs
    obtain ⟨e, he, rfl⟩ := List.mem_map.mp hs
    exact List.mem_map.mpr ⟨e, he, rfl⟩
  · intro hs
    obtain ⟨e, he, heq⟩ := List.mem_map.mp hs
    have hbe : e.saved.block = b :=
      h.blocks.eq_of_start (Blocks.mem_known_of_inactive (h.blocks.parked e he))
        (Blocks.mem_known_of_inactive hb) heq
    exact List.mem_map.mpr ⟨e, he, hbe⟩

theorem Ok.lifecycle (h : s.Ok) : Lifecycle s := by
  have hperm : (knownBlocks [s.active] s.alloc).Perm
      (s.alloc.myState.block :: (s.suspended ++ s.inactive)) := h.known.cons _
  refine ⟨(hperm.pairwise_iff InactiveAllocationBlock.Apart.symm).mp h.blocks.apart,
    (hperm.map _).nodup_iff.mp h.nodup_start, h.known, ?_, h.blocks.heap_nodup, ?_, ?_,
    h.blocks.badFree, h.count.1, ?_, ?_⟩
  · intro o ho
    obtain ⟨b, hb, hob, hlo, hhi⟩ := h.blocks.home o ho
    exact ⟨b, hperm.mem_iff.mp hb, hob, by omega, hhi⟩
  · intro w
    rw [h.blocks.heap_iff w]
    constructor
    · rintro (⟨x, hx, hw, hu⟩ | ⟨b, hb, hw, hown⟩)
      · rw [List.mem_singleton.mp hx] at hw hu
        exact Or.inl ⟨hw.symm, hu⟩
      · by_cases hs : b.start ∈ starts s.stack
        · obtain ⟨e, he, heq⟩ := List.mem_map.mp hs
          exact Or.inr (Or.inl ⟨e, he, (heq.trans hw).symm, hown e he (heq.trans hw)⟩)
        · exact Or.inr (Or.inr ⟨b, h.mem_inactive.mpr ⟨hb, hs⟩, hw.symm⟩)
    · rintro (⟨hw, hu⟩ | ⟨e, he, hw, hu⟩ | ⟨b, hb, hw⟩)
      · exact Or.inl ⟨s.active, List.mem_cons_self, hw.symm, hu⟩
      · refine Or.inr ⟨_, h.blocks.parked e he, hw.symm, fun d hd hdw => ?_⟩
        have hde : d = e := List.inj_on_of_nodup_map h.blocks.distinct hd he (hdw.trans hw)
        rw [hde]
        exact hu
      · obtain ⟨hb, hs⟩ := h.mem_inactive.mp hb
        refine Or.inr ⟨b, hb, hw.symm, fun d hd hdw => ?_⟩
        exact absurd (List.mem_map.mpr ⟨d, hd, hdw.trans hw⟩) hs
  · intro b hb
    obtain ⟨hb, hs⟩ := h.mem_inactive.mp hb
    exact liveIn_pos.mp (h.blocks.used b hb hs)
  · intro b hb
    obtain ⟨hb, hs⟩ := h.mem_inactive.mp hb
    have hcount := (h.blocks.counts b (Blocks.mem_known_of_inactive hb)).1
    rwa [if_neg hs] at hcount
  · intro e he
    have hcount := (h.blocks.counts _ (Blocks.mem_known_of_inactive (h.blocks.parked e he))).1
    have hs : e.saved.block.start ∈ starts s.stack := List.mem_map.mpr ⟨e, he, rfl⟩
    rwa [if_pos hs] at hcount

/-- what `restoreAllocationBlock` gives back -/
theorem Ok.restored (h : s.Ok) {e : Suspended} {rest : List Suspended}
    (hs : s.stack = e :: rest) (he : s.step .restoreAllocationBlock = some t) :
    t.alloc.myState = e.saved ∧ t.alloc.policy = e.policy ∧
      t.alloc.refCount e.saved.activeRAM + e.freed = e.count := by
  have ht : t = ⟨s.alloc.restoreAllocationBlock e.saved, rest, s.kept⟩ := by
    simp only [Session.step, hs] at he
    exact (Option.some.inj he).symm
  have hmem : e ∈ s.stack := by
    rw [hs]
    exact List.mem_cons_self
  have hok := h.restore hs
  rw [← ht] at hok
  subst ht
  refine ⟨rfl, ?_, ?_⟩
  · rw [h.policies e hmem]
    exact Allocator.leave_policy s.alloc
  · have hfreed := h.leave.freed e hmem
    have hcount : (s.alloc.restoreAllocationBlock e.saved).refCount e.saved.activeRAM =
        liveIn s.kept e.saved.activeRAM := hok.count.1
    rw [hcount]
    exact hfreed

/-! ## whole runs -/

theorem create_eq {p : Nat} {lastUsed refCount chunkSize : Nat → Nat} {a : Allocator}
    (h : Allocator.create p lastUsed refCount chunkSize = some a) :
    p ≠ 0 ∧ a = ⟨⟨p, 1024, true, false, fun _ => []⟩, [], .defaultAllocator,
      Function.update lastUsed p headerSize, Function.update refCount p 0, chunkSize, [p],
      false⟩ := by
  unfold Allocator.create Allocator.setupBlock at h
  split at h
  · cases h
  split at h
  · cases h
  next hp =>
  cases h
  exact ⟨hp, rfl⟩

theorem ok_create {p : Nat} {lastUsed refCount chunkSize : Nat → Nat} {a : Allocator}
    {pol : AllocatorPolicy} (hpol : pol.Counts)
    (h : Allocator.create p lastUsed refCount chunkSize = some a) :
    Ok ⟨a.setPolicy pol, [], []⟩ := by
  obtain ⟨hp, rfl⟩ := create_eq h
  have hfresh : Blocks [] ⟨⟨0, 0, true, false, fun _ => []⟩, [], pol, lastUsed, refCount,
      chunkSize, [], false⟩ [] [] := by
    refine ⟨List.Pairwise.nil, List.Pairwise.nil, ?_, ?_, List.nodup_nil, ?_, ?_, ?_, ?_, ?_, ?_,
      List.nodup_nil, ?_, rfl⟩
    all_goals simp [knownBlocks]
  refine ⟨?_, chunksIn_nil _ _ _ _, hpol, by simp⟩
  exact hfresh.install ⟨p, p + 1024⟩ false (by simp) hp
    (Nat.add_le_add_left (by decide) _) rfl rfl rfl rfl rfl

end Session

/-- **The life of the blocks over whole runs.**  From the constructor on, any run whose steps are
all `Fine` keeps the books right, and `restoreAllocationBlock` gives back what the matching call
suspended: the state, the policy, and the reference count less the objects freed since. -/
theorem lifecycle_of_reach (p : Nat) (lastUsed refCount chunkSize : Nat → Nat) (a : Allocator)
    (pol : AllocatorPolicy) (t : Session) (hpol : pol.Counts)
    (h : Allocator.create p lastUsed refCount chunkSize = some a)
    (hr : Reach Session.step Session.Fine ⟨a.setPolicy pol, [], []⟩ t) :
    Lifecycle t ∧ ∀ e rest u, t.stack = e :: rest →
      t.step .restoreAllocationBlock = some u →
      u.alloc.myState = e.saved ∧ u.alloc.policy = e.policy ∧
        u.alloc.refCount e.saved.activeRAM + e.freed = e.count := by
  have hok := hr.inv (P := Session.Ok) (Session.ok_create hpol h)
    fun _ _ _ hP hcond hstep => hP.step hcond hstep
  exact ⟨hok.lifecycle, fun e rest u hs he => hok.restored hs he⟩

/-- a nested block that outlives its own `restoreAllocationBlock` until its object is freed -/
theorem lifecycle_nested : ∃ a t, Allocator.create 1000 (fun _ => 0) (fun _ => 0) (fun _ => 0) =
    some a ∧ Reach Session.step Session.Fine ⟨a.setPolicy .defaultAllocator, [], []⟩ t ∧
    t.alloc.heap = [1000] ∧ t.live = [⟨1040, 1000⟩] ∧ Lifecycle t := by
  obtain ⟨a, ha⟩ : ∃ a, Allocator.create 1000 (fun _ => 0) (fun _ => 0) (fun _ => 0) = some a :=
    ⟨_, rfl⟩
  have hrun : ((some a).bind fun a => (run (guarded Session.step Session.Fine)
      ⟨a.setPolicy .defaultAllocator, [], []⟩
      [.getRAM 10, .temporarilyUseNewBlockForAllocations 5000 100, .getRAM 4,
        .freeRAM ⟨1024, 1000⟩, .restoreAllocationBlock, .getRAM 4, .freeRAM ⟨5024, 5000⟩]).map
      fun t => (t.alloc.heap, t.live)) = some ([1000], [⟨1040, 1000⟩]) := by
    rw [← ha]
    decide
  obtain ⟨t, ht, hobs⟩ := Option.map_eq_some_iff.mp hrun
  have hr := Reach.of_run _ ht
  obtain ⟨hheap, hlive⟩ := Prod.mk.inj hobs
  exact ⟨a, t, ha, hr, hheap, hlive,
    (lifecycle_of_reach _ _ _ _ _ .defaultAllocator _ (by decide) ha hr).1⟩

/-- an empty object that ends the active block is not counted down when it is freed, and the block
stays in the list of inactive blocks for good -/
theorem lifecycle_not_always :
    ¬ ∀ (p : Nat) (lastUsed refCount chunkSize : Nat → Nat) (a : Allocator)
      (pol : AllocatorPolicy) (ops : List SessionOp) (t : Session), pol.Counts →
      Allocator.create p lastUsed refCount chunkSize = some a →
      run Session.step ⟨a.setPolicy pol, [], []⟩ ops = some t → Lifecycle t := by
  intro h
  obtain ⟨a, ha⟩ : ∃ a, Allocator.create 1000 (fun _ => 0) (fun _ => 0) (fun _ => 0) = some a :=
    ⟨_, rfl⟩
  have hrun : ((some a).bind fun a => (run Session.step ⟨a.setPolicy .defaultAllocator, [], []⟩
      [.getRAM 996, .getRAM 0, .freeRAM ⟨1024, 1000⟩, .freeRAM ⟨2024, 1000⟩,
        .setupBlock 5000 100 true]).map fun t => (t.inactive, t.live)) =
      some ([⟨1000, 2024⟩], []) := by
    rw [← ha]
    decide
  obtain ⟨t, ht, hobs⟩ := Option.map_eq_some_iff.mp hrun
  obtain ⟨hinactive, hlive⟩ := Prod.mk.inj hobs
  have hlife := h _ _ _ _ _ .defaultAllocator _ t (by decide) ha ht
  obtain ⟨o, ho, -⟩ := hlife.inactive_live ⟨1000, 2024⟩ (by rw [hinactive]; decide)
  rw [hlive] at ho
  cases ho

end Netsdb
