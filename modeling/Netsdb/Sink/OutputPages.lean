import Netsdb.Lib.Reach
import Mathlib.Data.List.Range
import Mathlib.Data.List.Nodup

/-!
# The output pages of a pipeline (`Pipeline.h`)

`run` keeps a page that has run out of space in a queue, with the number of the iteration, and
`cleanPages` hands over the pages that are `delay` iterations old; the destructor hands over the
rest.  An iteration ends with every `NotEnoughSpace`, not with every chunk.

* `PipelineRun.step`      `run` and the destructor, between two calls that may run out of space;
* `Protocol`              what is promised of the pages;
* `protocol_of_reach`     it holds of every run in which no chunk runs out of space more than
  `delay` times and every container made on a new page fits on it.
-/

namespace Netsdb

/-- a page, by its number in the order in which `getNewPage` gives them; `outputSink`: there is an
output container on it -/
structure MemoryHolder where
  page : Nat
  outputSink : Bool
  iteration : Nat
deriving DecidableEq

inductive Handover
  | writeBackPage
  | discardPage
deriving DecidableEq

/-- `DELAY_VALUE` -/
def delay : Nat := 4

/-- the iteration with which the destructor cleans -/
def lastIteration : Nat := 999999999

/-- `creates`: for which pages without a container `createNewOutputContainer` succeeds.  What is
handed over, what stays, and whether the call ends by an exception -/
def cleanPages (creates : Nat → Bool) (iteration : Nat) :
    List MemoryHolder → List (Nat × Handover) × List MemoryHolder × Bool
  | [] => ([], [], false)
  | h :: unwrittenPages =>
    if iteration > h.iteration + delay then
      if h.outputSink then
        let r := cleanPages creates iteration unwrittenPages
        ((h.page, .writeBackPage) :: r.1, r.2)
      else if creates h.page then
        let r := cleanPages creates iteration unwrittenPages
        ((h.page, .discardPage) :: r.1, r.2)
      else ([], h :: unwrittenPages, true)
    else ([], h :: unwrittenPages, false)

/-- where `run` is: before a call, before the call that repeats one, or behind its end -/
inductive Place
  | source
  | sourceAgain
  | stage (k : Nat)
  | stageAgain (k : Nat)
  | writeOut
  | returned
  /-- an exception has left `run` -/
  | threw
  /-- the process has ended -/
  | exited
  | destroyed
deriving DecidableEq

/-- a page handed over; `inUse`: the chunk that is being processed may refer to it -/
structure Handed where
  page : Nat
  how : Handover
  inUse : Bool
deriving DecidableEq

/-- the variables of `run`, and below them what is needed to speak about the pages -/
structure PipelineRun where
  unwrittenPages : List MemoryHolder
  myRAM : Option MemoryHolder
  iteration : Nat
  place : Place
  /-- how many pages `getNewPage` has given -/
  obtained : Nat
  handed : List Handed
  /-- the pages that have been current since the chunk was asked for -/
  chunkPages : List Nat
  /-- the pages on which an output container has been made -/
  holding : List Nat
deriving DecidableEq

/-- what happens when a call has run out of space -/
structure NoSpace where
  /-- `createNewOutputContainer` in `cleanPages` -/
  creates : Nat → Bool
  /-- `getNewPage` has a page; the process ends in `setupBlock` if not -/
  page : Bool
  /-- `createNewOutputContainer` on that page -/
  container : Bool

inductive RunOp
  /-- the call returns -/
  | ok
  /-- `getNextTupleSet` has no more chunks -/
  | noMore
  /-- the call runs out of space; `made`: before `writeOut` does, a container has been made -/
  | noSpace (made : Bool) (e : NoSpace)
  | destroy (creates : Nat → Bool)

namespace PipelineRun

/-- no page has been obtained -/
def start : PipelineRun :=
  { unwrittenPages := [], myRAM := none, iteration := 0, place := .source, obtained := 0
    handed := [], chunkPages := [], holding := [] }

/-- a page without a container -/
def newPage (s : PipelineRun) : PipelineRun :=
  { s with
    myRAM := some { page := s.obtained, outputSink := false, iteration := 0 }
    obtained := s.obtained + 1
    chunkPages := s.chunkPages ++ [s.obtained] }

/-- `createNewOutputContainer` for the current page -/
def createContainer (s : PipelineRun) (m : MemoryHolder) : PipelineRun :=
  { s with myRAM := some { m with outputSink := true }, holding := s.holding ++ [m.page] }

/-- the current page goes into the queue -/
def setAside (s : PipelineRun) (m : MemoryHolder) : PipelineRun :=
  { s with
    unwrittenPages := s.unwrittenPages ++ [{ m with iteration := s.iteration }]
    myRAM := none
    iteration := s.iteration + 1 }

/-- `cleanPages`, with a note for each page whether the chunk may refer to it -/
def clean (s : PipelineRun) (creates : Nat → Bool) (iteration : Nat) (chunkPages : List Nat) :
    PipelineRun :=
  let r := cleanPages creates iteration s.unwrittenPages
  { s with
    unwrittenPages := r.2.1
    handed := s.handed ++ r.1.map fun e => ⟨e.1, e.2, decide (e.1 ∈ chunkPages)⟩
    place := if r.2.2 then .threw else s.place }

/-- the handlers of `NotEnoughSpace`; the ones around the source and the stages make a container on
the new page, outside of any `try` -/
def turnPage (s : PipelineRun) (m : MemoryHolder) (container : Bool) (next : Place) (e : NoSpace) :
    PipelineRun :=
  let s := (s.setAside m).clean e.creates (s.iteration + 1) s.chunkPages
  if s.place = .threw then s
  else if !e.page then { s with place := .exited }
  else
    let page : MemoryHolder := { page := s.obtained, outputSink := false, iteration := 0 }
    let s := s.newPage
    if !container then { s with place := next }
    else if e.container then { s.createContainer page with place := next }
    -- the page is in no queue when the exception leaves `run`
    else { s with myRAM := none, place := .threw }

/-- `run` up to its loop; `container`: the first container fits on the first page -/
def enter (container : Bool) : PipelineRun :=
  let page : MemoryHolder := { page := 0, outputSink := false, iteration := 0 }
  if container then start.newPage.createContainer page
  else { start.newPage with myRAM := none, place := .threw }

/-- the first stage, or `writeOut` when there is none behind -/
def stageFrom (stages k : Nat) : Place := if k < stages then .stage k else .writeOut

/-- the end of `run` -/
def finish (s : PipelineRun) (m : MemoryHolder) : PipelineRun :=
  { s.setAside m with place := .returned }

/-- the destructor turns the queue around and cleans it; no chunk is processed any more, and an
exception that leaves a destructor ends the process -/
def destroy (s : PipelineRun) (creates : Nat → Bool) : PipelineRun :=
  let r := cleanPages creates lastIteration s.unwrittenPages.reverse
  { s with
    unwrittenPages := r.2.1
    handed := s.handed ++ r.1.map fun e => ⟨e.1, e.2, false⟩
    place := if r.2.2 then .exited else .destroyed }

/-- `stages`: the length of the pipeline -/
def step (stages : Nat) (s : PipelineRun) (op : RunOp) : Option PipelineRun :=
  match s.place, s.myRAM, op with
  | .source, some m, .noSpace _ e => some (s.turnPage m true .sourceAgain e)
  | .source, some _, .ok => some { s with place := stageFrom stages 0 }
  | .source, some m, .noMore => some (s.finish m)
  | .sourceAgain, some _, .noSpace _ _ => some { s with place := .exited }
  | .sourceAgain, some _, .ok => some { s with place := stageFrom stages 0 }
  | .sourceAgain, some m, .noMore => some (s.finish m)
  | .stage k, some m, .noSpace _ e => some (s.turnPage m true (.stageAgain k) e)
  | .stage k, some _, .ok => some { s with place := stageFrom stages (k + 1) }
  | .stageAgain _, some _, .noSpace _ _ => some { s with place := .exited }
  | .stageAgain k, some _, .ok => some { s with place := stageFrom stages (k + 1) }
  | .writeOut, some m, .noSpace made e =>
    if made && !m.outputSink then
      some ((s.createContainer m).turnPage { m with outputSink := true } false .writeOut e)
    else some (s.turnPage m false .writeOut e)
  | .writeOut, some m, .ok =>
    let s := if m.outputSink then s else s.createContainer m
    -- the next chunk is asked for while this page is the current one
    some { s with place := .source, chunkPages := [m.page] }
  | .returned, _, .destroy creates => some (s.destroy creates)
  | .threw, _, .destroy creates => some (s.destroy creates)
  | _, _, _ => none

/-! ## What is promised -/

structure Protocol (s : PipelineRun) : Prop where
  /-- no page is handed over twice -/
  once : (s.handed.map (·.page)).Nodup
  obtained : ∀ e ∈ s.handed, e.page < s.obtained
  /-- when the pipeline is gone, every page has been handed over -/
  all : s.place = .destroyed → ∀ p < s.obtained, ∃ e ∈ s.handed, e.page = p
  notInUse : ∀ e ∈ s.handed, e.inUse = false
  /-- a page is written back if it holds output, and else discarded -/
  written : ∀ e ∈ s.handed, e.how = .writeBackPage ↔ e.page ∈ s.holding

/-- one more page can be turned in this chunk, and in this run -/
def Room (s : PipelineRun) : Prop :=
  s.chunkPages.length ≤ delay ∧ s.iteration + 1 + delay < lastIteration

instance (s : PipelineRun) : Decidable s.Room := inferInstanceAs (Decidable (_ ∧ _))

/-- a chunk runs out of space at most `delay` times, the run fewer than `lastIteration - delay` times,
and a container that is made on a new page outside of the `try` fits on it -/
def Sparing (s : PipelineRun) : RunOp → Prop
  | .noSpace _ e =>
    match s.place with
    | .source => s.Room ∧ e.container = true
    | .stage _ => s.Room ∧ e.container = true
    | .writeOut => s.Room
    | _ => True
  | _ => True

/-! ## The invariant -/

/-- the pages stand in the order in which they were obtained, each with its own iteration -/
structure Live (s : PipelineRun) : Prop where
  order : s.handed.map (·.page) ++ (s.unwrittenPages.map (·.page) ++ s.myRAM.toList.map (·.page))
    = List.range s.obtained
  number : ∀ h ∈ s.unwrittenPages, h.iteration = h.page
  current : ∀ m, s.myRAM = some m → m.page = s.iteration
  count : s.iteration + s.myRAM.toList.length = s.obtained
  few : s.obtained + delay ≤ lastIteration
  chunk : ∀ p ∈ s.chunkPages, s.obtained ≤ p + s.chunkPages.length
  queued : ∀ h ∈ s.unwrittenPages, h.outputSink = true ↔ h.page ∈ s.holding
  ram : ∀ m, s.myRAM = some m → (m.outputSink = true ↔ m.page ∈ s.holding)
  held : ∀ p ∈ s.holding, p < s.obtained
  notInUse : ∀ e ∈ s.handed, e.inUse = false
  written : ∀ e ∈ s.handed, e.how = .writeBackPage ↔ e.page ∈ s.holding

/-- what `cleanPages` does: it hands over a first part of the queue, every page of it old enough -/
theorem cleanPages_spec (creates : Nat → Bool) (iteration : Nat) (q : List MemoryHolder) :
    (cleanPages creates iteration q).1.map (·.1) ++ (cleanPages creates iteration q).2.1.map (·.page)
        = q.map (·.page) ∧
      (∀ h ∈ (cleanPages creates iteration q).2.1, h ∈ q) ∧
      (∀ e ∈ (cleanPages creates iteration q).1, ∃ h ∈ q, h.page = e.1 ∧
        iteration > h.iteration + delay ∧ (e.2 = .writeBackPage ↔ h.outputSink = true)) ∧
      ((cleanPages creates iteration q).2.2 = false → (∀ h ∈ q, iteration > h.iteration + delay) →
        (cleanPages creates iteration q).2.1 = []) := by
  induction q with
  | nil => simp [cleanPages]
  | cons h q ih =>
    obtain ⟨h1, h2, h3, h4⟩ := ih
    have hfull : ∀ how, (how = .writeBackPage ↔ h.outputSink = true) →
        iteration > h.iteration + delay →
        ∀ e ∈ (h.page, how) :: (cleanPages creates iteration q).1, ∃ h' ∈ h :: q, h'.page = e.1 ∧
          iteration > h'.iteration + delay ∧ (e.2 = .writeBackPage ↔ h'.outputSink = true) := by
      intro how hhow hold e he
      rcases List.mem_cons.mp he with rfl | he
      · exact ⟨h, List.mem_cons_self, rfl, hold, hhow⟩
      · obtain ⟨h', hh', hp⟩ := h3 e he
        exact ⟨h', List.mem_cons_of_mem h hh', hp⟩
    unfold cleanPages
    split_ifs with hold hsink hcreate
    · refine ⟨by simp [h1], fun x hx => List.mem_cons_of_mem h (h2 x hx),
        hfull .writeBackPage (by simp [hsink]) hold, fun ht hall => ?_⟩
      exact h4 ht fun x hx => hall x (List.mem_cons_of_mem h hx)
    · refine ⟨by simp [h1], fun x hx => List.mem_cons_of_mem h (h2 x hx),
        hfull .discardPage (by simp [hsink]) hold, fun ht hall => ?_⟩
      exact h4 ht fun x hx => hall x (List.mem_cons_of_mem h hx)
    · exact ⟨rfl, fun x hx => hx, fun e he => absurd he List.not_mem_nil, fun ht => by cases ht⟩
    · exact ⟨rfl, fun x hx => hx, fun e he => absurd he List.not_mem_nil,
        fun _ hall => absurd (hall h List.mem_cons_self) hold⟩

section
variable {s : PipelineRun} {m : MemoryHolder}

/-- where `run` stands does not matter -/
theorem Live.goto (h : Live s) (place : Place) : Live { s with place } :=
  ⟨h.order, h.number, h.current, h.count, h.few, h.chunk, h.queued, h.ram, h.held, h.notInUse,
    h.written⟩

theorem Live.count_some (h : Live s) (hm : s.myRAM = some m) : s.iteration + 1 = s.obtained := by
  have hc := h.count
  rwa [hm] at hc

theorem Live.count_none (h : Live s) (hm : s.myRAM = none) : s.iteration = s.obtained := by
  have hc := h.count
  rwa [hm] at hc

theorem start_live : Live start where
  order := rfl
  number := fun h hh => absurd hh List.not_mem_nil
  current := fun m hm => by cases hm
  count := rfl
  few := by decide
  chunk := fun p hp => absurd hp List.not_mem_nil
  queued := fun h hh => absurd hh List.not_mem_nil
  ram := fun m hm => by cases hm
  held := fun p hp => absurd hp List.not_mem_nil
  notInUse := fun e he => absurd he List.not_mem_nil
  written := fun e he => absurd he List.not_mem_nil

/-- every page is known by its number -/
theorem Live.lt_obtained (h : Live s) :
    (∀ e ∈ s.handed, e.page < s.obtained) ∧ (∀ x ∈ s.unwrittenPages, x.page < s.obtained) := by
  have hmem : ∀ p ∈ s.handed.map (·.page) ++ (s.unwrittenPages.map (·.page) ++
      s.myRAM.toList.map (·.page)), p < s.obtained := by
    rw [h.order]
    exact fun p hp => List.mem_range.mp hp
  constructor
  · intro e he
    exact hmem e.page (List.mem_append_left _ (List.mem_map_of_mem he))
  · intro x hx
    exact hmem x.page (List.mem_append_right _ (List.mem_append_left _ (List.mem_map_of_mem hx)))

/-- the current page is neither handed over nor in the queue -/
theorem Live.current_ne (h : Live s) (hm : s.myRAM = some m) :
    (∀ e ∈ s.handed, e.page ≠ m.page) ∧ ∀ x ∈ s.unwrittenPages, x.page ≠ m.page := by
  have hnd : (s.handed.map (·.page) ++ (s.unwrittenPages.map (·.page) ++
      s.myRAM.toList.map (·.page))).Nodup := by
    rw [h.order]
    exact List.nodup_range
  rw [hm, ← List.append_assoc] at hnd
  have hne := (List.nodup_append.mp hnd).2.2
  constructor
  · intro e he
    exact hne e.page (List.mem_append_left _ (List.mem_map_of_mem he)) m.page
      (List.mem_singleton.mpr rfl)
  · intro x hx
    exact hne x.page (List.mem_append_right _ (List.mem_map_of_mem hx)) m.page
      (List.mem_singleton.mpr rfl)

theorem Live.newPage (h : Live s) (hm : s.myRAM = none) (hfew : s.obtained + 1 + delay ≤ lastIteration) :
    Live s.newPage := by
  have hc := h.count_none hm
  have hord := h.order
  rw [hm] at hord
  refine ⟨?_, h.number, ?_, ?_, hfew, ?_, h.queued, ?_, ?_, h.notInUse, h.written⟩
  · show s.handed.map (·.page) ++ (s.unwrittenPages.map (·.page) ++ [s.obtained])
      = List.range (s.obtained + 1)
    rw [List.range_succ, ← hord]
    simp
  · intro m' hm'
    cases hm'
    exact hc.symm
  · show s.iteration + 1 = s.obtained + 1
    rw [hc]
  · intro p hp
    have hlen : (s.chunkPages ++ [s.obtained]).length = s.chunkPages.length + 1 :=
      List.length_append
    show s.obtained + 1 ≤ p + (s.chunkPages ++ [s.obtained]).length
    rcases List.mem_append.mp hp with hp | hp
    · have := h.chunk p hp
      omega
    · rw [List.mem_singleton.mp hp]
      omega
  · intro m' hm'
    cases hm'
    show false = true ↔ s.obtained ∈ s.holding
    exact iff_of_false Bool.false_ne_true fun hh => lt_irrefl _ (h.held _ hh)
  · intro p hp
    exact Nat.lt_succ_of_lt (h.held p hp)

theorem Live.createContainer (h : Live s) (hm : s.myRAM = some m) : Live (s.createContainer m) := by
  obtain ⟨hne, hne'⟩ := h.current_ne hm
  have hcount := h.count_some hm
  have hold : ∀ p, p ≠ m.page → (p ∈ s.holding ++ [m.page] ↔ p ∈ s.holding) := by
    intro p hp
    rw [List.mem_append, List.mem_singleton]
    exact or_iff_left hp
  refine ⟨?_, h.number, ?_, hcount, h.few, h.chunk, ?_, ?_, ?_, h.notInUse, ?_⟩
  · have hord := h.order
    rw [hm] at hord
    exact hord
  · intro m' hm'
    cases hm'
    exact h.current m hm
  · intro x hx
    rw [show (s.createContainer m).holding = s.holding ++ [m.page] from rfl, hold _ (hne' x hx)]
    exact h.queued x hx
  · intro m' hm'
    cases hm'
    exact ⟨fun _ => List.mem_append_right _ (List.mem_singleton.mpr rfl), fun _ => rfl⟩
  · intro p hp
    rcases List.mem_append.mp hp with hp | hp
    · exact h.held p hp
    · rw [List.mem_singleton.mp hp]
      have := h.current m hm
      show m.page < s.obtained
      omega
  · intro e he
    rw [show (s.createContainer m).holding = s.holding ++ [m.page] from rfl, hold _ (hne e he)]
    exact h.written e he

theorem Live.setAside (h : Live s) (hm : s.myRAM = some m) : Live (s.setAside m) := by
  have hcount := h.count_some hm
  have hcur := h.current m hm
  refine ⟨?_, ?_, ?_, hcount, h.few, h.chunk, ?_, ?_, h.held, h.notInUse, h.written⟩
  · have hord := h.order
    rw [hm] at hord
    refine Eq.trans ?_ hord
    simp [PipelineRun.setAside]
  · intro x hx
    rcases List.mem_append.mp hx with hx | hx
    · exact h.number x hx
    · rw [List.mem_singleton.mp hx]
      exact hcur.symm
  · intro m' hm'
    cases hm'
  · intro x hx
    rcases List.mem_append.mp hx with hx | hx
    · exact h.queued x hx
    · rw [List.mem_singleton.mp hx]
      exact h.ram m hm
  · intro m' hm'
    cases hm'

/-- **The delay is enough**: the pages that are cleaned are older than the chunk. -/
theorem Live.clean (h : Live s) (hm : s.myRAM = none) (hlen : s.chunkPages.length ≤ delay)
    (creates : Nat → Bool) : Live (s.clean creates s.iteration s.chunkPages) := by
  obtain ⟨hperm, hsub, hout, -⟩ := cleanPages_spec creates s.iteration s.unwrittenPages
  have hc := h.count_none hm
  refine ⟨?_, fun x hx => h.number x (hsub x hx), h.current, h.count, h.few, h.chunk,
    fun x hx => h.queued x (hsub x hx), h.ram, h.held, ?_, ?_⟩
  · refine Eq.trans ?_ h.order
    rw [← hperm]
    simp [PipelineRun.clean, Function.comp_def]
  · intro e he
    rcases List.mem_append.mp he with he | he
    · exact h.notInUse e he
    · obtain ⟨x, hx, rfl⟩ := List.mem_map.mp he
      obtain ⟨y, hy, hyx, hold, -⟩ := hout x hx
      have hn := h.number y hy
      show decide (x.1 ∈ s.chunkPages) = false
      rw [decide_eq_false_iff_not]
      intro hmem
      have := h.chunk x.1 hmem
      omega
  · intro e he
    rcases List.mem_append.mp he with he | he
    · exact h.written e he
    · obtain ⟨x, hx, rfl⟩ := List.mem_map.mp he
      obtain ⟨y, hy, hyx, -, hhow⟩ := hout x hx
      show x.2 = .writeBackPage ↔ x.1 ∈ s.holding
      rw [hhow, ← hyx]
      exact h.queued y hy

/-! ## Steps -/

/-- what every state of a run has -/
structure Safe (s : PipelineRun) : Prop where
  protocol : Protocol s
  live : s.place ≠ .destroyed → s.place ≠ .exited → Live s
  /-- when `run` is over, no page is current -/
  ended : s.place = .returned ∨ s.place = .threw → s.myRAM = none

theorem Live.safe (h : Live s) (hd : s.place ≠ .destroyed)
    (hended : s.place = .returned ∨ s.place = .threw → s.myRAM = none) : Safe s where
  protocol := by
    refine ⟨?_, h.lt_obtained.1, fun e => absurd e hd, h.notInUse, h.written⟩
    have hnd : (s.handed.map (·.page) ++ (s.unwrittenPages.map (·.page) ++
        s.myRAM.toList.map (·.page))).Nodup := by
      rw [h.order]
      exact List.nodup_range
    exact hnd.of_append_left
  live := fun _ _ => h
  ended := hended

/-- `run` goes on at a place -/
theorem Live.safe_goto (h : Live s) (place : Place) (hd : place ≠ .destroyed)
    (hr : place ≠ .returned) (ht : place ≠ .threw) : Safe { s with place } :=
  (h.goto place).safe hd fun e => (Or.elim e hr ht).elim

theorem turnPage_safe (h : Live s) (hm : s.myRAM = some m) (hroom : s.Room) {container : Bool}
    {next : Place} {e : NoSpace} (hcont : container = true → e.container = true)
    (hd : next ≠ .destroyed) (hr : next ≠ .returned) (ht : next ≠ .threw) :
    Safe (s.turnPage m container next e) := by
  obtain ⟨hlen, hiter⟩ := hroom
  have hcount := h.count_some hm
  have hclean : Live ((s.setAside m).clean e.creates (s.iteration + 1) s.chunkPages) :=
    (h.setAside hm).clean rfl hlen e.creates
  unfold turnPage
  dsimp only
  split_ifs with hthrew hpage hno hfits
  · exact hclean.safe (by rw [hthrew]; decide) fun _ => rfl
  · exact (hclean.goto .exited).safe nofun fun _ => rfl
  · have hnew := hclean.newPage rfl (by show s.obtained + 1 + delay ≤ lastIteration; omega)
    exact hnew.safe_goto _ hd hr ht
  · have hnew := hclean.newPage rfl (by show s.obtained + 1 + delay ≤ lastIteration; omega)
    exact (hnew.createContainer rfl).safe_goto _ hd hr ht
  · exact absurd (hcont (by simpa using hno)) hfits

theorem stageFrom_ne (stages k : Nat) : stageFrom stages k ≠ .destroyed ∧
    stageFrom stages k ≠ .returned ∧ stageFrom stages k ≠ .threw := by
  unfold stageFrom
  split_ifs <;> exact ⟨nofun, nofun, nofun⟩

theorem finish_safe (h : Live s) (hm : s.myRAM = some m) : Safe (s.finish m) :=
  ((h.setAside hm).goto .returned).safe nofun fun _ => rfl

/-- a chunk is done, and the next one is asked for -/
theorem Live.nextChunk (h : Live s) (hm : s.myRAM = some m) :
    Live { s with chunkPages := [m.page] } := by
  have hcount := h.count_some hm
  have hcur := h.current m hm
  refine ⟨h.order, h.number, h.current, h.count, h.few, ?_, h.queued, h.ram, h.held, h.notInUse,
    h.written⟩
  intro p hp
  rw [List.mem_singleton.mp hp]
  show s.obtained ≤ m.page + 1
  omega

/-- **The destructor hands over what is left.** -/
theorem destroy_protocol (h : Live s) (hm : s.myRAM = none) (creates : Nat → Bool) :
    Protocol (s.destroy creates) := by
  obtain ⟨hperm, -, hout, hempty⟩ := cleanPages_spec creates lastIteration s.unwrittenPages.reverse
  have hord := h.order
  rw [hm, Option.toList_none, List.map_nil, List.append_nil] at hord
  have hhanded : (s.destroy creates).handed.map (·.page) = s.handed.map (·.page) ++
      (cleanPages creates lastIteration s.unwrittenPages.reverse).1.map (·.1) := by
    simp [destroy, Function.comp_def]
  have hqueue : (s.destroy creates).unwrittenPages =
      (cleanPages creates lastIteration s.unwrittenPages.reverse).2.1 := rfl
  -- what has been handed over and what has not are the pages, in some order
  have hall : ((s.destroy creates).handed.map (·.page) ++
      (s.destroy creates).unwrittenPages.map (·.page)).Perm (List.range s.obtained) := by
    rw [hhanded, hqueue, List.append_assoc, hperm, ← hord, List.map_reverse]
    exact (List.reverse_perm _).append_left _
  have hold : ∀ x ∈ s.unwrittenPages.reverse, lastIteration > x.iteration + delay := by
    intro x hx
    have hx' := List.mem_reverse.mp hx
    have hlt := h.lt_obtained.2 x hx'
    have hfew := h.few
    rw [h.number x hx']
    omega
  refine ⟨(hall.nodup_iff.mpr List.nodup_range).of_append_left, ?_, ?_, ?_, ?_⟩
  · intro e he
    have hmem := List.mem_append_left ((s.destroy creates).unwrittenPages.map (·.page))
      (List.mem_map_of_mem (f := (·.page)) he)
    exact List.mem_range.mp (hall.mem_iff.mp hmem)
  · intro hplace p hp
    have hthrew : (cleanPages creates lastIteration s.unwrittenPages.reverse).2.2 = false := by
      cases ht : (cleanPages creates lastIteration s.unwrittenPages.reverse).2.2
      · rfl
      · simp [destroy, ht] at hplace
    have hnil : (s.destroy creates).unwrittenPages = [] := hempty hthrew hold
    rw [hnil, List.map_nil, List.append_nil] at hall
    exact List.mem_map.mp (hall.mem_iff.mpr (List.mem_range.mpr hp))
  · intro e he
    rcases List.mem_append.mp he with he | he
    · exact h.notInUse e he
    · obtain ⟨x, -, rfl⟩ := List.mem_map.mp he
      rfl
  · intro e he
    rcases List.mem_append.mp he with he | he
    · exact h.written e he
    · obtain ⟨x, hx, rfl⟩ := List.mem_map.mp he
      obtain ⟨y, hy, hyx, -, hhow⟩ := hout x hx
      show x.2 = .writeBackPage ↔ x.1 ∈ s.holding
      rw [hhow, ← hyx]
      exact h.queued y (List.mem_reverse.mp hy)

theorem destroy_safe (h : Live s) (hm : s.myRAM = none) (creates : Nat → Bool) :
    Safe (s.destroy creates) := by
  refine ⟨destroy_protocol h hm creates, fun hd he => ?_, fun _ => hm⟩
  have hplace : (s.destroy creates).place = .exited ∨ (s.destroy creates).place = .destroyed := by
    simp only [destroy]
    split_ifs <;> simp
  exact (hplace.elim he hd).elim

theorem enter_safe : Safe (enter true) := by
  have hnew : Live start.newPage := start_live.newPage rfl (by decide)
  exact (hnew.createContainer rfl).safe_goto .source nofun nofun nofun

/-- **One step.** -/
theorem step_safe {stages : Nat} {op : RunOp} {s' : PipelineRun} (h : Safe s) (hc : s.Sparing op)
    (hs : s.step stages op = some s') : Safe s' := by
  have hlive : ∀ place, s.place = place → place ≠ .destroyed → place ≠ .exited → Live s :=
    fun place e hd he => h.live (e ▸ hd) (e ▸ he)
  unfold step at hs
  split at hs
  · next m e hplace hm =>
    cases hs
    simp only [Sparing, hplace] at hc
    exact turnPage_safe (hlive _ hplace nofun nofun) hm hc.1 (fun _ => hc.2) nofun nofun nofun
  · next hplace hm =>
    cases hs
    obtain ⟨hd, hr, ht⟩ := stageFrom_ne stages 0
    exact (hlive _ hplace nofun nofun).safe_goto _ hd hr ht
  · next m hplace hm =>
    cases hs
    exact finish_safe (hlive _ hplace nofun nofun) hm
  · next hplace hm =>
    cases hs
    exact (hlive _ hplace nofun nofun).safe_goto _ nofun nofun nofun
  · next hplace hm =>
    cases hs
    obtain ⟨hd, hr, ht⟩ := stageFrom_ne stages 0
    exact (hlive _ hplace nofun nofun).safe_goto _ hd hr ht
  · next m hplace hm =>
    cases hs
    exact finish_safe (hlive _ hplace nofun nofun) hm
  · next k m e hplace hm =>
    cases hs
    simp only [Sparing, hplace] at hc
    exact turnPage_safe (hlive _ hplace nofun nofun) hm hc.1 (fun _ => hc.2) nofun nofun nofun
  · next k _ hplace hm =>
    cases hs
    obtain ⟨hd, hr, ht⟩ := stageFrom_ne stages (k + 1)
    exact (hlive _ hplace nofun nofun).safe_goto _ hd hr ht
  · next hplace hm =>
    cases hs
    exact (hlive _ hplace nofun nofun).safe_goto _ nofun nofun nofun
  · next k _ hplace hm =>
    cases hs
    obtain ⟨hd, hr, ht⟩ := stageFrom_ne stages (k + 1)
    exact (hlive _ hplace nofun nofun).safe_goto _ hd hr ht
  · next m made e hplace hm =>
    have hl := hlive _ hplace nofun nofun
    simp only [Sparing, hplace] at hc
    split at hs
    · cases hs
      exact turnPage_safe (hl.createContainer hm) rfl hc nofun nofun nofun nofun
    · cases hs
      exact turnPage_safe hl hm hc nofun nofun nofun nofun
  · next m hplace hm =>
    have hl := hlive _ hplace nofun nofun
    cases hs
    split
    · exact (hl.nextChunk hm).safe_goto _ nofun nofun nofun
    · exact ((hl.createContainer hm).nextChunk rfl).safe_goto _ nofun nofun nofun
  · next creates hplace =>
    cases hs
    exact destroy_safe (hlive _ hplace nofun nofun) (h.ended (.inl hplace)) creates
  · next creates hplace =>
    cases hs
    exact destroy_safe (hlive _ hplace nofun nofun) (h.ended (.inr hplace)) creates
  · cases hs

end

/-- **The protocol of the output pages.** -/
theorem protocol_of_reach {stages : Nat} {s : PipelineRun}
    (h : Machine.Reach (step stages) Sparing (enter true) s) : Protocol s :=
  (h.inv enter_safe fun _ _ _ hs hc he => step_safe hs hc he).protocol

instance (s : PipelineRun) : (op : RunOp) → Decidable (s.Sparing op)
  | .ok => inferInstanceAs (Decidable True)
  | .noMore => inferInstanceAs (Decidable True)
  | .destroy _ => inferInstanceAs (Decidable True)
  | .noSpace _ e =>
    match h : s.place with
    | .source => decidable_of_iff (s.Room ∧ e.container = true) (by simp [Sparing, h])
    | .stage _ => decidable_of_iff (s.Room ∧ e.container = true) (by simp [Sparing, h])
    | .writeOut => decidable_of_iff s.Room (by simp [Sparing, h])
    | .sourceAgain => .isTrue (by simp [Sparing, h])
    | .stageAgain _ => .isTrue (by simp [Sparing, h])
    | .returned => .isTrue (by simp [Sparing, h])
    | .threw => .isTrue (by simp [Sparing, h])
    | .exited => .isTrue (by simp [Sparing, h])
    | .destroyed => .isTrue (by simp [Sparing, h])

/-- everything fits the second time -/
def turned : NoSpace := { creates := fun _ => true, page := true, container := true }

/-- a chunk runs out of space in the source, in its stage, in `writeOut`, and before `writeOut` has a
container -/
theorem protocol_four : ∃ s, Machine.Reach (step 1) Sparing (enter true) s ∧
    s.place = .destroyed ∧ s.handed.map (·.page) = [4, 3, 2, 1, 0] ∧ Protocol s := by
  obtain ⟨s, hs, hplace, hpages⟩ : ∃ s, Machine.run (Machine.guarded (step 1) Sparing) (enter true)
      [.noSpace false turned, .ok, .noSpace false turned, .ok, .noSpace false turned,
        .noSpace false turned, .ok, .noMore, .destroy fun _ => true] = some s ∧
      s.place = .destroyed ∧ s.handed.map (·.page) = [4, 3, 2, 1, 0] := ⟨_, rfl, rfl, rfl⟩
  have hreach := Machine.Reach.of_run _ hs
  exact ⟨s, hreach, hplace, hpages, protocol_of_reach hreach⟩

/-- **Five times is too often**: the first page of a chunk is handed over while the chunk is still
being written. -/
theorem protocol_not_always : ¬ ∀ (stages : Nat) (s : PipelineRun),
    Machine.Reach (step stages) (fun _ _ => True) (enter true) s → Protocol s := by
  intro hall
  obtain ⟨s, hs, hused⟩ : ∃ s, Machine.run (Machine.guarded (step 0) fun _ _ => True) (enter true)
      [.ok, .noSpace false turned, .noSpace false turned, .noSpace false turned,
        .noSpace false turned, .noSpace false turned] = some s ∧
      s.handed = [⟨0, .writeBackPage, true⟩] := ⟨_, rfl, rfl⟩
  have hnot := (hall 0 s (Machine.Reach.of_run _ hs)).notInUse
  rw [hused] at hnot
  exact Bool.noConfusion (hnot _ (List.mem_singleton.mpr rfl))

end PipelineRun
end Netsdb
