import Netsdb.Lib.Reach
import Netsdb.Lib.Tally

/-!
# The loop around `writeOut` (`Pipeline.h`, `HashPartitionWork.cc`)

A sink is given one input after the other (a tuple set, a map).  When a call of `writeOut` runs out
of space, the page is kept, and `writeOut` is called again with a container on a new page.

* `ComputeSink`            what the loop uses of a sink;
* `Pipeline.step`          the loop between two calls of the sink;
* `ComputeSink.Conserves`  a call of `writeOut` moves what its input is worth into the container, up
                           to what it leaves to be written;
* `conserved_of_reach`     then the pages of every run are worth what the inputs were.
-/

namespace Netsdb
open Machine

/-- how a call of `writeOut` ends: all is written, or it has run out of space -/
inductive Written (σ C I : Type*)
  | done (sink : σ) (c : C)
  | notEnoughSpace (sink : σ) (c : C) (rest : I)
  | fatal

/-- `σ`: the members of the sink, `C`: the containers, `I`: the inputs, `F`: what fails in a call -/
structure ComputeSink (σ C I F : Type*) where
  createNewOutputContainer : Option C
  writeOut : F → σ → C → I → Written σ C I

/-- the variables of `run` -/
structure Pipeline (σ C I : Type*) where
  /-- the output sinks of the pages that are written back, or will be; `none`: there is none -/
  unwrittenPages : List (Option C)
  outputSink : Option C
  /-- the input, as long as it is not written -/
  curChunk : Option I
  sink : σ

inductive PipelineOp (I F : Type*)
  /-- the source and the stages give an input -/
  | chunk (input : I)
  /-- the source, or a stage, runs out of space -/
  | newPage
  /-- `createNewOutputContainer` runs out of space in the loop -/
  | noContainer
  | writeOut (fail : F)

namespace Pipeline
variable {σ C I F : Type*} (k : ComputeSink σ C I F)

/-- the output sink, made anew if there is none -/
def container (s : Pipeline σ C I) : Option C :=
  match s.outputSink with
  | some c => some c
  | none => k.createNewOutputContainer

/-- `none`: not at this place, or the program ends -/
def step (s : Pipeline σ C I) : PipelineOp I F → Option (Pipeline σ C I)
  | .chunk input =>
    match s.curChunk with
    | none => some { s with curChunk := some input }
    | some _ => none
  | .newPage =>
    match s.curChunk, k.createNewOutputContainer with
    | none, some c =>
      some { s with unwrittenPages := s.unwrittenPages ++ [s.outputSink], outputSink := some c }
    | _, _ => none
  | .noContainer =>
    match s.curChunk, s.outputSink with
    | some _, none => some { s with unwrittenPages := s.unwrittenPages ++ [none] }
    | _, _ => none
  | .writeOut fail =>
    match s.curChunk, s.container k with
    | some input, some c =>
      match k.writeOut fail s.sink c input with
      | .done sink c' => some { s with outputSink := some c', curChunk := none, sink := sink }
      | .notEnoughSpace sink c' rest =>
        some ⟨s.unwrittenPages ++ [some c'], none, some rest, sink⟩
      | .fatal => none
    | _, _ => none

/-- the inputs so far -/
def feed (fed : List I) : PipelineOp I F → List I
  | .chunk input => fed ++ [input]
  | _ => fed

/-- the loop, and the inputs so far -/
def fedStep (x : Pipeline σ C I × List I) (op : PipelineOp I F) : Option (Pipeline σ C I × List I) :=
  (step k x.1 op).map fun s => (s, feed x.2 op)

/-- the condition on inputs, and on calls of `writeOut` -/
def Fine (valid : I → Prop) (fine : F → σ → C → I → Prop) (s : Pipeline σ C I) :
    PipelineOp I F → Prop
  | .chunk input => valid input
  | .writeOut fail => ∀ input c, s.curChunk = some input → s.container k = some c →
    fine fail s.sink c input
  | _ => True

instance (valid : I → Prop) (fine : F → σ → C → I → Prop) [DecidablePred valid]
    [∀ fail t c input, Decidable (fine fail t c input)] (s : Pipeline σ C I) (op : PipelineOp I F) :
    Decidable (s.Fine k valid fine op) :=
  match op with
  | .chunk input => inferInstanceAs (Decidable (valid input))
  | .writeOut fail =>
    match hi : s.curChunk, hc : s.container k with
    | some input, some c => decidable_of_iff (fine fail s.sink c input)
      ⟨fun h input' c' hi' hc' => by
        obtain rfl := Option.some.inj (hi.symm.trans hi')
        obtain rfl := Option.some.inj (hc.symm.trans hc')
        exact h, fun h => h input c hi hc⟩
    | none, _ => .isTrue fun input' c' hi' hc' => by rw [hi] at hi'; cases hi'
    | _, none => .isTrue fun input' c' hi' hc' => by rw [hc] at hc'; cases hc'
  | .newPage => .isTrue trivial
  | .noContainer => .isTrue trivial

/-- all output pages -/
def pages (s : Pipeline σ C I) : List (Option C) := s.unwrittenPages ++ [s.outputSink]

/-- a page without a container is worth nothing -/
def pageAmount {M : Type*} [Zero M] (amount : C → M) (page : Option C) : M := page.elim 0 amount

/-- what all pages are worth -/
def total {M : Type*} [AddCommMonoid M] (amount : C → M) (s : Pipeline σ C I) : M :=
  (s.pages.map (pageAmount amount)).sum

/-- before the first input -/
def start (c : C) (t : σ) : Pipeline σ C I := ⟨[], some c, none, t⟩

end Pipeline

/-- what a sink keeps: `amount` of its containers, `worth` of its inputs, `pending` of an input that
is being written -/
structure Ledger (σ C I M : Type*) where
  /-- of a container that is written to; one that a call has left by an exception need not be -/
  good : C → Prop
  valid : I → Prop
  /-- between two inputs -/
  ready : σ → Prop
  /-- with an input that is being written -/
  busy : σ → I → Prop
  amount : C → M
  worth : I → M
  pending : σ → I → M

namespace ComputeSink
variable {σ C I F M : Type*} [AddCommMonoid M]

structure Conserves (k : ComputeSink σ C I F) (L : Ledger σ C I M) (fine : F → σ → C → I → Prop) :
    Prop where
  create : ∃ c, k.createNewOutputContainer = some c ∧ L.amount c = 0 ∧ L.good c
  chunk : ∀ t input, L.ready t → L.valid input →
    L.busy t input ∧ L.pending t input = L.worth input
  writeOut : ∀ fail t c input, L.good c → L.busy t input → fine fail t c input →
    (∃ t' c', k.writeOut fail t c input = .done t' c' ∧ L.good c' ∧ L.ready t' ∧
        L.amount c' = L.amount c + L.pending t input) ∨
      ∃ t' c' rest, k.writeOut fail t c input = .notEnoughSpace t' c' rest ∧ L.busy t' rest ∧
        L.amount c' + L.pending t' rest = L.amount c + L.pending t input

end ComputeSink

namespace Pipeline
variable {σ C I F M : Type*} [AddCommMonoid M] {k : ComputeSink σ C I F} {L : Ledger σ C I M}
  {fine : F → σ → C → I → Prop} {s : Pipeline σ C I} {fed : List I}

/-- what is not written yet -/
def pending (L : Ledger σ C I M) (s : Pipeline σ C I) : M := s.curChunk.elim 0 (L.pending s.sink)

structure Balanced (L : Ledger σ C I M) (s : Pipeline σ C I) (fed : List I) : Prop where
  good : ∀ c, s.outputSink = some c → L.good c
  ready : s.curChunk = none → L.ready s.sink
  busy : ∀ input, s.curChunk = some input → L.busy s.sink input
  balance : s.total L.amount + s.pending L = (fed.map L.worth).sum

theorem total_eq (amount : C → M) (s : Pipeline σ C I) : s.total amount =
    (s.unwrittenPages.map (pageAmount amount)).sum + pageAmount amount s.outputSink := by
  rw [total, pages, List.map_append, List.sum_append, List.map_singleton, List.sum_singleton]

theorem total_concat (amount : C → M) (pages : List (Option C)) (page page' : Option C)
    (chunk : Option I) (t : σ) : total amount ⟨pages ++ [page], page', chunk, t⟩ =
      (pages.map (pageAmount amount)).sum + pageAmount amount page + pageAmount amount page' := by
  rw [total_eq, List.map_append, List.sum_append, List.map_singleton, List.sum_singleton]

/-- the container that `writeOut` gets is worth as much as the output sink -/
theorem container_spec (hk : k.Conserves L fine) (h : s.Balanced L fed) :
    ∃ c, s.container k = some c ∧ L.good c ∧ L.amount c = pageAmount L.amount s.outputSink := by
  cases ho : s.outputSink with
  | some c => exact ⟨c, by rw [container, ho], h.good c ho, rfl⟩
  | none =>
    obtain ⟨c, hc, hz, hg⟩ := hk.create
    refine ⟨c, ?_, hg, hz⟩
    simp only [container, ho, hc]

/-- an input comes in -/
theorem chunk_balanced (hk : k.Conserves L fine) (h : s.Balanced L fed) {input : I}
    (hv : L.valid input) (hc : s.curChunk = none) :
    Balanced L { s with curChunk := some input } (fed ++ [input]) := by
  obtain ⟨hb, hp⟩ := hk.chunk s.sink input (h.ready hc) hv
  have hbal := h.balance
  rw [pending, hc] at hbal
  refine ⟨h.good, fun e => ?_, fun input' e => ?_, ?_⟩
  · cases e
  · cases e
    exact hb
  · rw [List.map_append, List.sum_append, List.map_singleton, List.sum_singleton, ← hp, ← hbal]
    show s.total L.amount + L.pending s.sink input = s.total L.amount + 0 + _
    rw [add_zero]

/-- a page is put aside, and the next one has a new container -/
theorem newPage_balanced (hk : k.Conserves L fine) (h : s.Balanced L fed) {c : C}
    (hcreate : k.createNewOutputContainer = some c) :
    Balanced L { s with unwrittenPages := s.unwrittenPages ++ [s.outputSink], outputSink := some c }
      fed := by
  obtain ⟨c', hc', hz, hg⟩ := hk.create
  obtain rfl : c' = c := Option.some.inj (hc'.symm.trans hcreate)
  have hbal := h.balance
  rw [total_eq] at hbal
  refine ⟨fun c'' e => ?_, h.ready, h.busy, ?_⟩
  · cases e
    exact hg
  · rw [total_concat]
    show _ + L.amount c' + s.pending L = _
    rw [hz, add_zero]
    exact hbal

/-- a page that has no container is put aside -/
theorem noContainer_balanced (h : s.Balanced L fed) (ho : s.outputSink = none) :
    Balanced L { s with unwrittenPages := s.unwrittenPages ++ [none] } fed := by
  have hbal := h.balance
  rw [total_eq, ho] at hbal
  refine ⟨h.good, h.ready, h.busy, ?_⟩
  rw [total_concat, ho]
  show _ + 0 + 0 + s.pending L = _
  rw [add_zero]
  exact hbal

/-- a call of `writeOut` -/
theorem writeOut_balanced (hk : k.Conserves L fine) (h : s.Balanced L fed) {fail : F} {input : I}
    (hc : s.curChunk = some input) (hf : s.Fine k L.valid fine (.writeOut fail)) :
    ∃ u, s.step k (.writeOut fail) = some u ∧ u.Balanced L fed := by
  obtain ⟨c, hcont, hg, hamount⟩ := container_spec hk h
  have hbal := h.balance
  rw [total_eq, pending, hc, ← hamount] at hbal
  obtain ⟨t', c', hw, hg', hr', ha⟩ | ⟨t', c', rest, hw, hb', ha⟩ :=
    hk.writeOut fail s.sink c input hg (h.busy input hc) (hf input c hc hcont)
  · refine ⟨⟨s.unwrittenPages, some c', none, t'⟩, by simp only [step, hc, hcont, hw], ?_, ?_, ?_, ?_⟩
    · intro c'' e
      cases e
      exact hg'
    · exact fun _ => hr'
    · intro input' e
      cases e
    · rw [total_eq]
      show (s.unwrittenPages.map (pageAmount L.amount)).sum + L.amount c' + 0 = _
      rw [add_zero, ha, ← add_assoc]
      exact hbal
  · refine ⟨⟨s.unwrittenPages ++ [some c'], none, some rest, t'⟩,
      by simp only [step, hc, hcont, hw], ?_, ?_, ?_, ?_⟩
    · intro c'' e
      cases e
    · intro e
      cases e
    · intro input' e
      cases e
      exact hb'
    · rw [total_concat]
      show (s.unwrittenPages.map (pageAmount L.amount)).sum + L.amount c' + 0 +
        L.pending t' rest = _
      rw [add_zero, add_assoc, ha, ← add_assoc]
      exact hbal

/-- **One step.** -/
theorem step_balanced (hk : k.Conserves L fine) (h : s.Balanced L fed) {op : PipelineOp I F}
    {u : Pipeline σ C I} (hf : s.Fine k L.valid fine op) (hu : s.step k op = some u) :
    u.Balanced L (feed fed op) := by
  cases op with
  | chunk input =>
    cases hc : s.curChunk with
    | some _ => simp only [step, hc, reduceCtorEq] at hu
    | none =>
      simp only [step, hc, Option.some.injEq] at hu
      subst hu
      exact chunk_balanced hk h hf hc
  | newPage =>
    obtain ⟨c, hcreate, -⟩ := hk.create
    cases hc : s.curChunk with
    | some _ => simp only [step, hc, hcreate, reduceCtorEq] at hu
    | none =>
      simp only [step, hc, hcreate, Option.some.injEq] at hu
      subst hu
      have := newPage_balanced hk h hcreate
      rwa [hc] at this
  | noContainer =>
    cases hc : s.curChunk with
    | none => simp only [step, hc, reduceCtorEq] at hu
    | some input =>
      cases ho : s.outputSink with
      | some _ => simp only [step, hc, ho, reduceCtorEq] at hu
      | none =>
        simp only [step, hc, ho, Option.some.injEq] at hu
        subst hu
        have := noContainer_balanced h ho
        rwa [hc, ho] at this
  | writeOut fail =>
    cases hc : s.curChunk with
    | none => simp only [step, hc, reduceCtorEq] at hu
    | some input =>
      obtain ⟨u', hu', hb⟩ := writeOut_balanced hk h hc hf
      rw [hu] at hu'
      cases hu'
      exact hb

/-- **Nothing is lost, and nothing is there twice.** -/
theorem conserved_of_reach (hk : k.Conserves L fine) {t : σ} (ht : L.ready t) :
    ∃ c₀, k.createNewOutputContainer = some c₀ ∧ ∀ s fed,
      Reach (fedStep k) (fun x op => x.1.Fine k L.valid fine op) (start c₀ t, []) (s, fed) →
      s.Balanced L fed := by
  obtain ⟨c₀, hc₀, hz, hg⟩ := hk.create
  refine ⟨c₀, hc₀, fun s fed hreach => ?_⟩
  have hinit : (start (I := I) c₀ t).Balanced L [] := by
    refine ⟨fun c e => ?_, fun _ => ht, fun input e => ?_, ?_⟩
    · cases e
      exact hg
    · cases e
    · rw [total_eq]
      show 0 + L.amount c₀ + 0 = 0
      rw [hz, add_zero, add_zero]
  exact hreach.inv (P := fun x => x.1.Balanced L x.2) hinit fun x op y hx hfine hy => by
    obtain ⟨u, hu, rfl⟩ := Option.map_eq_some_iff.mp hy
    exact step_balanced hk hx hfine hu

end Pipeline

end Netsdb
