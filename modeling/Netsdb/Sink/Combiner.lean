import Netsdb.Sink.Aggregate
import Netsdb.BuiltIn.JoinDouble
import Mathlib.Algebra.Order.GroupWithZero.Canonical

/-!
# The combiner of a node (`CombinerProcessor.cc`, `PipelineStage.cc`)

Every input page has a map for each hash partition of the cluster; an output page has one for each
partition of the node.  `fillNextOutputPage` walks over the maps of the node's partitions and adds
every pair to the map of its partition; when it runs out of space, it goes on with a new output
page where it stopped.

* `CombinerProcessor.pass`   once around the loop of `fillNextOutputPage`;
* `CombinerRun.step`         the loop of the pipeline stage around it;
* `combined_of_reach`        the output pages of a run add up, partition by partition and key by key,
                             to the input pages.
-/

set_option linter.unusedSectionVars false

namespace Netsdb
open Machine

/-- the variables of a processor; `begin` iterates over one of the maps of the input page, which
need not be the current one when that is empty -/
structure CombinerProcessor (K V : Type*) where
  nodePartitionIds : List Nat
  /-- of the tables of the output maps -/
  layout : ArrayLayout
  finalized : Bool
  inputData : List (PDBMap K V)
  outputData : List (PDBMap K V)
  curPartPos : Nat
  /-- the position of `curOutputMap` in the output page -/
  curOutputMap : Nat
  /-- null before the first input page -/
  begin : Option (PDBMap K V × PDBMapIterator)

/-- what fails in one pass: a copy of the key or the value out of the input page, or a step of adding
it -/
structure CombineFail (V : Type*) where
  fetch : Bool
  aggregate : AggregateFail V

/-- what comes of looking for the next pair -/
inductive Seek (K V : Type*)
  | here (p : CombinerProcessor K V)
  /-- `continue` -/
  | again (p : CombinerProcessor K V)
  /-- `return false` -/
  | finished (p : CombinerProcessor K V)
  | fatal

/-- what comes of one pass -/
inductive Pass (K V : Type*)
  | again (p : CombinerProcessor K V)
  | finished (p : CombinerProcessor K V)
  /-- `return true`, after `NotEnoughSpace` -/
  | full (p : CombinerProcessor K V)
  | fatal

namespace CombinerProcessor
variable {K V : Type*} [BEq K] [Hashable K] [Inhabited K] [Inhabited V]

/-- an `int` -/
def numNodePartitions (p : CombinerProcessor K V) : Int :=
  JoinPairArray.toInt p.nodePartitionIds.length

def new (layout : ArrayLayout) (partitions : List Nat) : CombinerProcessor K V :=
  { nodePartitionIds := partitions, layout, finalized := false, inputData := [], outputData := []
    curPartPos := 0, curOutputMap := 0, begin := none }

/-- the input map of the partition at a position of the node -/
def inputMap (p : CombinerProcessor K V) (pos : Nat) : Option (PDBMap K V) :=
  (p.nodePartitionIds[pos]?).bind fun id => p.inputData[id]?

/-- `none`: the page has no map of the partition -/
def loadInputPage (p : CombinerProcessor K V) (page : List (PDBMap K V)) :
    Option (CombinerProcessor K V) :=
  let p := { p with inputData := page, curPartPos := 0 }
  (p.inputMap 0).map fun curMap => { p with begin := some (curMap, curMap.begin) }

/-- `none`: the maps do not fit on an empty page -/
def loadOutputPage (p : CombinerProcessor K V) : Option (CombinerProcessor K V) :=
  (PDBMap.create p.layout 2).map fun currentMap =>
    { p with
      outputData := List.replicate p.numNodePartitions.toNat currentMap
      curOutputMap := p.curPartPos }

/-- the first half of a pass: on to the next partition when the current map is done -/
def seek (p : CombinerProcessor K V) : Seek K V :=
  match p.begin with
  | none => .fatal
  | some (_, it) =>
    if it.done then
      if (p.curPartPos : Int) < p.numNodePartitions - 1 then
        let p := { p with curPartPos := p.curPartPos + 1 }
        match p.inputMap p.curPartPos with
        | none => .fatal
        | some curMap =>
          if 0 < curMap.size then
            let p := { p with begin := some (curMap, curMap.begin) }
            -- a map from which an entry was taken out has a size above its number of entries
            if curMap.begin.done then .again p
            else .here { p with curOutputMap := p.curPartPos }
          else .again p
      else .finished { p with curPartPos := 0, curOutputMap := 0 }
    else .here p

variable [AddSemigroup V]

/-- the second half: the pair goes into the output map, and the iterator on to the next one -/
def combine (fail : CombineFail V) (p : CombinerProcessor K V) : Pass K V :=
  match p.begin, p.outputData[p.curOutputMap]? with
  | some (m, it), some out =>
    if fail.fetch then .full p
    else
      match out.aggregate fail.aggregate (m.myArray.data it.slot).key
          (m.myArray.data it.slot).value with
      | .done out =>
        .again { p with
          outputData := p.outputData.set p.curOutputMap out
          begin := some (m, m.next it) }
      | .caught out => .full { p with outputData := p.outputData.set p.curOutputMap out }
      | .uncaught out => .full { p with outputData := p.outputData.set p.curOutputMap out }
      | .fatal => .fatal
  | _, _ => .fatal

def pass (fail : CombineFail V) (p : CombinerProcessor K V) : Pass K V :=
  match p.seek with
  | .here p => p.combine fail
  | .again p => .again p
  | .finished p => .finished p
  | .fatal => .fatal

end CombinerProcessor

/-- where the pipeline stage is -/
inductive CombinerPlace
  /-- between two input pages -/
  | loading
  /-- in `fillNextOutputPage` -/
  | filling
  /-- `fillNextOutputPage` has returned true -/
  | full
  | done
deriving DecidableEq

/-- the stage, with the output pages that it has sent out -/
structure CombinerRun (K V : Type*) where
  proc : CombinerProcessor K V
  place : CombinerPlace
  shipped : List (List (PDBMap K V))

inductive CombinerOp (K V : Type*)
  | loadInputPage (page : List (PDBMap K V))
  | pass (fail : CombineFail V)
  /-- the page is sent out, and a new one loaded -/
  | ship
  /-- no more input: the last page is sent out -/
  | finalize

namespace CombinerRun
variable {K V : Type*} [BEq K] [Hashable K] [Inhabited K] [Inhabited V]

/-- up to the loop; `none` as in `loadOutputPage` -/
def start (layout : ArrayLayout) (partitions : List Nat) : Option (CombinerRun K V) :=
  ((CombinerProcessor.new layout partitions).loadOutputPage).map fun proc => ⟨proc, .loading, []⟩

variable [AddSemigroup V]

/-- `none`: not at this place, or the program ends -/
def step (s : CombinerRun K V) : CombinerOp K V → Option (CombinerRun K V)
  | .loadInputPage page =>
    if s.place = .loading then
      (s.proc.loadInputPage page).map fun proc => { s with proc, place := .filling }
    else none
  | .pass fail =>
    if s.place = .filling then
      match s.proc.pass fail with
      | .again proc => some { s with proc }
      | .finished proc => some { s with proc, place := .loading }
      | .full proc => some { s with proc, place := .full }
      | .fatal => none
    else none
  | .ship =>
    if s.place = .full then
      (s.proc.loadOutputPage).map fun proc =>
        { proc, place := .filling, shipped := s.shipped ++ [s.proc.outputData] }
    else none
  | .finalize =>
    if s.place = .loading then
      some { proc := { s.proc with finalized := true }, place := .done
             shipped := s.shipped ++ [s.proc.outputData] }
    else none

/-- the input pages so far -/
def feed (fed : List (List (PDBMap K V))) : CombinerOp K V → List (List (PDBMap K V))
  | .loadInputPage page => fed ++ [page]
  | _ => fed

def fedStep (x : CombinerRun K V × List (List (PDBMap K V))) (op : CombinerOp K V) :
    Option (CombinerRun K V × List (List (PDBMap K V))) :=
  (x.1.step op).map fun s => (s, feed x.2 op)

/-- an input page: `size` of its maps counts at least their entries, and every partition of the node
has one -/
structure ValidPage (ids : List Nat) (page : List (PDBMap K V)) : Prop where
  counted : ∀ m ∈ page, m.entries.length ≤ m.size
  partitions : ∀ id ∈ ids, id < page.length

/-- the condition on the pair that is next -/
def CombineFine (fail : CombineFail V) (p : CombinerProcessor K V) : Prop :=
  ∀ m it out, p.begin = some (m, it) → p.outputData[p.curOutputMap]? = some out →
    PDBMap.AggregateFine fail.aggregate out (m.myArray.data it.slot).key

def Fine (s : CombinerRun K V) : CombinerOp K V → Prop
  | .loadInputPage page => ValidPage s.proc.nodePartitionIds page
  | .pass fail => ∀ p, s.proc.seek = .here p → CombineFine fail p
  | _ => True

end CombinerRun

/-! ## One pass -/

namespace CombinerProcessor
open CombinerRun
variable {K V : Type*} [BEq K] [Hashable K] [Inhabited K] [Inhabited V] [AddSemigroup V]
  {p p' : CombinerProcessor K V} {i : Nat} {k : K}

/-- what the map at a position of a page has for a key -/
def pageTotal (k : K) (i : Nat) (page : List (PDBMap K V)) : WithZero V :=
  (page[i]?).elim 0 (·.total k)

/-- what is still to be added to the output map at a position -/
def pending (p : CombinerProcessor K V) (i : Nat) (k : K) : WithZero V :=
  if i < p.curPartPos then 0
  else if i = p.curPartPos then p.begin.elim 0 fun b => FiniteMap.keySum k (b.1.rest b.2)
  else (p.inputMap i).elim 0 (·.total k)

/-- within an input page -/
structure Filling [EquivBEq K] [LawfulHashable K] (p : CombinerProcessor K V) : Prop where
  page : ValidPage p.nodePartitionIds p.inputData
  pos : p.curPartPos < p.nodePartitionIds.length
  begin : ∃ m it, p.begin = some (m, it) ∧ m.Placed it
  /-- where there is a pair, its output map is the current one -/
  here : ∀ m it, p.begin = some (m, it) → it.done = false → p.curOutputMap = p.curPartPos

/-- what a pass does not touch -/
structure Kept (p p' : CombinerProcessor K V) : Prop where
  ids : p'.nodePartitionIds = p.nodePartitionIds
  layout : p'.layout = p.layout
  inputData : p'.inputData = p.inputData
  length : p'.outputData.length = p.outputData.length

/-- nothing is lost and nothing is added twice -/
def Even (p p' : CombinerProcessor K V) : Prop := ∀ i < p.nodePartitionIds.length, ∀ k,
  pageTotal k i p'.outputData + p'.pending i k = pageTotal k i p.outputData + p.pending i k

section
variable [EquivBEq K] [LawfulHashable K]

theorem numNodePartitions_eq (h : p.nodePartitionIds.length < 2 ^ 31) :
    p.numNodePartitions = p.nodePartitionIds.length := JoinPairArray.toInt_of_lt h

/-- every partition of the node has an input map -/
theorem inputMap_spec (h : ValidPage p.nodePartitionIds p.inputData)
    (hi : i < p.nodePartitionIds.length) :
    ∃ m, p.inputMap i = some m ∧ m.entries.length ≤ m.size := by
  have hid : p.nodePartitionIds[i]? = some p.nodePartitionIds[i] := List.getElem?_eq_getElem hi
  have hlt := h.partitions _ (List.getElem_mem hi)
  refine ⟨p.inputData[p.nodePartitionIds[i]], ?_, h.counted _ (List.getElem_mem hlt)⟩
  rw [inputMap, hid, Option.bind_some]
  exact List.getElem?_eq_getElem hlt

/-- the current map is done -/
theorem pending_done {m : PDBMap K V} {it : PDBMapIterator} (hb : p.begin = some (m, it))
    (hp : m.Placed it) (hd : it.done = true) (k : K) : p.pending p.curPartPos k = 0 := by
  rw [pending, if_neg (lt_irrefl _), if_pos rfl, hb]
  show FiniteMap.keySum k (m.rest it) = 0
  rw [PDBMap.rest_of_done hp hd]
  rfl

/-- on to the next position, with a `begin` that has all its pairs to come -/
theorem pending_next (b : Option (PDBMap K V × PDBMapIterator)) (out : Nat)
    (hzero : ∀ k, p.pending p.curPartPos k = 0)
    (hb : ∀ k, b.elim 0 (fun b => FiniteMap.keySum k (b.1.rest b.2)) =
      (p.inputMap (p.curPartPos + 1)).elim 0 (·.total k)) (i : Nat) (k : K) :
    ({ p with curPartPos := p.curPartPos + 1, begin := b, curOutputMap := out } :
      CombinerProcessor K V).pending i k = p.pending i k := by
  rcases lt_trichotomy i p.curPartPos with hi | rfl | hi
  · rw [pending, pending, if_pos hi]
    exact if_pos (Nat.lt_succ_of_lt hi)
  · rw [hzero k]
    exact if_pos (Nat.lt_succ_self _)
  · have hp : p.pending i k = (p.inputMap i).elim 0 (·.total k) := by
      rw [pending, if_neg (Nat.not_lt.mpr hi.le), if_neg hi.ne']
    rw [hp]
    rcases Nat.eq_or_lt_of_le (Nat.succ_le_of_lt hi) with rfl | hi'
    · refine (if_neg (lt_irrefl _)).trans ((if_pos rfl).trans ?_)
      exact hb k
    · exact (if_neg (Nat.not_lt.mpr hi'.le)).trans (if_neg hi'.ne')

/-- **The first half of a pass.** -/
theorem seek_spec (h : Filling p) (hint : p.nodePartitionIds.length < 2 ^ 31) :
    (∃ p', ((p.seek = .here p' ∧ ∃ m it, p'.begin = some (m, it) ∧ it.done = false) ∨
        p.seek = .again p') ∧ Kept p p' ∧ Filling p' ∧ p'.outputData = p.outputData ∧
        ∀ i k, p'.pending i k = p.pending i k) ∨
      ∃ p', p.seek = .finished p' ∧ Kept p p' ∧ p'.outputData = p.outputData ∧
        p'.curPartPos = 0 ∧ p'.curOutputMap = 0 ∧
        ∀ i < p.nodePartitionIds.length, ∀ k, p.pending i k = 0 := by
  obtain ⟨m, it, hb, hplaced⟩ := h.begin
  have hnum := numNodePartitions_eq hint
  cases hd : it.done with
  | false =>
    refine .inl ⟨p, .inl ⟨?_, m, it, hb, hd⟩, ⟨rfl, rfl, rfl, rfl⟩, h, rfl, fun _ _ => rfl⟩
    simp only [seek, hb, hd, Bool.false_eq_true, if_false]
  | true =>
    have hzero := pending_done hb hplaced hd
    by_cases hlast : (p.curPartPos : Int) < p.numNodePartitions - 1
    · have hpos : p.curPartPos + 1 < p.nodePartitionIds.length := by omega
      obtain ⟨curMap, hmap, hsize⟩ := inputMap_spec h.page hpos
      have hmap' : ∀ b, ({ p with curPartPos := p.curPartPos + 1, begin := b } :
          CombinerProcessor K V).inputMap (p.curPartPos + 1) = some curMap := fun _ => hmap
      obtain ⟨hplaced', hrest⟩ := PDBMap.placed_begin curMap
      left
      by_cases hpositive : 0 < curMap.size
      · have hpend := fun out => pending_next (some (curMap, curMap.begin)) out hzero fun k => by
          rw [hmap]
          show FiniteMap.keySum k (curMap.rest curMap.begin) = curMap.total k
          rw [hrest, PDBMap.total_eq]
        cases hd' : curMap.begin.done with
        | true =>
          refine ⟨{ p with
            curPartPos := p.curPartPos + 1, begin := some (curMap, curMap.begin) }, .inr ?_,
            ⟨rfl, rfl, rfl, rfl⟩, ⟨h.page, hpos, ⟨_, _, rfl, hplaced'⟩, ?_⟩, rfl, hpend _⟩
          · simp only [seek, hb, hd, if_true, if_pos hlast, hmap', if_pos hpositive, hd']
          · intro m' it' hb' hf
            cases hb'
            rw [hd'] at hf
            cases hf
        | false =>
          refine ⟨{ p with
            curPartPos := p.curPartPos + 1, begin := some (curMap, curMap.begin)
            curOutputMap := p.curPartPos + 1 }, .inl ⟨?_, curMap, curMap.begin, rfl, hd'⟩,
            ⟨rfl, rfl, rfl, rfl⟩, ⟨h.page, hpos, ⟨_, _, rfl, hplaced'⟩, fun _ _ _ _ => rfl⟩, rfl,
            hpend _⟩
          simp only [seek, hb, hd, if_true, if_pos hlast, hmap', if_pos hpositive, hd',
            Bool.false_eq_true, if_false]
      · -- an empty map is passed over, and `begin` stays at the end of an earlier one
        have hnil : curMap.entries = [] := List.length_eq_zero_iff.mp (by omega)
        have hpend := pending_next p.begin p.curOutputMap hzero fun k => by
          rw [hmap, hb]
          show FiniteMap.keySum k (m.rest it) = curMap.total k
          rw [PDBMap.rest_of_done hplaced hd, PDBMap.total_eq, hnil]
        refine ⟨{ p with curPartPos := p.curPartPos + 1 }, .inr ?_, ⟨rfl, rfl, rfl, rfl⟩,
          ⟨h.page, hpos, ⟨m, it, hb, hplaced⟩, ?_⟩, rfl, hpend⟩
        · simp only [seek, hb, hd, if_true, if_pos hlast, hmap', if_neg hpositive]
        · intro m' it' hb' hf
          rw [show _ = _ from hb] at hb'
          cases hb'
          rw [hd] at hf
          cases hf
    · right
      refine ⟨{ p with curPartPos := 0, curOutputMap := 0 }, ?_, ⟨rfl, rfl, rfl, rfl⟩, rfl, rfl, rfl,
        fun i hi k => ?_⟩
      · simp only [seek, hb, hd, if_true, if_neg hlast]
      · have hpos := h.pos
        rcases Nat.lt_or_ge i p.curPartPos with hlt | hge
        · rw [pending, if_pos hlt]
        · obtain rfl : i = p.curPartPos := by omega
          exact hzero k

/-- an output map has been replaced -/
theorem pageTotal_set {page : List (PDBMap K V)} {j : Nat} {m m' : PDBMap K V} {d : WithZero V}
    (hj : page[j]? = some m) (ht : m'.total k = m.total k + d) (i : Nat) :
    pageTotal k i (page.set j m') = pageTotal k i page + if i = j then d else 0 := by
  unfold pageTotal
  rw [List.getElem?_set]
  by_cases hij : j = i
  · subst hij
    have hlt : j < page.length := (List.getElem?_eq_some_iff.mp hj).1
    rw [if_pos rfl, if_pos hlt, if_pos rfl, hj]
    exact ht
  · rw [if_neg hij, if_neg fun e => hij e.symm, add_zero]

/-- the pair at the iterator is the next one of what is pending -/
theorem pending_step {m : PDBMap K V} {it : PDBMapIterator} (hb : p.begin = some (m, it))
    (hp : m.Placed it) (hd : it.done = false) {out : List (PDBMap K V)} (i : Nat) (k : K) :
    p.pending i k = (if i = p.curPartPos then
        FiniteMap.single k ((m.myArray.data it.slot).key, (m.myArray.data it.slot).value) else 0) +
      ({ p with outputData := out, begin := some (m, m.next it) } :
        CombinerProcessor K V).pending i k := by
  obtain ⟨-, -, -, hrest⟩ := PDBMap.placed_next hp hd
  rcases lt_trichotomy i p.curPartPos with hi | rfl | hi
  · rw [pending, pending, if_pos hi, if_neg hi.ne, if_pos hi, zero_add]
  · rw [pending, pending, if_neg (lt_irrefl _), if_pos rfl, if_pos rfl, if_neg (lt_irrefl _),
      if_pos rfl, hb]
    show FiniteMap.keySum k (m.rest it) = _ + FiniteMap.keySum k (m.rest (m.next it))
    rw [hrest, FiniteMap.keySum_cons]
  · rw [pending, pending, if_neg (Nat.not_lt.mpr hi.le), if_neg hi.ne', if_neg hi.ne',
      if_neg (Nat.not_lt.mpr hi.le), if_neg hi.ne', zero_add]
    rfl

/-- **The second half of a pass.** -/
theorem combine_spec {fail : CombineFail V} (h : Filling p)
    (hlen : p.outputData.length = p.nodePartitionIds.length)
    (hgood : ∀ m ∈ p.outputData, m.Good) {m : PDBMap K V} {it : PDBMapIterator}
    (hb : p.begin = some (m, it)) (hd : it.done = false) (hf : CombineFine fail p) :
    (∃ p', p.combine fail = .again p' ∧ Kept p p' ∧ Filling p' ∧ Even p p' ∧
        ∀ m ∈ p'.outputData, m.Good) ∨
      ∃ p', p.combine fail = .full p' ∧ Kept p p' ∧ Filling p' ∧ Even p p' := by
  obtain ⟨m', it', hb', hplaced⟩ := h.begin
  obtain ⟨rfl, rfl⟩ := Prod.mk.inj (Option.some.inj (hb'.symm.trans hb))
  have hcur := h.here m' it' hb hd
  obtain ⟨out, hout⟩ : ∃ out, p.outputData[p.curPartPos]? = some out :=
    ⟨_, List.getElem?_eq_getElem (by rw [hlen]; exact h.pos)⟩
  rw [← hcur] at hout
  have hmem : out ∈ p.outputData := List.mem_of_getElem? hout
  -- what a failed call leaves is worth what was there
  have hsame : ∀ out', (∀ k, out'.total k = out.total k) →
      Kept p { p with outputData := p.outputData.set p.curOutputMap out' } ∧
        Filling { p with outputData := p.outputData.set p.curOutputMap out' } ∧
        Even p { p with outputData := p.outputData.set p.curOutputMap out' } := by
    intro out' ht
    refine ⟨⟨rfl, rfl, rfl, List.length_set⟩, ⟨h.page, h.pos, h.begin, h.here⟩, fun i _ k => ?_⟩
    have hset := pageTotal_set (d := 0) hout (by rw [ht k, add_zero]) i
    rw [ite_self, add_zero] at hset
    show pageTotal k i (p.outputData.set p.curOutputMap out') + p.pending i k = _
    rw [hset]
  cases hfetch : fail.fetch with
  | true =>
    refine .inr ⟨p, ?_, ⟨rfl, rfl, rfl, rfl⟩, h, fun _ _ _ => rfl⟩
    simp only [combine, hb, hout, hfetch, if_true]
  | false =>
    obtain ⟨out', hagg, hadd⟩ | ⟨out', hagg, ht⟩ := PDBMap.aggregate_spec
      (hgood out hmem) (hf m' it' out hb hout) (m'.myArray.data it'.slot).value
    · obtain ⟨hplaced', -, -, -⟩ := PDBMap.placed_next hplaced hd
      refine .inl ⟨{ p with
        outputData := p.outputData.set p.curOutputMap out', begin := some (m', m'.next it') }, ?_,
        ⟨rfl, rfl, rfl, List.length_set⟩, ⟨h.page, h.pos, ⟨m', m'.next it', rfl, hplaced'⟩, ?_⟩,
        ?_, ?_⟩
      · simp only [combine, hb, hout, hfetch, hagg, Bool.false_eq_true, if_false]
      · intro _ _ _ _
        exact hcur
      · intro i _ k
        have hset := pageTotal_set hout (hadd.total k) i
        show pageTotal k i (p.outputData.set p.curOutputMap out') + _ = _
        rw [hset, pending_step hb hplaced hd i k, hcur, add_assoc]
      · intro x hx
        rcases List.mem_or_eq_of_mem_set hx with hx | rfl
        · exact hgood x hx
        · exact hadd.good
    · obtain ⟨hkept, hfill, heven⟩ := hsame out' ht
      refine .inr ⟨_, ?_, hkept, hfill, heven⟩
      obtain hagg | hagg := hagg
      · simp only [combine, hb, hout, hfetch, hagg, Bool.false_eq_true, if_false]
      · simp only [combine, hb, hout, hfetch, hagg, Bool.false_eq_true, if_false]

/-- **One pass.** -/
theorem pass_spec {fail : CombineFail V} (h : Filling p)
    (hint : p.nodePartitionIds.length < 2 ^ 31)
    (hlen : p.outputData.length = p.nodePartitionIds.length)
    (hgood : ∀ m ∈ p.outputData, m.Good) (hf : ∀ p', p.seek = .here p' → CombineFine fail p') :
    (∃ p', p.pass fail = .again p' ∧ Kept p p' ∧ Filling p' ∧ Even p p' ∧
        ∀ m ∈ p'.outputData, m.Good) ∨
      (∃ p', p.pass fail = .full p' ∧ Kept p p' ∧ Filling p' ∧ Even p p') ∨
      ∃ p', p.pass fail = .finished p' ∧ Kept p p' ∧ p'.outputData = p.outputData ∧
        p'.curPartPos = 0 ∧ p'.curOutputMap = 0 ∧
        ∀ i < p.nodePartitionIds.length, ∀ k, p.pending i k = 0 := by
  obtain ⟨p₁, hseek, hkept, hfill, hout, hpend⟩ | ⟨p₁, hseek, hrest⟩ := seek_spec h hint
  · have heven : ∀ p', Kept p₁ p' → Even p₁ p' → Kept p p' ∧ Even p p' := by
      intro p' hk he
      refine ⟨⟨hk.ids.trans hkept.ids, hk.layout.trans hkept.layout,
        hk.inputData.trans hkept.inputData, hk.length.trans hkept.length⟩, fun i hi k => ?_⟩
      rw [he i (by rw [hkept.ids]; exact hi) k, hout, hpend i k]
    obtain ⟨hseek, m, it, hb, hd⟩ | hseek := hseek
    · have hpass : p.pass fail = p₁.combine fail := by
        simp only [pass, hseek]
      rw [hpass]
      obtain ⟨p', hc, hk, hfl, he, hg⟩ | ⟨p', hc, hk, hfl, he⟩ := combine_spec hfill
        (by rw [hkept.length, hkept.ids, hlen]) (by rw [hout]; exact hgood) hb hd (hf p₁ hseek)
      · exact .inl ⟨p', hc, (heven p' hk he).1, hfl, (heven p' hk he).2, hg⟩
      · exact .inr (.inl ⟨p', hc, (heven p' hk he).1, hfl, (heven p' hk he).2⟩)
    · obtain ⟨hk, he⟩ := heven p₁ ⟨rfl, rfl, rfl, rfl⟩ fun _ _ _ => rfl
      refine .inl ⟨p₁, ?_, hk, hfill, he, by rw [hout]; exact hgood⟩
      simp only [pass, hseek]
  · refine .inr (.inr ⟨p₁, ?_, hrest⟩)
    simp only [pass, hseek]

end

end CombinerProcessor

/-! ## Runs -/

namespace CombinerRun
open CombinerProcessor
variable {K V : Type*} [BEq K] [Hashable K] [Inhabited K] [Inhabited V] [AddSemigroup V]
  [EquivBEq K] [LawfulHashable K] {layout : ArrayLayout} {ids : List Nat} {s u : CombinerRun K V}
  {fed : List (List (PDBMap K V))}

/-- all output pages -/
def pages (s : CombinerRun K V) : List (List (PDBMap K V)) :=
  s.shipped ++ if s.place = .done then [] else [s.proc.outputData]

/-- what is still to be added of the current input page -/
def pending (s : CombinerRun K V) (i : Nat) (k : K) : WithZero V :=
  if s.place = .filling ∨ s.place = .full then s.proc.pending i k else 0

/-- what the maps at a position of some pages have for a key -/
def pagesTotal (k : K) (i : Nat) (pages : List (List (PDBMap K V))) : WithZero V :=
  (pages.map (pageTotal k i)).sum

structure Balanced (layout : ArrayLayout) (ids : List Nat) (s : CombinerRun K V)
    (fed : List (List (PDBMap K V))) : Prop where
  sameIds : s.proc.nodePartitionIds = ids
  sameLayout : s.proc.layout = layout
  length : s.proc.outputData.length = ids.length
  good : s.place = .loading ∨ s.place = .filling → ∀ m ∈ s.proc.outputData, m.Good
  loading : s.place = .loading → s.proc.curPartPos = 0 ∧ s.proc.curOutputMap = 0
  filling : s.place = .filling ∨ s.place = .full → Filling s.proc
  balance : ∀ (i : Nat) (h : i < ids.length) (k : K),
    pagesTotal k i s.pages + s.pending i k = pagesTotal k ids[i] fed

theorem pagesTotal_concat (k : K) (i : Nat) (pages : List (List (PDBMap K V)))
    (page : List (PDBMap K V)) :
    pagesTotal k i (pages ++ [page]) = pagesTotal k i pages + pageTotal k i page := by
  rw [pagesTotal, List.map_append, List.sum_append, List.map_singleton, List.sum_singleton]
  rfl

/-- a new output page has nothing in it -/
theorem loadOutputPage_spec {p : CombinerProcessor K V} (hint : p.nodePartitionIds.length < 2 ^ 31)
    (hf : PairArray.TableFits p.layout 2) :
    ∃ out, p.loadOutputPage = some { p with outputData := out, curOutputMap := p.curPartPos } ∧
      out.length = p.nodePartitionIds.length ∧ (∀ m ∈ out, m.Good) ∧
      ∀ i k, pageTotal k i out = 0 := by
  obtain ⟨m, hm, hg, he⟩ := PDBMap.create_spec (K := K) (V := V) (Nat.le_refl 2) hf
  have hz : ∀ k, m.total k = 0 := fun k => by
    rw [PDBMap.total_eq, he]
    rfl
  refine ⟨List.replicate p.numNodePartitions.toNat m, ?_, ?_, fun x hx => ?_, fun i k => ?_⟩
  · rw [loadOutputPage, hm]
    rfl
  · rw [List.length_replicate, numNodePartitions_eq hint, Int.toNat_natCast]
  · rw [List.eq_of_mem_replicate hx]
    exact hg
  · rw [pageTotal]
    cases hx : (List.replicate p.numNodePartitions.toNat m)[i]? with
    | none => rfl
    | some x =>
      rw [List.eq_of_mem_replicate (List.mem_of_getElem? hx)]
      exact hz k

theorem start_balanced (hint : ids.length < 2 ^ 31) (hf : PairArray.TableFits layout 2) :
    ∃ s : CombinerRun K V, start layout ids = some s ∧ Balanced layout ids s [] := by
  obtain ⟨out, hload, hlen, hgood, hz⟩ :=
    loadOutputPage_spec (p := (CombinerProcessor.new layout ids : CombinerProcessor K V)) hint hf
  refine ⟨{
      proc := { CombinerProcessor.new layout ids with outputData := out }
      place := .loading
      shipped := [] },
    by rw [start, hload, Option.map_some]; rfl, rfl, rfl, hlen, fun _ => hgood, fun _ => ⟨rfl, rfl⟩, fun e => Or.elim e nofun nofun, fun i _ k => ?_⟩
  show pagesTotal k i [out] + 0 = 0
  rw [add_zero, pagesTotal, List.map_singleton, List.sum_singleton, hz]

theorem pages_filling (hs : s.place ≠ .done) : s.pages = s.shipped ++ [s.proc.outputData] := by
  rw [pages, if_neg hs]

/-- a new input page: all of it is pending -/
theorem loadInputPage_balanced (hne : ids ≠ []) (h : Balanced layout ids s fed)
    (hs : s.place = .loading) {page : List (PDBMap K V)} (hv : ValidPage ids page) :
    ∃ u, s.step (.loadInputPage page) = some u ∧ Balanced layout ids u (fed ++ [page]) := by
  have hids := h.sameIds
  have hpos : 0 < ids.length := List.length_pos_iff.mpr hne
  obtain ⟨m, hmap, -⟩ := inputMap_spec (i := 0)
    (p := { s.proc with inputData := page, curPartPos := 0 }) (by rw [hids]; exact hv)
    (by rw [hids]; exact hpos)
  obtain ⟨hplaced, hrest⟩ := PDBMap.placed_begin m
  have hload : s.proc.loadInputPage page = some { s.proc with
      inputData := page, curPartPos := 0, begin := some (m, m.begin) } := by
    simp only [loadInputPage, hmap, Option.map_some]
  refine ⟨{ s with
    proc := { s.proc with inputData := page, curPartPos := 0, begin := some (m, m.begin) }
    place := .filling }, by rw [step, if_pos hs, hload, Option.map_some], hids, h.sameLayout,
    h.length, fun _ => h.good (.inl hs), nofun, fun _ => ?_, fun i hi k => ?_⟩
  · refine ⟨by rw [hids]; exact hv, by rw [hids]; exact hpos, ⟨m, m.begin, rfl, hplaced⟩, ?_⟩
    intro _ _ _ _
    exact (h.loading hs).2
  · have hbal := h.balance i hi k
    have hzero : s.pending i k = 0 := by
      rw [pending, if_neg (by rw [hs]; nofun)]
    rw [hzero, add_zero, pages_filling (by rw [hs]; nofun)] at hbal
    rw [pagesTotal_concat, ← hbal]
    show pagesTotal k i (s.shipped ++ [s.proc.outputData]) + _ = _
    congr 1
    show ({ s.proc with inputData := page, curPartPos := 0, begin := some (m, m.begin) } :
      CombinerProcessor K V).pending i k = _
    have hpage : ({ s.proc with inputData := page, curPartPos := 0 } :
        CombinerProcessor K V).inputMap i = page[ids[i]]? := by
      rw [inputMap, hids, List.getElem?_eq_getElem hi, Option.bind_some]
    rcases Nat.eq_zero_or_pos i with rfl | hpos
    · rw [CombinerProcessor.pending, if_neg (Nat.lt_irrefl 0), if_pos rfl, pageTotal, ← hpage, hmap]
      show FiniteMap.keySum k (m.rest m.begin) = m.total k
      rw [hrest, PDBMap.total_eq]
    · rw [CombinerProcessor.pending, if_neg (Nat.not_lt_zero i), if_neg hpos.ne', pageTotal, ← hpage]
      rfl

/-- once around the loop of `fillNextOutputPage` -/
theorem pass_balanced (hint : ids.length < 2 ^ 31) (h : Balanced layout ids s fed)
    (hs : s.place = .filling) {fail : CombineFail V} (hf : s.Fine (.pass fail)) :
    ∃ u, s.step (.pass fail) = some u ∧ Balanced layout ids u fed := by
  have hids := h.sameIds
  have hfill := h.filling (.inl hs)
  have hpages := pages_filling (s := s) (by rw [hs]; nofun)
  have hpend : ∀ i k, s.pending i k = s.proc.pending i k := fun i k => by
    rw [pending, if_pos (.inl hs)]
  have hgood := h.good (.inr hs)
  -- what a pass leaves even stays balanced
  have hbal : ∀ p', Kept s.proc p' → Even s.proc p' → ∀ (i : Nat) (hi : i < ids.length) (k : K),
      pagesTotal k i (s.shipped ++ [p'.outputData]) + p'.pending i k = pagesTotal k ids[i] fed := by
    intro p' _ he i hi k
    have hb := h.balance i hi k
    rw [hpages, hpend, pagesTotal_concat, add_assoc] at hb
    rw [pagesTotal_concat, add_assoc, he i (by rw [hids]; exact hi) k]
    exact hb
  obtain ⟨p', hp, hk, hfl, he, hg⟩ | ⟨p', hp, hk, hfl, he⟩ | ⟨p', hp, hk, hout, hpos, hcur, hz⟩ :=
    pass_spec hfill (by rw [hids]; exact hint) (by rw [h.length, hids]) hgood hf
  · refine ⟨{ s with proc := p' }, by simp only [step, if_pos hs, hp], hk.ids.trans hids,
      hk.layout.trans h.sameLayout, hk.length.trans h.length, fun _ => hg, fun e => ?_,
      fun _ => hfl, fun i hi k => ?_⟩
    · rw [show s.place = .loading from e] at hs
      cases hs
    · have hb := hbal p' hk he i hi k
      rw [pages_filling (s := { s with proc := p' }) (show s.place ≠ .done by rw [hs]; nofun),
        pending, if_pos (Or.inl hs)]
      exact hb
  · exact ⟨{ s with proc := p', place := .full }, by simp only [step, if_pos hs, hp],
      hk.ids.trans hids, hk.layout.trans h.sameLayout, hk.length.trans h.length,
      fun e => Or.elim e nofun nofun, nofun, fun _ => hfl, hbal p' hk he⟩
  · refine ⟨{ s with proc := p', place := .loading }, by simp only [step, if_pos hs, hp],
      hk.ids.trans hids, hk.layout.trans h.sameLayout, hk.length.trans h.length,
      fun _ => by rw [hout]; exact hgood, fun _ => ⟨hpos, hcur⟩, fun e => Or.elim e nofun nofun,
      fun i hi k => ?_⟩
    have hb := h.balance i hi k
    rw [hpages, hpend, hz i (by rw [hids]; exact hi) k] at hb
    show pagesTotal k i (s.shipped ++ [p'.outputData]) + 0 = _
    rw [hout]
    exact hb

/-- the output page is sent out -/
theorem ship_balanced (hint : ids.length < 2 ^ 31) (hf : PairArray.TableFits layout 2)
    (h : Balanced layout ids s fed) (hs : s.place = .full) :
    ∃ u, s.step .ship = some u ∧ Balanced layout ids u fed := by
  have hids := h.sameIds
  have hfill := h.filling (.inr hs)
  obtain ⟨out, hload, hlen, hgood, hz⟩ := loadOutputPage_spec (p := s.proc)
    (by rw [hids]; exact hint) (by rw [h.sameLayout]; exact hf)
  refine ⟨{
      proc := { s.proc with outputData := out, curOutputMap := s.proc.curPartPos }
      place := .filling
      shipped := s.shipped ++ [s.proc.outputData] },
    by rw [step, if_pos hs, hload, Option.map_some], hids, h.sameLayout, hlen.trans (by rw [hids]),
    fun _ => hgood, nofun, fun _ => ?_, fun i hi k => ?_⟩
  · exact ⟨hfill.page, hfill.pos, hfill.begin, fun _ _ _ _ => rfl⟩
  · have hb := h.balance i hi k
    rw [pages_filling (by rw [hs]; nofun), pending, if_pos (.inr hs)] at hb
    show pagesTotal k i ((s.shipped ++ [s.proc.outputData]) ++ [out]) + s.proc.pending i k = _
    rw [pagesTotal_concat, hz, add_zero]
    exact hb

theorem finalize_balanced (h : Balanced layout ids s fed) (hs : s.place = .loading) :
    ∃ u, s.step .finalize = some u ∧ Balanced layout ids u fed := by
  refine ⟨{
      proc := { s.proc with finalized := true }
      place := .done
      shipped := s.shipped ++ [s.proc.outputData] },
    by rw [step, if_pos hs], h.sameIds, h.sameLayout, h.length, fun e => Or.elim e nofun nofun,
    nofun, fun e => Or.elim e nofun nofun, fun i hi k => ?_⟩
  have hb := h.balance i hi k
  rw [pages_filling (by rw [hs]; nofun), pending, if_neg (by rw [hs]; nofun)] at hb
  show pagesTotal k i ((s.shipped ++ [s.proc.outputData]) ++ []) + 0 = _
  rw [List.append_nil]
  exact hb

/-- **One step.** -/
theorem step_balanced (hne : ids ≠ []) (hint : ids.length < 2 ^ 31)
    (hf : PairArray.TableFits layout 2) (h : Balanced layout ids s fed) {op : CombinerOp K V}
    (hfine : s.Fine op) (hu : s.step op = some u) : Balanced layout ids u (feed fed op) := by
  -- an operation that is possible is the one of its lemma
  have hsame : ∀ {fed'}, (∃ u', s.step op = some u' ∧ Balanced layout ids u' fed') →
      Balanced layout ids u fed' := by
    intro fed' ⟨u', hu', hb⟩
    rw [hu] at hu'
    cases hu'
    exact hb
  cases op with
  | loadInputPage page =>
    have hs : s.place = .loading := by
      by_contra hs
      rw [step, if_neg hs] at hu
      cases hu
    have hv : ValidPage ids page := by
      have : ValidPage s.proc.nodePartitionIds page := hfine
      rwa [h.sameIds] at this
    exact hsame (loadInputPage_balanced hne h hs hv)
  | pass fail =>
    have hs : s.place = .filling := by
      by_contra hs
      rw [step, if_neg hs] at hu
      cases hu
    exact hsame (pass_balanced hint h hs hfine)
  | ship =>
    have hs : s.place = .full := by
      by_contra hs
      rw [step, if_neg hs] at hu
      cases hu
    exact hsame (ship_balanced hint hf h hs)
  | finalize =>
    have hs : s.place = .loading := by
      by_contra hs
      rw [step, if_neg hs] at hu
      cases hu
    exact hsame (finalize_balanced h hs)

/-- the output pages of a node add up to the input pages: the map at position `i` of the output to the
maps of the `i`-th partition of the node; and a pair of the output has the key of a pair of that
partition -/
structure Combined (ids : List Nat) (pages fed : List (List (PDBMap K V))) : Prop where
  totals : ∀ (i : Nat) (h : i < ids.length) (k : K), pagesTotal k i pages = pagesTotal k ids[i] fed
  partitions : ∀ (i : Nat) (h : i < ids.length), ∀ page ∈ pages, ∀ m, page[i]? = some m →
    ∀ e ∈ m.iterate, ∃ input ∈ fed, ∃ m', input[ids[i]]? = some m' ∧ FiniteMap.Has m'.iterate e.1

/-- a key adds up to something if some page has it -/
theorem pagesTotal_ne_zero {pages : List (List (PDBMap K V))} {i : Nat} {k : K} :
    pagesTotal k i pages ≠ 0 ↔
      ∃ page ∈ pages, ∃ m, page[i]? = some m ∧ FiniteMap.Has m.iterate k := by
  rw [ne_eq, pagesTotal, FiniteMap.sum_eq_zero, List.forall_mem_map]
  push Not
  refine exists_congr fun page => and_congr_right fun _ => ?_
  unfold pageTotal
  cases page[i]? with
  | none => simp
  | some m =>
    show m.total k ≠ 0 ↔ _
    rw [PDBMap.total, ne_eq, FiniteMap.keySum_eq_zero, not_not]
    simp

theorem Balanced.combined (h : Balanced layout ids s fed) (hs : s.place = .done) :
    Combined ids s.shipped fed := by
  have htotals : ∀ (i : Nat) (hi : i < ids.length) (k : K),
      pagesTotal k i s.shipped = pagesTotal k ids[i] fed := by
    intro i hi k
    have hb := h.balance i hi k
    rw [pages, if_pos hs, List.append_nil, pending, if_neg (by rw [hs]; simp), add_zero] at hb
    exact hb
  refine ⟨htotals, fun i hi page hpage m hm e he => ?_⟩
  -- the pair is a value for its key, so the input has one, too
  have hne : pagesTotal e.1 i s.shipped ≠ 0 :=
    pagesTotal_ne_zero.mpr ⟨page, hpage, m, hm, e, he, BEq.rfl⟩
  rw [htotals i hi] at hne
  exact pagesTotal_ne_zero.mp hne

/-- **The combiner is exactly-once.** -/
theorem combined_of_reach (layout : ArrayLayout) (ids : List Nat) (hne : ids ≠ [])
    (hint : ids.length < 2 ^ 31) (hf : PairArray.TableFits layout 2) :
    ∃ s₀ : CombinerRun K V, start layout ids = some s₀ ∧ ∀ s fed,
      Reach fedStep (fun x op => x.1.Fine op) (s₀, []) (s, fed) →
      (s.place = .done → Combined ids s.shipped fed) ∧
      (s.place = .filling → ∀ fail, s.Fine (.pass fail) → ∃ u, s.step (.pass fail) = some u) ∧
      (s.place = .full → ∃ u, s.step .ship = some u) := by
  obtain ⟨s₀, hs₀, hb₀⟩ := start_balanced (K := K) (V := V) hint hf
  refine ⟨s₀, hs₀, fun s fed hreach => ?_⟩
  have hb : Balanced layout ids s fed := hreach.inv (P := fun x => Balanced layout ids x.1 x.2) hb₀
    fun x op y hx hfine hy => by
      obtain ⟨u, hu, rfl⟩ := Option.map_eq_some_iff.mp hy
      exact step_balanced hne hint hf hx hfine hu
  refine ⟨hb.combined, fun hs fail hfine => ?_, fun hs => ?_⟩
  · obtain ⟨u, hu, -⟩ := pass_balanced hint hb hs hfine
    exact ⟨u, hu⟩
  · obtain ⟨u, hu, -⟩ := ship_balanced hint hf hb hs
    exact ⟨u, hu⟩

/-! ## Examples -/

instance (ids : List Nat) (page : List (PDBMap K V)) : Decidable (ValidPage ids page) :=
  decidable_of_iff ((∀ m ∈ page, m.entries.length ≤ m.size) ∧ ∀ id ∈ ids, id < page.length)
    ⟨fun h => ⟨h.1, h.2⟩, fun h => ⟨h.counted, h.partitions⟩⟩

instance [DecidableEq V] (fail : CombineFail V) (p : CombinerProcessor K V) :
    Decidable (CombineFine fail p) :=
  match hb : p.begin, ho : p.outputData[p.curOutputMap]? with
  | some (m, it), some out =>
    decidable_of_iff (PDBMap.AggregateFine fail.aggregate out (m.myArray.data it.slot).key)
      ⟨fun h m' it' out' hb' ho' => by
        obtain ⟨rfl, rfl⟩ := Prod.mk.inj (Option.some.inj (hb.symm.trans hb'))
        obtain rfl := Option.some.inj (ho.symm.trans ho')
        exact h, fun h => h m it out hb ho⟩
  | none, _ => .isTrue fun _ _ _ hb' _ => by rw [hb] at hb'; cases hb'
  | _, none => .isTrue fun _ _ _ _ ho' => by rw [ho] at ho'; cases ho'

instance [DecidableEq V] (s : CombinerRun K V) : (op : CombinerOp K V) → Decidable (s.Fine op)
  | .loadInputPage page => inferInstanceAs (Decidable (ValidPage s.proc.nodePartitionIds page))
  | .pass fail =>
    match hs : s.proc.seek with
    | .here p => decidable_of_iff (CombineFine fail p)
        ⟨fun h p' hp => by
          rw [hs] at hp
          cases hp
          exact h, fun h => h p hs⟩
    | .again _ => .isTrue fun _ hp => by rw [hs] at hp; cases hp
    | .finished _ => .isTrue fun _ hp => by rw [hs] at hp; cases hp
    | .fatal => .isTrue fun _ hp => by rw [hs] at hp; cases hp
  | .ship => .isTrue trivial
  | .finalize => .isTrue trivial

def smallLayout : ArrayLayout := ⟨24, 64, 8, ArrayLayout.threeWords_pos⟩

/-- nothing fails -/
def quiet : AggregateFail Nat := ⟨[], none, false, none, none⟩

/-- the map that some rows build when nothing fails -/
def build (rows : List (UInt64 × Nat)) : Option (PDBMap UInt64 Nat) :=
  rows.foldl (fun m e => m.bind fun m =>
    match m.aggregate quiet e.1 e.2 with
    | .done m => some m
    | _ => none) (PDBMap.create smallLayout 2)

/-- a node with the partitions 2 and 0; it runs out of space in the copy of a key, in the copy of a
value and while the values of a key are added -/
theorem combined_three : ∃ (s : CombinerRun UInt64 Nat) (fed : List (List (PDBMap UInt64 Nat))),
    s.shipped.length = 4 ∧ fed.length = 2 ∧ Combined [2, 0] s.shipped fed := by
  obtain ⟨s₀, hs₀, hreach⟩ := combined_of_reach (K := UInt64) (V := Nat)
    smallLayout [2, 0] (by decide) (by decide) (by decide)
  have hrun : ((start smallLayout [2, 0]).bind fun s =>
      ([[(5, 1), (6, 2)], [], [(1, 10), (4, 4)]].mapM build).bind fun page =>
      ([[(6, 7)], [(3, 3)], [(1, 10)]].mapM build).bind fun page' =>
      run (guarded fedStep fun x op => x.1.Fine op) (s, [])
        [.loadInputPage page, .pass ⟨false, quiet⟩, .pass ⟨false, { quiet with index := [.copyKey] }⟩,
          .ship, .pass ⟨false, quiet⟩, .pass ⟨false, { quiet with assign := some 9 }⟩, .ship,
          .pass ⟨false, quiet⟩, .pass ⟨false, quiet⟩, .pass ⟨false, quiet⟩, .loadInputPage page',
          .pass ⟨false, quiet⟩, .pass ⟨false, { quiet with add := some 5 }⟩, .ship,
          .pass ⟨false, quiet⟩, .pass ⟨false, quiet⟩, .finalize]).map
      (fun x => (x.1.place, x.1.shipped.length, x.2.length)) = some (.done, 4, 2) := by
    decide +kernel
  rw [hs₀, Option.bind_some] at hrun
  obtain ⟨⟨s, fed⟩, hsf, hobs⟩ := Option.map_eq_some_iff.mp hrun
  obtain ⟨page, -, hsf⟩ := Option.bind_eq_some_iff.mp hsf
  obtain ⟨page', -, hsf⟩ := Option.bind_eq_some_iff.mp hsf
  obtain ⟨hplace, hobs⟩ := Prod.mk.inj hobs
  obtain ⟨hshipped, hfed⟩ := Prod.mk.inj hobs
  exact ⟨s, fed, hshipped, hfed, (hreach s fed (Reach.of_run _ hsf)).1 hplace⟩

/-- the input is as it should be -/
def ValidInput (s : CombinerRun K V) : CombinerOp K V → Prop
  | .loadInputPage page => ValidPage s.proc.nodePartitionIds page
  | _ => True

instance (s : CombinerRun K V) : (op : CombinerOp K V) → Decidable (s.ValidInput op)
  | .loadInputPage page => inferInstanceAs (Decidable (ValidPage s.proc.nodePartitionIds page))
  | .pass _ => .isTrue trivial
  | .ship => .isTrue trivial
  | .finalize => .isTrue trivial

/-- **A table left half moved**: the third key makes the table grow, and the space runs out behind the
first entry that is moved; its value is on no page. -/
theorem combined_not_always : ¬ ∀ (layout : ArrayLayout) (ids : List Nat), ids ≠ [] →
    ids.length < 2 ^ 31 → PairArray.TableFits layout 2 →
    ∃ s₀ : CombinerRun UInt64 Nat, start layout ids = some s₀ ∧ ∀ s fed,
      Reach fedStep (fun x op => x.1.ValidInput op) (s₀, []) (s, fed) → s.place = .done →
      Combined ids s.shipped fed := by
  intro hall
  obtain ⟨s₀, hs₀, hreach⟩ := hall smallLayout [0] (by decide) (by decide) (by decide)
  have hrun : ((start smallLayout [0]).bind fun s =>
      ([[(5, 1), (6, 2), (7, 3)]].mapM build).bind fun page =>
      run (guarded fedStep fun x op => x.1.ValidInput op) (s, [])
        [.loadInputPage page, .pass ⟨false, quiet⟩, .pass ⟨false, quiet⟩,
          .pass ⟨false, { quiet with index := [.moved 2] }⟩, .ship, .pass ⟨false, quiet⟩,
          .pass ⟨false, quiet⟩, .finalize]).map
      (fun x => (x.1.place, decide ((pagesTotal 7 0 x.1.shipped : WithZero Nat) = 0),
        decide ((pagesTotal 7 0 x.2 : WithZero Nat) = 0))) = some (.done, true, false) := by
    decide +kernel
  rw [hs₀, Option.bind_some] at hrun
  obtain ⟨⟨s, fed⟩, hsf, hobs⟩ := Option.map_eq_some_iff.mp hrun
  obtain ⟨page, -, hsf⟩ := Option.bind_eq_some_iff.mp hsf
  obtain ⟨hplace, hobs⟩ := Prod.mk.inj hobs
  obtain ⟨hout, hin⟩ := Prod.mk.inj hobs
  have heq := (hreach s fed (Reach.of_run _ hsf) hplace).totals 0 (by decide) 7
  have heq' : (pagesTotal 7 0 s.shipped : WithZero Nat) = pagesTotal 7 0 fed := heq
  rw [heq', hin] at hout
  cases hout

end CombinerRun
end Netsdb
