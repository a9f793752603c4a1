import Mathlib.Logic.Function.Basic
import Netsdb.Lib.DepthFirst
import Netsdb.Lib.Label
import Netsdb.Planning.FindSource

/-!
# The two versions of `buildPipeline` (`ComputePlan.cc`)

A pipeline goes from a tuple set to a computation that consumes another one.  One version is given the
tuple sets on its way, the other one looks for a way itself, depth first.

* `LogicalPlan`     the atomic computations behind pointers, and who makes and who reads a tuple set;
* `stage`           the executor for one atomic computation;
* `buildSets`       the version that is given the tuple sets;
* `buildPath`       the version that looks for them;
* `narrow`          the columns of the target are overwritten in the plan;
* `builds_agree`    where both build the same pipeline, and where the order of the builds is no matter.
-/

set_option linter.unusedSectionVars false

namespace Netsdb.Tcap.BuildPipeline
open DepthFirst Label

structure LogicalPlan where
  /-- the computations, by their pointers -/
  nodes : ℕ → AtomicComputation
  size : ℕ
  producers : String → Option ℕ
  consumers : String → List ℕ
  /-- `allConstituentComputations`, and the lambdas of each -/
  computations : List String
  lambdas : List (String × String)

/-- `TupleSpec()` -/
def TupleSpec.empty : TupleSpec := ⟨"Empty", []⟩

namespace LogicalPlan

def new (computations : List String) (lambdas : List (String × String)) : LogicalPlan where
  nodes _ := ⟨.scan, TupleSpec.empty, TupleSpec.empty, TupleSpec.empty, "", "", TupleSpec.empty, TupleSpec.empty⟩
  size := 0
  producers _ := none
  consumers _ := []
  computations := computations
  lambdas := lambdas

/-- a join is added for both of its inputs -/
def addAtomicComputation (plan : LogicalPlan) (addMe : AtomicComputation) : LogicalPlan :=
  { plan with
    nodes := Function.update plan.nodes plan.size addMe
    size := plan.size + 1
    producers := Function.update plan.producers addMe.output.setName (some plan.size)
    consumers := fun name => plan.consumers name ++
      ((if addMe.input.setName = name then [plan.size] else []) ++
        if addMe.type = .joinSets ∧ addMe.rightInput.setName = name then [plan.size] else []) }

/-- `getOutputName` -/
def outputName (plan : LogicalPlan) (a : ℕ) : String := (plan.nodes a).output.setName

/-- `getNode(..).getLambda(..)`; what is not there ends the process -/
def hasLambda (plan : LogicalPlan) (c : AtomicComputation) : Bool :=
  decide (c.computationName ∈ plan.computations ∧ (c.computationName, c.lambdaName) ∈ plan.lambdas)

/-- the consumers of what a computation makes -/
def next (plan : LogicalPlan) (a : ℕ) : List ℕ := plan.consumers (plan.outputName a)

def isTarget (plan : LogicalPlan) (targetTupleSetName : String) (a : ℕ) : Bool :=
  decide (plan.outputName a = targetTupleSetName)

end LogicalPlan

/-- which executor, with the parameters that only it has -/
inductive Executor where
  | filter
  | apply (computationName lambdaName : String)
  | leftHasher (computationName lambdaName : String)
  | rightHasher (computationName lambdaName : String)
  | hashOne
  | flatten
  | join (computationName : String) (needToSwapAtts : Bool) (threadId : ℤ) (hashedInputSchema : TupleSpec)
deriving DecidableEq

structure Stage (P : Type) where
  executor : Executor
  inputSchema : TupleSpec
  attsToOperateOn : TupleSpec
  attsToIncludeInOutput : TupleSpec
  arg : Option P
deriving DecidableEq

/-- what `getComputeSink` is given -/
structure Target where
  targetSpec : TupleSpec
  targetAttsToOpOn : TupleSpec
  targetProjection : TupleSpec
deriving DecidableEq

/-- the computation and the columns of the source, those of the sink, and the executors -/
structure Pipeline (P : Type) where
  source : String × TupleSpec
  sink : String × Target
  stages : List (Stage P)
deriving DecidableEq

/-- the arguments of both versions, less the functions for the pages -/
structure Arguments (P : Type) where
  threadId : ℤ
  targetComputationName : String
  params : String → Option P

variable {P : Type}

/-- the stage for `a` behind `lastOne`; a computation of another type is reported, and has none -/
def stage (plan : LogicalPlan) (args : Arguments P) (lastOne a : ℕ) : Option (List (Stage P)) :=
  let last := (plan.nodes lastOne).output
  let c := plan.nodes a
  let one (executor : Executor) : List (Stage P) :=
    [⟨executor, last, c.input, c.projection, args.params c.output.setName⟩]
  match c.type with
  | .filter => some (one .filter)
  | .apply => if plan.hasLambda c then some (one (.apply c.computationName c.lambdaName)) else none
  | .hashLeft => if plan.hasLambda c then some (one (.leftHasher c.computationName c.lambdaName)) else none
  | .hashRight => if plan.hasLambda c then some (one (.rightHasher c.computationName c.lambdaName)) else none
  | .hashOne => some (one .hashOne)
  | .flatten => some (one .flatten)
  | .joinSets =>
    if c.computationName ∈ plan.computations then
      if last.setName = c.rightInput.setName then
        some [⟨.join c.computationName true args.threadId c.projection, last, c.rightInput, c.rightProjection,
          args.params c.output.setName⟩]
      else some (one (.join c.computationName false args.threadId c.rightProjection))
    else none
  | _ => some []

/-- `targetSpec = targetProjection`, where `targetSpec` is a reference to the output of computation `a` -/
def narrow (plan : LogicalPlan) (a : ℕ) (targetComputationName : String) (projection : TupleSpec) : LogicalPlan :=
  if Within "JoinComp" targetComputationName then plan
  else { plan with nodes := Function.update plan.nodes a { plan.nodes a with output := projection } }

/-- the consumer `c` reads the tuple set of `a` as its input -/
def leftTarget (plan : LogicalPlan) (a c : ℕ) (targetComputationName : String) : LogicalPlan × Target :=
  let plan' := narrow plan a targetComputationName (plan.nodes c).projection
  (plan', ⟨(plan'.nodes a).output, (plan.nodes c).input, (plan.nodes c).projection⟩)

/-- or it is a join that reads it as its right input; anything else ends the process -/
def rightTarget (plan : LogicalPlan) (a c : ℕ) : Option Target :=
  if (plan.nodes c).type ≠ .joinSets then none
  else if (plan.nodes c).rightInput.setName = plan.outputName a then
    some ⟨(plan.nodes a).output, (plan.nodes c).rightInput, (plan.nodes c).rightProjection⟩
  else none

/-! ## the version with the tuple sets -/

def targetOfSets (plan : LogicalPlan) (targetTupleSetName targetComputationName : String) :
    Option (LogicalPlan × Target) := do
  let a ← plan.producers targetTupleSetName
  let targetSpec := (plan.nodes a).output
  if ¬ Within "SelectionComp" targetComputationName then
    if (plan.consumers targetTupleSetName).length > 1 then some (plan, ⟨targetSpec, targetSpec, targetSpec⟩)
    else do
      let c ← (plan.consumers targetTupleSetName).head?
      if targetSpec.setName = (plan.nodes c).input.setName then some (leftTarget plan a c targetComputationName)
      else (rightTarget plan a c).map fun target => (plan, target)
  else some (plan, ⟨targetSpec, targetSpec, targetSpec⟩)

/-- the stages of the tuple sets after the first; one that nobody makes gives the null pointer -/
def stagesOfSets (plan : LogicalPlan) (args : Arguments P) : ℕ → List String → Option (Option (List (Stage P)))
  | _, [] => some (some [])
  | lastOne, name :: names =>
    match plan.producers name with
    | none => some none
    | some a => do
      let s ← stage plan args lastOne a
      let rest ← stagesOfSets plan args a names
      some (rest.map (s ++ ·))

/-- `none` is the end of the process, and a pipeline of `none` the null pointer; the plan is returned as the
build leaves it -/
def buildSets (plan : LogicalPlan) (args : Arguments P) (buildTheseTupleSets : List String) :
    Option (Option (Pipeline P) × LogicalPlan) :=
  match buildTheseTupleSets with
  | [] => some (none, plan)
  | first :: rest => do
    let a ← plan.producers first
    let producerName := (plan.nodes a).computationName
    if producerName ∈ plan.computations then do
      let origSpec := (plan.nodes a).output
      let (plan', target) ← targetOfSets plan (rest.getLast?.getD first) args.targetComputationName
      if args.targetComputationName ∈ plan.computations then do
        let stages ← stagesOfSets plan' args a rest
        some (stages.map fun s => ⟨(producerName, origSpec), (args.targetComputationName, target), s⟩, plan')
      else none
    else none

/-! ## the version with the depth-first search -/

/-- `recurse`, from the end of the list so far; it looks no deeper than there are computations -/
def recurse (plan : LogicalPlan) (targetTupleSetName : String) : ℕ → DepthFirst.Outcome ℕ :=
  search plan.next (plan.isTarget targetTupleSetName) (plan.size + 1)

/-- the loop over the consumers of the target -/
def targetLoop (plan : LogicalPlan) (a : ℕ) (targetComputationName : String) :
    List ℕ → Target → Option (LogicalPlan × Target)
  | [], target => some (plan, target)
  | c :: consumers, target =>
    if (plan.nodes c).computationName = targetComputationName then
      if plan.outputName a = (plan.nodes c).input.setName then some (leftTarget plan a c targetComputationName)
      else
        match rightTarget plan a c with
        | none => none
        | some target => targetLoop plan a targetComputationName consumers target
    else targetLoop plan a targetComputationName consumers target

def targetOfPath (plan : LogicalPlan) (targetTupleSetName targetComputationName : String) :
    Option (LogicalPlan × Target) := do
  let a ← plan.producers targetTupleSetName
  targetLoop plan a targetComputationName (plan.consumers (plan.outputName a))
    ⟨(plan.nodes a).output, TupleSpec.empty, TupleSpec.empty⟩

def stagesOfPath (plan : LogicalPlan) (args : Arguments P) : ℕ → List ℕ → Option (List (Stage P))
  | _, [] => some []
  | lastOne, a :: listSoFar => do
    let s ← stage plan args lastOne a
    let rest ← stagesOfPath plan args a listSoFar
    some (s ++ rest)

def buildPath (plan : LogicalPlan) (args : Arguments P) (sourceTupleSetName targetTupleSetName : String) :
    Option (Option (Pipeline P) × LogicalPlan) := do
  let a ← plan.producers sourceTupleSetName
  let producerName := (plan.nodes a).computationName
  if producerName ∈ plan.computations then
    let origSpec := (plan.nodes a).output
    match firstOf (recurse plan targetTupleSetName) (plan.consumers origSpec.setName) with
    | .found listSoFar => do
      let (plan', target) ← targetOfPath plan targetTupleSetName args.targetComputationName
      if args.targetComputationName ∈ plan.computations then do
        let stages ← stagesOfPath plan' args a listSoFar
        some (some ⟨(producerName, origSpec), (args.targetComputationName, target), stages⟩, plan')
      else none
    | _ => none
  else none

/-! ## any number of builds -/

inductive Request (P : Type) where
  | sets (args : Arguments P) (buildTheseTupleSets : List String)
  | path (args : Arguments P) (sourceTupleSetName targetTupleSetName : String)

def build (plan : LogicalPlan) : Request P → Option (Option (Pipeline P) × LogicalPlan)
  | .sets args buildTheseTupleSets => buildSets plan args buildTheseTupleSets
  | .path args sourceTupleSetName targetTupleSetName => buildPath plan args sourceTupleSetName targetTupleSetName

/-- the results one after the other, from one plan -/
def buildAll (plan : LogicalPlan) : List (Request P) → List (Option (Option (Pipeline P)))
  | [] => []
  | r :: requests =>
    match build plan r with
    | none => [none]
    | some (pipeline, plan') => some pipeline :: buildAll plan' requests

/-! ## the graph -/

/-- the maps go with the computations: each tuple set is made by one of them -/
structure WellFormed (plan : LogicalPlan) : Prop where
  made : ∀ name a, plan.producers name = some a → plan.outputName a = name
  makes : ∀ name, ∀ c ∈ plan.consumers name, plan.producers (plan.outputName c) = some c
  producers_lt : ∀ name a, plan.producers name = some a → a < plan.size

/-- the computations can be ordered so that a consumer comes after what it consumes -/
def Acyclic (plan : LogicalPlan) : Prop :=
  ∃ rank : ℕ → ℕ, (∀ a, rank a ≤ plan.size) ∧ ∀ a, ∀ c ∈ plan.next a, rank a < rank c

/-- The sink's columns are the same: the target computation alone consumes the tuple set, and is not a
selection; or it takes all columns and keeps them. -/
def SameTarget (plan : LogicalPlan) (targetTupleSetName targetComputationName : String) : Prop :=
  (∃ c, plan.consumers targetTupleSetName = [c] ∧ (plan.nodes c).computationName = targetComputationName ∧
    ¬ Within "SelectionComp" targetComputationName) ∨
  ∃ a c, plan.producers targetTupleSetName = some a ∧
    (plan.consumers targetTupleSetName).find? (fun c => (plan.nodes c).computationName = targetComputationName) = some c ∧
    (plan.nodes c).input = (plan.nodes a).output ∧ (plan.nodes c).projection = (plan.nodes a).output

/-- the columns of the target stay as they are: nothing is assigned, or what is there -/
def Keeps (plan : LogicalPlan) : Request P → Prop
  | .sets args buildTheseTupleSets => ∀ name ∈ buildTheseTupleSets.getLast?, ∀ a, plan.producers name = some a →
    Within "SelectionComp" args.targetComputationName ∨ Within "JoinComp" args.targetComputationName ∨
      (plan.consumers name).length > 1 ∨ ∀ c ∈ (plan.consumers name).head?,
        plan.outputName a = (plan.nodes c).input.setName → (plan.nodes c).projection = (plan.nodes a).output
  | .path args _ targetTupleSetName => ∀ a, plan.producers targetTupleSetName = some a →
    Within "JoinComp" args.targetComputationName ∨ ∀ c ∈ plan.consumers (plan.outputName a),
      (plan.nodes c).computationName = args.targetComputationName →
        plan.outputName a = (plan.nodes c).input.setName → (plan.nodes c).projection = (plan.nodes a).output

section
variable {plan plan' : LogicalPlan} {args : Arguments P} {a c : ℕ} {name N : String} {target target' : Target}
  {path cs : List ℕ} {addMe : AtomicComputation} {requests : List (Request P)} {r : Request P}

theorem WellFormed.consumers_lt (h : WellFormed plan) (hc : c ∈ plan.consumers name) : c < plan.size :=
  h.producers_lt _ c (h.makes name c hc)

theorem WellFormed.new (computations : List String) (lambdas : List (String × String)) :
    WellFormed (LogicalPlan.new computations lambdas) :=
  ⟨fun _ _ h => (by cases h), fun _ _ h => (by cases h), fun _ _ h => (by cases h)⟩

/-- a new computation with a new tuple set -/
theorem WellFormed.add (h : WellFormed plan) (hnew : plan.producers addMe.output.setName = none) :
    WellFormed (plan.addAtomicComputation addMe) := by
  have hold : ∀ c < plan.size, (plan.addAtomicComputation addMe).outputName c = plan.outputName c := fun c hc =>
    congrArg (fun x : AtomicComputation => x.output.setName) (Function.update_of_ne (Nat.ne_of_lt hc) _ _)
  have hlast : (plan.addAtomicComputation addMe).outputName plan.size = addMe.output.setName :=
    congrArg (fun x : AtomicComputation => x.output.setName) (Function.update_self _ _ _)
  have hprod : ∀ name, name ≠ addMe.output.setName →
      (plan.addAtomicComputation addMe).producers name = plan.producers name :=
    fun name hne => Function.update_of_ne hne _ _
  have hself : (plan.addAtomicComputation addMe).producers addMe.output.setName = some plan.size :=
    Function.update_self _ _ _
  refine ⟨fun name a ha => ?_, fun name c hc => ?_, fun name a ha => ?_⟩
  · by_cases hne : name = addMe.output.setName
    · rw [hne, hself] at ha
      rw [← Option.some.inj ha, hlast, hne]
    · rw [hprod name hne] at ha
      rw [hold a (h.producers_lt name a ha)]
      exact h.made name a ha
  · rcases List.mem_append.mp hc with hc | hc
    · have hmakes := h.makes name c hc
      rw [hold c (h.consumers_lt hc), hprod, hmakes]
      intro heq
      rw [heq, hnew] at hmakes
      cases hmakes
    · obtain rfl : c = plan.size := by
        rcases List.mem_append.mp hc with hc | hc <;> split at hc
        · exact List.mem_singleton.mp hc
        · cases hc
        · exact List.mem_singleton.mp hc
        · cases hc
      rw [hlast, hself]
  · show a < plan.size + 1
    by_cases hne : name = addMe.output.setName
    · rw [hne, hself] at ha
      rw [← Option.some.inj ha]
      exact Nat.lt_succ_self _
    · rw [hprod name hne] at ha
      exact Nat.lt_succ_of_lt (h.producers_lt name a ha)

theorem Acyclic.new (computations : List String) (lambdas : List (String × String)) :
    Acyclic (LogicalPlan.new computations lambdas) := by
  refine ⟨fun _ => 0, fun _ => Nat.le_refl 0, fun a c hc => ?_⟩
  cases hc

/-- a plan in which nobody consumes what comes later -/
theorem Acyclic.add (h : Acyclic plan) (hnone : plan.consumers addMe.output.setName = [])
    (hself : addMe.input.setName ≠ addMe.output.setName)
    (hright : addMe.type ≠ .joinSets ∨ addMe.rightInput.setName ≠ addMe.output.setName) :
    Acyclic (plan.addAtomicComputation addMe) := by
  obtain ⟨rank, hn, hrank⟩ := h
  have hold : ∀ a, a ≠ plan.size → (plan.addAtomicComputation addMe).outputName a = plan.outputName a := fun a ha =>
    congrArg (fun x : AtomicComputation => x.output.setName) (Function.update_of_ne ha _ _)
  have hlast : (plan.addAtomicComputation addMe).outputName plan.size = addMe.output.setName :=
    congrArg (fun x : AtomicComputation => x.output.setName) (Function.update_self _ _ _)
  -- the new computation has the highest rank
  refine ⟨Function.update rank plan.size (plan.size + 1), fun a => ?_, fun a c hc => ?_⟩
  · show _ ≤ plan.size + 1
    rcases eq_or_ne a plan.size with rfl | ha
    · rw [Function.update_self]
    · rw [Function.update_of_ne ha]
      exact Nat.le_succ_of_le (hn a)
  · unfold LogicalPlan.next at hc
    rcases eq_or_ne a plan.size with rfl | ha
    · rw [hlast] at hc
      rcases List.mem_append.mp hc with hc | hc
      · rw [hnone] at hc
        cases hc
      · rw [if_neg hself, if_neg fun h => hright.elim (fun ht => ht h.1) fun hr => hr h.2] at hc
        cases hc
    · rw [hold a ha] at hc
      rw [Function.update_of_ne ha]
      rcases eq_or_ne c plan.size with rfl | hne
      · rw [Function.update_self]
        exact Nat.lt_succ_of_le (hn a)
      · rw [Function.update_of_ne hne]
        refine hrank a c ?_
        rcases List.mem_append.mp hc with hc | hc
        · exact hc
        · rcases List.mem_append.mp hc with hc | hc <;> split at hc
          · exact absurd (List.mem_singleton.mp hc) hne
          · cases hc
          · exact absurd (List.mem_singleton.mp hc) hne
          · cases hc

theorem FirstPath.last (h : FirstPath plan.next (plan.isTarget name) cs path) :
    ∃ init a, path = init ++ [a] ∧ plan.outputName a = name := by
  induction h with
  | @here _ _ a _ h => exact ⟨[], a, rfl, of_decide_eq_true h⟩
  | @step _ _ _ a _ _ _ ih =>
    obtain ⟨init, b, rfl, hb⟩ := ih
    exact ⟨a :: init, b, rfl, hb⟩

theorem FirstPath.makes (hwf : WellFormed plan) {source : String}
    (h : FirstPath plan.next (plan.isTarget name) cs path) (hcs : cs = plan.consumers source) :
    ∀ a ∈ path, plan.producers (plan.outputName a) = some a := by
  induction h generalizing source with
  | @here before after a _ _ =>
    intro b hb
    rw [List.mem_singleton.mp hb]
    exact hwf.makes source a (hcs ▸ List.mem_append_right _ List.mem_cons_self)
  | @step before after p a _ _ _ ih =>
    intro b hb
    rcases List.mem_cons.mp hb with rfl | hb
    · exact hwf.makes source b (hcs ▸ List.mem_append_right _ List.mem_cons_self)
    · exact ih rfl b hb

/-! ## the target -/

/-- nobody else's columns are assigned, and the maps stay -/
theorem narrow_producers (projection : TupleSpec) : (narrow plan a N projection).producers = plan.producers := by
  unfold narrow
  split <;> rfl

theorem narrow_self (projection : TupleSpec) (h : Within "JoinComp" N ∨ projection = (plan.nodes a).output) :
    narrow plan a N projection = plan := by
  unfold narrow
  split
  · rfl
  · rename_i hno
    rw [h.resolve_left hno]
    exact congrArg (fun nodes => { plan with nodes := nodes }) (Function.update_eq_self a plan.nodes)

theorem leftTarget_self (h : Within "JoinComp" N ∨ (plan.nodes c).projection = (plan.nodes a).output) :
    leftTarget plan a c N = (plan, ⟨(plan.nodes a).output, (plan.nodes c).input, (plan.nodes c).projection⟩) := by
  unfold leftTarget
  dsimp only
  rw [narrow_self _ h]

/-- consumers of other computations are passed over -/
theorem targetLoop_find (h : cs.find? (fun c => (plan.nodes c).computationName = N) = some c)
    (hc : plan.outputName a = (plan.nodes c).input.setName) :
    targetLoop plan a N cs target = some (leftTarget plan a c N) := by
  induction cs with
  | nil => cases h
  | cons d cs ih =>
    rw [List.find?_cons] at h
    rw [targetLoop]
    by_cases hd : (plan.nodes d).computationName = N
    · rw [decide_eq_true hd] at h
      obtain rfl := Option.some.inj h
      rw [if_pos hd, if_pos hc]
    · rw [decide_eq_false hd] at h
      rw [if_neg hd]
      exact ih h

/-- **Both versions give the sink the same columns.** -/
theorem target_agrees (hwf : WellFormed plan) (h : SameTarget plan name N) :
    targetOfSets plan name N = targetOfPath plan name N := by
  unfold targetOfSets targetOfPath
  cases ha : plan.producers name with
  | none => rfl
  | some a =>
    have hname := hwf.made name a ha
    rw [Option.bind_eq_bind, Option.bind_some, Option.bind_some, hname]
    rcases h with ⟨c, hcs, hN, hsel⟩ | ⟨a', c, ha', hfind, hinput, hproj⟩
    · rw [if_pos hsel, hcs, if_neg (show ¬ [c].length > 1 from Nat.lt_irrefl 1), targetLoop,
        if_pos hN]
      show (if (plan.nodes a).output.setName = (plan.nodes c).input.setName then _ else _) = _
      split
      · rename_i hleft
        exact (if_pos hleft).symm
      · rename_i hleft
        refine Eq.trans ?_ (if_neg hleft).symm
        cases rightTarget plan a c <;> rfl
    · obtain rfl : a' = a := Option.some.inj (ha'.symm.trans ha)
      have hleft : plan.outputName a' = (plan.nodes c).input.setName := congrArg TupleSpec.setName hinput.symm
      rw [targetLoop_find hfind hleft, leftTarget_self (Or.inr hproj), hinput, hproj]
      split
      · split
        · rfl
        · -- one consumer only: the loop finds it as well
          rename_i hone
          obtain ⟨d, hd⟩ : ∃ d, plan.consumers name = [d] := by
            cases hcs : plan.consumers name with
            | nil =>
              rw [hcs] at hfind
              cases hfind
            | cons d ds =>
              rw [hcs, List.length_cons] at hone
              have hds : ds = [] := List.length_eq_zero_iff.mp (by omega)
              exact ⟨d, by rw [hds]⟩
          obtain rfl : d = c := by
            rw [hd] at hfind
            exact (List.mem_singleton.mp (List.mem_of_find?_eq_some hfind)).symm
          rw [hd]
          show (if (plan.nodes a').output.setName = (plan.nodes d).input.setName then _ else _) = _
          rw [if_pos (by rw [hinput]), leftTarget_self (Or.inr hproj), hinput, hproj]
      · rfl

/-! ## the pipelines -/

/-- the stages are those of the computations that make the tuple sets -/
theorem stages_agree (h : ∀ a ∈ path, plan.producers (plan'.outputName a) = some a) (lastOne : ℕ) :
    stagesOfSets plan args lastOne (path.map plan'.outputName) = (stagesOfPath plan args lastOne path).map some := by
  induction path generalizing lastOne with
  | nil => rfl
  | cons a path ih =>
    rw [List.map_cons, stagesOfSets, stagesOfPath, h a List.mem_cons_self]
    show Option.bind (stage plan args lastOne a) _ = Option.map some (Option.bind (stage plan args lastOne a) _)
    cases stage plan args lastOne a with
    | none => rfl
    | some s =>
      show Option.bind (stagesOfSets plan args a (path.map plan'.outputName)) _ =
        Option.map some (Option.bind (stagesOfPath plan args a path) _)
      rw [ih fun b hb => h b (List.mem_cons_of_mem a hb)]
      cases stagesOfPath plan args a path <;> rfl

theorem targetLoop_producers (h : targetLoop plan a N cs target = some (plan', target')) :
    plan'.producers = plan.producers := by
  induction cs generalizing target with
  | nil =>
    obtain ⟨rfl, -⟩ := Prod.mk.inj (Option.some.inj h)
    rfl
  | cons c cs ih =>
    rw [targetLoop] at h
    split at h
    · split at h
      · obtain ⟨rfl, -⟩ := Prod.mk.inj (Option.some.inj h)
        exact narrow_producers _
      · split at h
        · cases h
        · exact ih h
    · exact ih h

/-- **The two versions agree** on the path that a depth-first search finds first. -/
theorem paths_agree (hwf : WellFormed plan) (hacyclic : Acyclic plan) {source : String}
    (hfirst : FirstPath plan.next (plan.isTarget name) (plan.consumers source) path)
    (htarget : SameTarget plan name args.targetComputationName) :
    buildSets plan args (source :: path.map plan.outputName) = buildPath plan args source name := by
  obtain ⟨rank, hn, hrank⟩ := hacyclic
  have hfound : firstOf (recurse plan name) (plan.consumers source) = .found path :=
    search_first hrank hn hfirst fun c _ => by omega
  have hlast : (path.map plan.outputName).getLast?.getD source = name := by
    obtain ⟨init, a, rfl, ha⟩ := FirstPath.last hfirst
    rw [List.map_append, List.map_singleton, List.getLast?_concat, ha]
    rfl
  unfold buildSets buildPath
  dsimp only
  rw [hlast, target_agrees hwf htarget]
  cases ha : plan.producers source with
  | none => rfl
  | some a =>
    rw [Option.bind_eq_bind, Option.bind_some, Option.bind_eq_bind, Option.bind_some]
    split
    · have hname : (plan.nodes a).output.setName = source := hwf.made source a ha
      rw [hname, hfound]
      dsimp only
      cases ht : targetOfPath plan name args.targetComputationName with
      | none => rfl
      | some t =>
        obtain ⟨plan', target⟩ := t
        obtain ⟨b, -, hloop⟩ := Option.bind_eq_some_iff.mp ht
        rw [Option.bind_some, Option.bind_some]
        dsimp only
        split
        · have hstages : stagesOfSets plan' args a (path.map plan.outputName) =
              (stagesOfPath plan' args a path).map some :=
            stages_agree (fun a ha => (congrFun (targetLoop_producers hloop) _).trans
              (FirstPath.makes hwf hfirst rfl a ha)) a
          rw [hstages]
          cases stagesOfPath plan' args a path <;> rfl
        · rfl
    · rfl

/-- where there is one path only, they agree on it -/
theorem only_path_agrees (hwf : WellFormed plan) (hacyclic : Acyclic plan) {source : String}
    (hpath : IsPath plan.next (plan.isTarget name) (plan.consumers source) path)
    (honly : ∀ q, IsPath plan.next (plan.isTarget name) (plan.consumers source) q → q = path)
    (htarget : SameTarget plan name args.targetComputationName) :
    buildSets plan args (source :: path.map plan.outputName) = buildPath plan args source name :=
  paths_agree hwf hacyclic (hpath.first honly) htarget

/-! ## the plan after a build -/

theorem targetLoop_keeps (h : Within "JoinComp" N ∨ ∀ c ∈ cs, (plan.nodes c).computationName = N →
      plan.outputName a = (plan.nodes c).input.setName → (plan.nodes c).projection = (plan.nodes a).output)
    (hrun : targetLoop plan a N cs target = some (plan', target')) : plan' = plan := by
  induction cs generalizing target with
  | nil => exact (Prod.mk.inj (Option.some.inj hrun)).1.symm
  | cons c cs ih =>
    have hrest := h.imp_right fun h d hd => h d (List.mem_cons_of_mem c hd)
    rw [targetLoop] at hrun
    split at hrun
    · rename_i hN
      split at hrun
      · rename_i hleft
        rw [leftTarget_self (h.imp_right fun h => h c List.mem_cons_self hN hleft)] at hrun
        exact (Prod.mk.inj (Option.some.inj hrun)).1.symm
      · split at hrun
        · cases hrun
        · exact ih hrest hrun
    · exact ih hrest hrun

theorem targetOfSets_keeps (h : ∀ a, plan.producers name = some a →
      Within "SelectionComp" N ∨ Within "JoinComp" N ∨ (plan.consumers name).length > 1 ∨
        ∀ c ∈ (plan.consumers name).head?, plan.outputName a = (plan.nodes c).input.setName →
          (plan.nodes c).projection = (plan.nodes a).output)
    (hrun : targetOfSets plan name N = some (plan', target)) : plan' = plan := by
  obtain ⟨a, ha, hrun⟩ := Option.bind_eq_some_iff.mp hrun
  have h := h a ha
  dsimp only at hrun
  split at hrun
  · rename_i hsel
    split at hrun
    · exact (Prod.mk.inj (Option.some.inj hrun)).1.symm
    · rename_i hone
      obtain ⟨c, hc, hrun⟩ := Option.bind_eq_some_iff.mp hrun
      have h := h.resolve_left hsel
      split at hrun
      · rename_i hleft
        rw [leftTarget_self (h.imp_right fun h => h.resolve_left hone c hc hleft)] at hrun
        exact (Prod.mk.inj (Option.some.inj hrun)).1.symm
      · obtain ⟨t, -, ht⟩ := Option.map_eq_some_iff.mp hrun
        exact (Prod.mk.inj ht).1.symm
  · exact (Prod.mk.inj (Option.some.inj hrun)).1.symm

/-- a build that keeps the columns of its target leaves the plan as it is -/
theorem build_keeps {pipeline : Option (Pipeline P)} (h : Keeps plan r) (hrun : build plan r = some (pipeline, plan')) :
    plan' = plan := by
  cases r with
  | sets args names =>
    cases names with
    | nil => exact (Prod.mk.inj (Option.some.inj hrun)).2.symm
    | cons first rest =>
      obtain ⟨a, -, hrun⟩ := Option.bind_eq_some_iff.mp hrun
      dsimp only at hrun
      split at hrun
      · obtain ⟨⟨plan₁, target⟩, ht, hrun⟩ := Option.bind_eq_some_iff.mp hrun
        dsimp only at hrun
        split at hrun
        · obtain ⟨stages, -, hrun⟩ := Option.bind_eq_some_iff.mp hrun
          obtain rfl := (Prod.mk.inj (Option.some.inj hrun)).2
          exact targetOfSets_keeps (h _ (List.getLast?_cons.trans rfl)) ht
        · cases hrun
      · cases hrun
  | path args source name =>
    obtain ⟨a, -, hrun⟩ := Option.bind_eq_some_iff.mp hrun
    dsimp only at hrun
    split at hrun
    · split at hrun
      · obtain ⟨⟨plan₁, target⟩, ht, hrun⟩ := Option.bind_eq_some_iff.mp hrun
        dsimp only at hrun
        split at hrun
        · obtain ⟨stages, -, hrun⟩ := Option.bind_eq_some_iff.mp hrun
          obtain rfl := (Prod.mk.inj (Option.some.inj hrun)).2
          obtain ⟨b, hb, hloop⟩ := Option.bind_eq_some_iff.mp ht
          exact targetLoop_keeps (h b hb) hloop
        · cases hrun
      · cases hrun
    · cases hrun

/-- **The order of the builds is no matter**, if each keeps the columns of its target. -/
theorem buildAll_keeps (h : ∀ r ∈ requests, Keeps plan r) :
    ∀ (i : ℕ) p, (buildAll plan requests)[i]? = some p →
      ∃ r, requests[i]? = some r ∧ p = (build plan r).map Prod.fst := by
  induction requests with
  | nil => exact fun i p hp => by cases hp
  | cons r requests ih =>
    intro i p hp
    rw [buildAll] at hp
    cases hr : build plan r with
    | none =>
      rw [hr] at hp
      cases i with
      | zero => exact ⟨r, rfl, by rw [hr]; exact (Option.some.inj hp).symm⟩
      | succ i => cases hp
    | some result =>
      obtain ⟨pipeline, plan'⟩ := result
      obtain rfl := build_keeps (h r List.mem_cons_self) hr
      rw [hr] at hp
      cases i with
      | zero => exact ⟨r, rfl, by rw [hr]; exact (Option.some.inj hp).symm⟩
      | succ i => exact ih (fun r hr => h r (List.mem_cons_of_mem _ hr)) i p hp

/-- **The versions of `buildPipeline`**: they agree on the first path of the depth-first search, if the sink
has the same columns; and builds that keep the columns of their targets do not disturb one another. -/
theorem builds_agree (hwf : WellFormed plan) (hacyclic : Acyclic plan) :
    (∀ (args : Arguments P) (source name : String) (path : List ℕ),
      FirstPath plan.next (plan.isTarget name) (plan.consumers source) path →
        SameTarget plan name args.targetComputationName →
          buildSets plan args (source :: path.map plan.outputName) = buildPath plan args source name) ∧
    ∀ requests : List (Request P), (∀ r ∈ requests, Keeps plan r) → ∀ (i : ℕ) p,
      (buildAll plan requests)[i]? = some p → ∃ r, requests[i]? = some r ∧ p = (build plan r).map Prod.fst :=
  ⟨fun _ _ _ _ hfirst htarget => paths_agree hwf hacyclic hfirst htarget, fun _ h => buildAll_keeps h⟩

end

/-- one computation that reads all of its columns from one tuple set -/
def one (type : AtomicComputationType) (input output projection : TupleSpec) (computationName lambdaName : String) :
    AtomicComputation :=
  ⟨type, input, output, projection, computationName, lambdaName, TupleSpec.empty, TupleSpec.empty⟩

/-- a tuple set that is aggregated, and goes through a selection to a writer -/
def sample : LogicalPlan :=
  ((((LogicalPlan.new ["ScanUserSet_0", "SelectionComp_1", "ClusterAggregationComp_2", "SelectionComp_3", "SetWriter_4"]
      [("SelectionComp_1", "att_0"), ("SelectionComp_3", "att_1")]).addAtomicComputation
    (one .scan TupleSpec.empty ⟨"in", ["x"]⟩ TupleSpec.empty "ScanUserSet_0" "")).addAtomicComputation
    (one .apply ⟨"in", ["x"]⟩ ⟨"T", ["x", "v"]⟩ ⟨"in", ["x"]⟩ "SelectionComp_1" "att_0")).addAtomicComputation
    (one .aggregate ⟨"T", ["v"]⟩ ⟨"agg", ["a"]⟩ ⟨"T", ["v"]⟩ "ClusterAggregationComp_2" "")).addAtomicComputation
    (one .apply ⟨"T", ["x"]⟩ ⟨"U", ["x", "v", "w"]⟩ ⟨"T", ["x", "v"]⟩ "SelectionComp_3" "att_1") |>.addAtomicComputation
    (one .writeSet ⟨"U", ["x", "v", "w"]⟩ ⟨"nothing", []⟩ ⟨"U", ["x", "v", "w"]⟩ "SetWriter_4" "")

theorem sample_wellFormed : WellFormed sample :=
  (((((WellFormed.new _ _).add rfl).add (by decide)).add (by decide)).add (by decide)).add (by decide)

theorem sample_acyclic : Acyclic sample :=
  (((((Acyclic.new _ _).add rfl (by decide) (by decide)).add (by decide) (by decide) (by decide)).add (by decide)
    (by decide) (by decide)).add (by decide) (by decide) (by decide)).add (by decide) (by decide) (by decide)

/-- the way to the writer: the aggregation is tried before -/
theorem sample_first : FirstPath sample.next (sample.isTarget "U") (sample.consumers "in") [1, 3] := by
  have hno : ∀ b ∈ [2], ¬ Reaches sample.next (sample.isTarget "U") b := by
    intro b hb h
    rw [List.mem_singleton.mp hb] at h
    cases h with
    | here h => exact absurd h (by decide)
    | @step _ c hc _ => exact absurd hc (by rw [show sample.next 2 = [] by decide]; exact List.not_mem_nil)
  have hwriter : FirstPath sample.next (sample.isTarget "U") (sample.next 1) [3] :=
    @FirstPath.here ℕ _ _ [2] [] 3 hno (by decide)
  exact @FirstPath.step ℕ _ _ [] [] [3] 1 (fun _ h => by cases h) (by decide) hwriter

/-- both versions agree there, and a build that keeps the columns can come before another -/
theorem builds_agree_sample :
    let writer : Arguments Unit := ⟨0, "SetWriter_4", fun _ => none⟩
    let requests : List (Request Unit) :=
      [.path writer "in" "U", .sets ⟨0, "ClusterAggregationComp_2", fun _ => none⟩ ["in", "T"]]
    buildSets sample writer ["in", "T", "U"] = buildPath sample writer "in" "U" ∧
      ∀ (i : ℕ) p, (buildAll sample requests)[i]? = some p →
        ∃ r, requests[i]? = some r ∧ p = (build sample r).map Prod.fst := by
  obtain ⟨hagree, hall⟩ := builds_agree (P := Unit) sample_wellFormed sample_acyclic
  refine ⟨hagree _ _ _ _ sample_first (Or.inl ⟨4, by decide, by decide, by decide⟩), hall _ fun r hr => ?_⟩
  rcases List.mem_cons.mp hr with rfl | hr
  · intro a ha
    obtain rfl : 3 = a := Option.some.inj ha
    exact Or.inr (by decide)
  · rw [List.mem_singleton.mp hr]
    intro name hname a _
    obtain rfl : "T" = name := Option.some.inj hname
    exact Or.inr (Or.inr (Or.inl (by decide)))

/-- the way to the aggregation: the versions give the sink other columns, and the one with the search
leaves other columns to the way to the writer -/
theorem builds_not_always :
    let aggregation : Arguments Unit := ⟨0, "ClusterAggregationComp_2", fun _ => none⟩
    let writer : Arguments Unit := ⟨0, "SetWriter_4", fun _ => none⟩
    (buildSets sample aggregation ["in", "T"]).map Prod.fst ≠ (buildPath sample aggregation "in" "T").map Prod.fst ∧
      (buildAll sample [.path aggregation "in" "T", .sets writer ["in", "T", "U"]])[1]? ≠
        some ((build sample (.sets writer ["in", "T", "U"])).map Prod.fst) := by
  decide +kernel

end Netsdb.Tcap.BuildPipeline
