import Netsdb.Planning.TCAPAnalyzer
import Mathlib.Algebra.Order.Monoid.Unbundled.WithTop
import Mathlib.Data.Nat.Log
import Mathlib.Algebra.GroupWithZero.Nat

/-!
# Dynamic planning (`TCAPAnalyzer::getBestSource`, `QuerySchedulerServer.cc`, `Statistics.h`)

* `getBestSource`   the cost of every source, a thousand times more for one that is put off, and the
                    source of the least cost;
* `planRound`       one round of the loop that ends when there are stages;
* `planLoop`        that loop;
* `planStep`        what happens to a planner, at once or source by source, with any source picked.

A cost is a double; the costs are whole numbers, rounded to 53 bits, or infinite.
-/

namespace Netsdb

/-- the double next to a whole number, an even one of two -/
def roundDouble (n : Nat) : WithTop Nat :=
  if n < 2 ^ 53 then (n : WithTop Nat)
  else
    let e := Nat.log 2 n - 52
    let up := 2 ^ e < 2 * (n % 2 ^ e) ∨ (2 ^ e = 2 * (n % 2 ^ e) ∧ n / 2 ^ e % 2 = 1)
    let r := (n / 2 ^ e + if up then 1 else 0) * 2 ^ e
    if r < 2 ^ 1024 then (r : WithTop Nat) else ⊤

/-- `cost * 1000` -/
def mulThousand : WithTop Nat → WithTop Nat
  | none => ⊤
  | some n => roundDouble (n * 1000)

def dblMax : WithTop Nat := (((2 ^ 53 - 1) * 2 ^ 971 : Nat) : WithTop Nat)

structure Statistics where
  /-- by the name of the set; a set that is not known, or has a model, has 0 -/
  numBytes : String → Nat
  penalizedCosts : String → Option (WithTop Nat)

/-- how far `getBestSource` is -/
structure BestSource where
  stats : Statistics
  minCost : WithTop Nat
  exactSize : Nat
  bestIndexToReturn : Nat

namespace TCAPAnalyzer

def getCostOfSource (s : TCAPAnalyzer) (stats : Statistics) (key : String) : Nat :=
  match s.curSourceSets key with
  | some curSet => stats.numBytes curSet.name
  | none => 0

/-- in millions of bytes -/
def costOfSource (s : TCAPAnalyzer) (stats : Statistics) (key : String) : WithTop Nat :=
  ((max 1 (s.getCostOfSource stats key / 1000000) : Nat) : WithTop Nat)

/-- the cost of a source that is put off, the next time it is asked for -/
def nextPenalizedCost (s : TCAPAnalyzer) (stats : Statistics) (key : String) : WithTop Nat :=
  mulThousand <|
    match stats.penalizedCosts key with
    | some p => if 0 < p then p else s.costOfSource stats key
    | none => s.costOfSource stats key

def considerSource (s : TCAPAnalyzer) (b : BestSource) (key : String) (i : Nat) : BestSource :=
  let (curCost, stats) :=
    if key ∈ s.penalizedSourceSets then
      let cost := s.nextPenalizedCost b.stats key
      (cost, { b.stats with
        penalizedCosts := Function.update b.stats.penalizedCosts key (some cost) })
    else (s.costOfSource b.stats key, b.stats)
  if curCost < b.minCost then
    { stats, minCost := curCost, exactSize := s.getCostOfSource b.stats key, bestIndexToReturn := i }
  else { b with stats }

def getBestSource (s : TCAPAnalyzer) (stats : Statistics) : BestSource :=
  s.curSourceSetNames.zipIdx.foldl (fun b e => s.considerSource b e.1 e.2)
    { stats, minCost := dblMax, exactSize := s.exactSizeOfCurSource, bestIndexToReturn := 0 }

/-- what `getBestSource` leaves in the planner -/
def chooseSource (s : TCAPAnalyzer) (b : BestSource) : TCAPAnalyzer :=
  { s with
    costOfCurSource := some b.minCost
    exactSizeOfCurSource := b.exactSize
    curSourceSetName := (s.curSourceSetNames[b.bestIndexToReturn]?).getD "" }

def getNumSources (s : TCAPAnalyzer) : Nat := s.curSourceSetNames.length

/-- the next consumer of a source; the source goes when it has none -/
def planSource (q : Query) (s : TCAPAnalyzer) (sourceName : String) : Option TCAPAnalyzer :=
  match s.curSourceSets sourceName, s.curSourceNodes sourceName with
  | some set, some (node :: _) =>
    (s.getNextStagesOptimized q node set (s.curProcessedConsumers sourceName)).map
      fun (hasConsumers, s) =>
        if s.physicalPlanToOutput ≠ [] then
          { s with
            curProcessedConsumers := Function.update s.curProcessedConsumers sourceName
              (s.curProcessedConsumers sourceName + 1) }
        else if hasConsumers then s
        else s.removeSource sourceName
  | _, _ => none

/-- one round; `none`: there is no source of this name, or the process exits -/
def planRound (q : Query) (x : Statistics × TCAPAnalyzer) : Option (Statistics × TCAPAnalyzer) :=
  let b := x.2.getBestSource x.1
  let s := x.2.chooseSource b
  (s.planSource q s.curSourceSetName).map fun s => (b.stats, s)

/-- the loop goes on -/
def planning (s : TCAPAnalyzer) : Prop := s.physicalPlanToOutput = [] ∧ 0 < s.getNumSources

instance (s : TCAPAnalyzer) : Decidable s.planning := inferInstanceAs (Decidable (_ ∧ _))

/-- at most so many rounds -/
def planLoop (q : Query) : Nat → Statistics × TCAPAnalyzer → Option (Statistics × TCAPAnalyzer)
  | 0, x => some x
  | n + 1, x => if x.2.planning then (planRound q x).bind (planLoop q n) else some x

/-! ## Any order of sources -/

/-- a source is visited when the plan is made at once, or picked with a cost, and the stages are handed
out to be run -/
inductive PlanOp
  | visit (curSource : AtomicComputation)
  | pick (sourceName : String) (cost : WithTop Nat) (exactSize : Nat)
  | schedule

/-- the stages that have been handed out, and the planner -/
def planStep (q : Query) (x : List AbstractJobStage × TCAPAnalyzer) :
    PlanOp → Option (List AbstractJobStage × TCAPAnalyzer)
  | .visit curSource =>
    if q.dynamicPlanningOrNot = false ∧ curSource ∈ scans q.plan then
      (x.2.analyzeSource q curSource).map fun s => (x.1, s)
    else none
  | .pick sourceName cost exactSize =>
    if q.dynamicPlanningOrNot = true ∧ sourceName ∈ x.2.curSourceSetNames then
      ({ x.2 with
          costOfCurSource := some cost, exactSizeOfCurSource := exactSize
          curSourceSetName := sourceName }.planSource q sourceName).map fun s => (x.1, s)
    else none
  | .schedule =>
    some (x.1 ++ x.2.physicalPlanToOutput,
      { x.2 with physicalPlanToOutput := [], interGlobalSets := [] })

end TCAPAnalyzer
end Netsdb
