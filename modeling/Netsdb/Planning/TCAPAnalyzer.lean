import Netsdb.Planning.JobStage
import Mathlib.Order.WithBot
import Mathlib.Algebra.Order.Monoid.Unbundled.WithTop

/-!
# The analyzer (`TCAPAnalyzer.h`, `TCAPAnalyzer.cc`)

* `TCAPAnalyzer`     the state of the planner, with what `analyze` takes by reference;
* `analyzeNode`      one call of the recursive `analyze`, up to the calls that it makes;
* `analyze`          the recursion;
* `analyzeSource`, `getNextStagesOptimized`   the calls for a source: all its consumers, when the plan
                     is made at once, or the next one.

The names of sets, computations and tuple sets are the program's.  A join node and its flags are known
by the tuple set that it makes.
-/

namespace Netsdb

/-- what the planner is made with, and does not change -/
structure Query where
  jobId : String
  plan : List AtomicComputation
  pageSize : Nat
  shufflePageSize : Nat
  broadcastPageSize : Nat
  numNodesInCluster : Nat
  dynamicPlanningOrNot : Bool
  /-- of a source, a join and the set of the source: whether the set is partitioned as the join needs it,
  by the database of the self learning, and the computation and the lambda by which it is -/
  matchSourceWithQuery :
    AtomicComputation → AtomicComputation → Option SetIdentifier → Bool × String × String

structure TCAPAnalyzer where
  computations : String → Computation
  traversed : String → Bool
  partitioningLHS : String → Bool
  /-- `none`: a null pointer -/
  hashSetsToProbe : Option (String → Option String)
  outputForJoinSets : List String
  curSourceSetNames : List String
  curSourceSets : String → Option SetIdentifier
  curSourceNodes : String → Option (List AtomicComputation)
  /-- a name that is not there has 0 -/
  curProcessedConsumers : String → Nat
  /-- a cost is a whole number or infinite; `none`: not a number, as long as it is not set -/
  costOfCurSource : Option (WithTop Nat)
  exactSizeOfCurSource : Nat
  curSourceSetName : String
  penalizedSourceSets : List String
  jobStageId : Nat
  physicalPlanToOutput : List AbstractJobStage
  interGlobalSets : List SetIdentifier
  buildTheseTupleSets : List String

/-- the arguments of a call that are not changed by it -/
structure AnalyzeArgs where
  curSource : AtomicComputation
  sourceComputation : String
  curInputSetIdentifier : SetIdentifier
  curNode : AtomicComputation
  prevNode : AtomicComputation
  isProbing : Bool
  joinType : JoinType
  myPolicy : AllocatorPolicy
  joinSource : String
  hasLocalJoinProbe : Bool
  partitionComputationSpecifier : String
  partitionLambdaName : String

/-- how a call goes on: it returns, or it returns what these calls do, up to the first `false` -/
inductive AnalyzeOutcome
  | ret (b : Bool) (s : TCAPAnalyzer)
  | calls (l : List AnalyzeArgs) (s : TCAPAnalyzer)

def joinCostThreshold : WithTop Nat := ((15000 : Nat) : WithTop Nat)

def AnalyzeArgs.sourceTupleSetName (a : AnalyzeArgs) : String :=
  if a.joinSource ≠ "" then a.joinSource else a.curSource.outputName

namespace TCAPAnalyzer

/-! ## The tables of the sources -/

def removeSource (s : TCAPAnalyzer) (oldSetName : String) : TCAPAnalyzer :=
  let s := { s with curProcessedConsumers := Function.update s.curProcessedConsumers oldSetName 0 }
  match ((s.curSourceNodes oldSetName).getD []).tail with
  | node :: nodes =>
    { s with curSourceNodes := Function.update s.curSourceNodes oldSetName (some (node :: nodes)) }
  | [] =>
    { s with
      curSourceNodes := Function.update s.curSourceNodes oldSetName none
      curSourceSetNames := s.curSourceSetNames.erase oldSetName
      penalizedSourceSets := s.penalizedSourceSets.erase oldSetName
      curSourceSets := Function.update s.curSourceSets oldSetName none }

def addSource (s : TCAPAnalyzer) (newSet : SetIdentifier) (newNode : AtomicComputation) :
    TCAPAnalyzer :=
  { s with
    curSourceSetNames := s.curSourceSetNames ++ [newSet.name]
    curSourceSets := Function.update s.curSourceSets newSet.name (some newSet)
    curSourceNodes := Function.update s.curSourceNodes newSet.name
      (some ((s.curSourceNodes newSet.name).getD [] ++ [newNode])) }

/-- the old source goes when all its consumers have been counted -/
def updateSourceSets (q : Query) (s : TCAPAnalyzer) (oldSet : SetIdentifier)
    (new : Option (SetIdentifier × AtomicComputation)) : TCAPAnalyzer :=
  let s := new.elim s fun (newSet, newNode) => s.addSource newSet newNode
  match s.curSourceNodes oldSet.name with
  | some (oldNode :: _) =>
    if (consumers q.plan oldNode.outputName).length = s.curProcessedConsumers oldSet.name then
      s.removeSource oldSet.name
    else s
  | _ => s

/-! ## Stages -/

/-- a set of the job -/
def intermediateSet (q : Query) (s : TCAPAnalyzer) (setName : String) (pageSize : Nat) :
    SetIdentifier :=
  { database := q.jobId, setName, pageSize
    desiredSize := max 1 (s.exactSizeOfCurSource / pageSize / q.numNodesInCluster) }

def pushStage (s : TCAPAnalyzer) (stage : AbstractJobStage) : TCAPAnalyzer :=
  { s with physicalPlanToOutput := s.physicalPlanToOutput ++ [stage] }

def pushSet (s : TCAPAnalyzer) (set : SetIdentifier) : TCAPAnalyzer :=
  { s with interGlobalSets := s.interGlobalSets ++ [set] }

/-- the stage has hash sets to probe -/
def probes (s : TCAPAnalyzer) (isProbing : Bool) : Bool :=
  s.hashSetsToProbe.isSome && !s.outputForJoinSets.isEmpty && isProbing

/-- `stage` has the arguments that go into the stage as they are -/
def createTupleSetJobStage (q : Query) (s : TCAPAnalyzer) (stage : TupleSetJobStage)
    (isProbing : Bool) (joinType : JoinType) : TupleSetJobStage × TCAPAnalyzer :=
  ({ stage with
      id := s.jobStageId
      jobId := q.jobId
      probeOrNot := s.probes isProbing
      hashSetsToProbe :=
        if s.probes isProbing then
          s.outputForJoinSets.map fun o => (o, (s.hashSetsToProbe.bind fun m => m o).getD "")
        else []
      joinType := if isProbing then joinType.toString else ""
      combineOrNot := stage.combinerContext.isSome
      needsRemoveCombinerSet := stage.combinerContext.isSome
      inputAggHashOutOrNot := stage.sourceContext.isAggregationResult
      needsRemoveInputSet := stage.needsRemoveInputSet || stage.sourceContext.isAggregationResult },
    { s with
      jobStageId := s.jobStageId + 1
      outputForJoinSets := if s.probes isProbing then [] else s.outputForJoinSets })

/-- a stage that is changed by `f` before it is pushed -/
def pushTupleSetJobStage (q : Query) (s : TCAPAnalyzer) (stage : TupleSetJobStage)
    (isProbing : Bool) (joinType : JoinType) (f : TupleSetJobStage → TupleSetJobStage := id) :
    TCAPAnalyzer :=
  let (stage, s) := s.createTupleSetJobStage q stage isProbing joinType
  s.pushStage (.tupleSet (f stage))

def pushAggregationJobStage (q : Query) (s : TCAPAnalyzer) (aggComp : String)
    (sourceContext sinkContext : SetIdentifier) (materializeResultOrNot : Bool) : TCAPAnalyzer :=
  { s with jobStageId := s.jobStageId + 1 }.pushStage <| .aggregation {
    id := s.jobStageId, jobId := q.jobId, aggComputation := aggComp
    materializeOrNot := materializeResultOrNot, sourceContext, sinkContext
    outputTypeName := (s.computations aggComp).outputType, needsRemoveInputSet := false }

/-- of both join stages: `stage` is one of the two constructors -/
def pushJoinBuildHTJobStage (q : Query) (s : TCAPAnalyzer)
    (stage : JoinBuildHTJobStage → AbstractJobStage)
    (sourceTupleSetName targetTupleSetName targetComputationName : String)
    (sourceContext : SetIdentifier) (hashSetName : String) (needsRemoveInputSet : Bool) :
    TCAPAnalyzer :=
  { s with jobStageId := s.jobStageId + 1 }.pushStage <| stage {
    id := s.jobStageId, jobId := q.jobId, hashSetName
    sourceTupleSetSpecifier := sourceTupleSetName, targetTupleSetSpecifier := targetTupleSetName
    targetComputationSpecifier := targetComputationName, sourceContext, needsRemoveInputSet }

def pushTupleSet (s : TCAPAnalyzer) (name : String) : TCAPAnalyzer :=
  { s with buildTheseTupleSets := s.buildTheseTupleSets ++ [name] }

def pushOutputForJoinSets (s : TCAPAnalyzer) (name : String) : TCAPAnalyzer :=
  { s with outputForJoinSets := s.outputForJoinSets ++ [name] }

def modifyComputation (s : TCAPAnalyzer) (name : String) (f : Computation → Computation) :
    TCAPAnalyzer :=
  { s with computations := Function.update s.computations name (f (s.computations name)) }

/-- `setJoinType`, unless the join is a cross product -/
def setHashPartitionedJoin (s : TCAPAnalyzer) (name : String) : TCAPAnalyzer :=
  s.modifyComputation name fun c =>
    if c.joinType ≠ .CrossProduct then { c with joinType := .HashPartitionedJoin } else c

end TCAPAnalyzer

namespace AnalyzeArgs
open TCAPAnalyzer
variable (q : Query) (a : AnalyzeArgs) (s : TCAPAnalyzer)

def mySpecifier : String := a.curNode.computationName

def myComputation : Computation := s.computations a.mySpecifier

/-- the stage of a pipeline from the source to the node before the current one -/
def pipeline (targetTupleSetSpecifier outputTypeName : String) (sinkContext : SetIdentifier) :
    TupleSetJobStage :=
  { sourceTupleSetSpecifier := a.sourceTupleSetName
    targetTupleSetSpecifier
    targetComputationSpecifier := a.mySpecifier
    buildTheseTupleSets := s.buildTheseTupleSets
    outputTypeName
    sourceContext := a.curInputSetIdentifier
    sinkContext
    allocatorPolicy := a.myPolicy
    hasLocalJoinProbe := a.hasLocalJoinProbe
    partitionComputationSpecifier := a.partitionComputationSpecifier
    partitionLambdaName := a.partitionLambdaName }

/-- both halves of an aggregation -/
def pushAggregation (collectAsMap : Bool) (numNodesToCollect : Nat) (sink : SetIdentifier)
    (materializeResultOrNot : Bool) : TCAPAnalyzer :=
  let aggregator := s.intermediateSet q (a.curNode.outputName ++ "_aggregationData") q.shufflePageSize
  let stage : TupleSetJobStage :=
    { a.pipeline s a.curNode.inputName "IntermediateData" aggregator with
      combinerContext :=
        if (a.myComputation s).usingCombiner then
          some { database := q.jobId, setName := a.curNode.outputName ++ "_combinerData" }
        else none
      repartitionOrNot := true
      collectAsMapOrNot := collectAsMap
      numNodesToCollect }
  ((s.pushTupleSetJobStage q stage a.isProbing a.joinType).pushAggregationJobStage q a.mySpecifier
    aggregator sink materializeResultOrNot).pushSet aggregator

def outputSet : SetIdentifier :=
  (a.myComputation s).setId

def updateSourceSets (new : Option (SetIdentifier × AtomicComputation)) : TCAPAnalyzer :=
  if q.dynamicPlanningOrNot then s.updateSourceSets q a.curInputSetIdentifier new else s

/-! ## No consumer -/

/-- `none`: the computation is not supported as a sink -/
def analyzeSink : Option TCAPAnalyzer :=
  let c := a.myComputation s
  match c.type with
  | .clusterAggregationComp =>
    some (a.updateSourceSets q
      (a.pushAggregation q s c.collectAsMap c.numNodesToCollect (a.outputSet s) true) none)
  | .writeUserSet | .selectionComp | .multiSelectionComp =>
    some (a.updateSourceSets q (s.pushTupleSetJobStage q
      (a.pipeline s a.curNode.inputName c.outputType (a.outputSet s)) a.isProbing a.joinType) none)
  | .partitionComp =>
    some (a.updateSourceSets q (s.pushTupleSetJobStage q
      { a.pipeline s a.curNode.inputName c.outputType (a.outputSet s) with
        repartitionOrNot := true } a.isProbing a.joinType) none)
  | _ => none

/-! ## One consumer -/

/-- the current node is the source of what comes next -/
def fromHere (sink : SetIdentifier) (nextNode : AtomicComputation) : AnalyzeArgs :=
  { curSource := a.curNode, sourceComputation := a.mySpecifier, curInputSetIdentifier := sink
    curNode := nextNode, prevNode := a.curNode, isProbing := false, joinType := a.joinType
    myPolicy := .defaultAllocator, joinSource := "", hasLocalJoinProbe := false
    partitionComputationSpecifier := "", partitionLambdaName := "" }

/-- where the result of an aggregation goes -/
def aggregationSink : SetIdentifier :=
  if (a.myComputation s).materializeOutput then a.outputSet s
  else
    { database := q.jobId, setName := a.curNode.outputName ++ "_aggregationResult"
      isAggregationResult := true }

def analyzeAggregate (nextNode : AtomicComputation) : AnalyzeOutcome :=
  let c := a.myComputation s
  let sink := a.aggregationSink q s
  let s := a.pushAggregation q s c.collectAsMap c.numNodesToCollect sink c.materializeOutput
  if q.dynamicPlanningOrNot then .ret true (a.updateSourceSets q s (some (sink, a.curNode)))
  else
    .calls [a.fromHere sink nextNode] { s with buildTheseTupleSets := [a.curNode.outputName] }

/-- the source that is not the current one, as far as it is found -/
def otherSource : Option SetIdentifier × String :=
  let others := (a.myComputation s).sources.filter fun e =>
    ¬ (e.1 = a.curInputSetIdentifier.database ∧ e.2 = a.curInputSetIdentifier.setName)
  match others with
  | e :: _ => (some { database := e.1, setName := e.2 }, e.1 ++ ":" ++ e.2)
  | [] =>
    let last := ((a.myComputation s).sources.getLast?).getD ("", "")
    (none, last.1 ++ ":" ++ last.2)

/-- the join is marked, and waits for its other input -/
def buildDone (hashSetName : String) : AnalyzeOutcome :=
  let m := s.hashSetsToProbe.getD fun _ => none
  let s := { s with
    hashSetsToProbe := some (Function.update m a.curNode.outputName (some hashSetName))
    traversed := Function.update s.traversed a.curNode.outputName true }
  .ret true (a.updateSourceSets q s none)

/-- the first input of a join: where its partitions go -/
def repartitionSink : SetIdentifier :=
  s.intermediateSet q (a.curNode.outputName ++ "_repartitionData") q.broadcastPageSize

def matchSource : Bool × String × String :=
  q.matchSourceWithQuery a.curSource a.curNode (some a.curInputSetIdentifier)

/-- the join is partitioned; the lookup of the other source leaves an entry among the sources -/
def setPartitioningLHS : TCAPAnalyzer :=
  { s with
    partitioningLHS := Function.update s.partitioningLHS a.curNode.outputName true
    curSourceNodes := Function.update s.curSourceNodes (a.otherSource s).2
      (some ((s.curSourceNodes (a.otherSource s).2).getD [])) }

/-- both inputs are partitioned as the join needs them -/
def bothMatch : Bool :=
  (a.matchSource q).1 &&
    match s.curSourceNodes (a.otherSource s).2 with
    | some (node :: _) => (q.matchSourceWithQuery node a.curNode (a.otherSource s).1).1
    | _ => false

/-- the input is partitioned, and a second stage builds the hash table -/
def pushHashPartitionedBuild : TCAPAnalyzer :=
  let target := a.prevNode.outputName
  let sink := a.repartitionSink q s
  let stage : TupleSetJobStage :=
    { a.pipeline s target "IntermediateData" sink with
      repartitionOrNot := true, repartitionJoinOrNot := true }
  let s := s.setHashPartitionedJoin a.mySpecifier
  let joinType := (a.myComputation s).joinType
  let s := s.pushTupleSetJobStage q stage a.isProbing joinType fun stage =>
    { stage with joinType := joinType.toStageString }
  (s.pushSet sink).pushJoinBuildHTJobStage q .hashPartitionedJoinBuildHT a.sourceTupleSetName target
    a.mySpecifier sink sink.name false

/-- the pipeline itself builds the hash table -/
def pushLocalBuild : TCAPAnalyzer :=
  let stage : TupleSetJobStage :=
    { a.pipeline s a.prevNode.outputName "IntermediateData" (a.repartitionSink q s) with
      repartitionOrNot := true, hasLocalJoinSink := true }
  let s := s.modifyComputation a.mySpecifier fun c => { c with joinType := .LocalJoin }
  let s := s.modifyComputation a.sourceComputation fun c =>
    if c.type = .scanUserSet ∨ c.type = .scanSet then { c with followedByLocalJoin := true } else c
  s.pushTupleSetJobStage q stage a.isProbing .LocalJoin fun stage =>
    { stage with
      partitionComputationSpecifier := (a.matchSource q).2.1
      partitionLambdaName := (a.matchSource q).2.2 }

def analyzePartitionedBuild : AnalyzeOutcome :=
  let t := a.setPartitioningLHS s
  a.buildDone q (if a.bothMatch q s then a.pushLocalBuild q t else a.pushHashPartitionedBuild q t)
    (a.repartitionSink q s).name

/-- the first input of a join that is broadcast -/
def broadcastSink : SetIdentifier :=
  s.intermediateSet q (a.curNode.outputName ++ "_broadcastData") q.broadcastPageSize

def pushBroadcastBuild : TCAPAnalyzer :=
  let target := a.prevNode.outputName
  let sink := a.broadcastSink q s
  let stage : TupleSetJobStage :=
    { a.pipeline s target "IntermediateData" sink with broadcastOrNot := true }
  let s := s.pushTupleSetJobStage q stage a.isProbing (a.myComputation s).joinType
  (s.pushSet sink).pushJoinBuildHTJobStage q .broadcastJoinBuildHT a.sourceTupleSetName target
    a.mySpecifier sink sink.name false

def analyzeBroadcastBuild : AnalyzeOutcome :=
  a.buildDone q (a.pushBroadcastBuild q s) (a.broadcastSink q s).name

/-- join tables have been probed, and the source is not large: it is put off -/
def penalized : Bool :=
  a.isProbing && s.costOfCurSource.any fun cost => cost ≤ joinCostThreshold

def penalize : TCAPAnalyzer :=
  { s with
    buildTheseTupleSets := []
    penalizedSourceSets :=
      if s.curSourceSetName ∈ s.penalizedSourceSets then s.penalizedSourceSets
      else s.penalizedSourceSets ++ [s.curSourceSetName] }

def analyzeBuild : AnalyzeOutcome :=
  if a.penalized s then .ret false (AnalyzeArgs.penalize s)
  else if s.costOfCurSource.any fun cost => joinCostThreshold < cost then
    a.analyzePartitionedBuild q s
  else a.analyzeBroadcastBuild q s

/-- the pipeline goes on through a join whose hash table is there -/
def probeJoin (nextNode : AtomicComputation) : AnalyzeArgs :=
  { a with
    curNode := nextNode, prevNode := a.curNode, isProbing := true
    partitionComputationSpecifier := "", partitionLambdaName := "" }

/-- the second input of a join that is partitioned: where its partitions go -/
def probingSink : SetIdentifier :=
  s.intermediateSet q (a.curNode.outputName ++ "_probingData") q.broadcastPageSize

/-- the input is partitioned, and a pipeline from there is to probe -/
def pushHashPartitionedProbe : TCAPAnalyzer :=
  let out := a.curNode.outputName
  let stage : TupleSetJobStage :=
    { a.pipeline s a.prevNode.outputName "IntermediateData" (a.probingSink q s) with
      repartitionOrNot := true, repartitionJoinOrNot := true }
  let sink := a.probingSink q s
  let lastOne := (s.buildTheseTupleSets.getLast?).getD ""
  let s := s.setHashPartitionedJoin a.mySpecifier
  let joinType := (a.myComputation s).joinType
  let s := s.pushTupleSetJobStage q stage a.isProbing joinType fun stage =>
    { stage with joinType := joinType.toStageString, joinTupleSourceOrNot := true }
  { (s.pushSet sink).pushOutputForJoinSets out with buildTheseTupleSets := [lastOne, out] }

/-- the pipeline probes here -/
def passJoin : TCAPAnalyzer :=
  (s.pushTupleSet a.curNode.outputName).pushOutputForJoinSets a.curNode.outputName

def analyzeProbe (nextNode : AtomicComputation) : AnalyzeOutcome :=
  if s.partitioningLHS a.curNode.outputName then
    if !(a.matchSource q).1 || (a.myComputation s).joinType ≠ .LocalJoin then
      let t := a.pushHashPartitionedProbe q s
      .calls [{ a.fromHere (a.probingSink q s) nextNode with
          isProbing := true, joinType := (a.myComputation t).joinType, myPolicy := a.myPolicy
          joinSource := a.curSource.outputName }] t
    else
      .calls [{ a.probeJoin nextNode with
          joinType := (a.myComputation s).joinType, joinSource := "", hasLocalJoinProbe := true
          partitionComputationSpecifier := (a.matchSource q).2.1
          partitionLambdaName := (a.matchSource q).2.2 }] (a.passJoin s)
  else .calls [a.probeJoin nextNode] (a.passJoin s)

def analyzeJoin (nextNode : AtomicComputation) : AnalyzeOutcome :=
  if s.traversed a.curNode.outputName then a.analyzeProbe q s nextNode else a.analyzeBuild q s

/-! ## Several consumers -/

/-- where the output of a computation with several consumers goes -/
def materializedSink : SetIdentifier :=
  if (a.myComputation s).materializeOutput then a.outputSet s
  else s.intermediateSet q a.curNode.outputName q.pageSize

def materialize : TCAPAnalyzer :=
  if (a.myComputation s).materializeOutput then s
  else
    (s.modifyComputation a.mySpecifier fun c => c.setOutput q.jobId a.curNode.outputName).pushSet
      (a.materializedSink q s)

/-- the stages that write the output -/
def pushMaterializing (sink : SetIdentifier) : TCAPAnalyzer :=
  let out := a.curNode.outputName
  let c := a.myComputation s
  if c.type ≠ .clusterAggregationComp then
    let s := s.pushTupleSet out
    s.pushTupleSetJobStage q (a.pipeline s out c.outputType sink) a.isProbing a.joinType
  else a.pushAggregation q s false 0 sink c.materializeOutput

def analyzeSeveral (nextNodes : List AtomicComputation) : AnalyzeOutcome :=
  let sink := a.materializedSink q s
  let t := a.materialize q s
  if (a.myComputation t).type = .joinComp then .ret false t
  else
    let t := a.pushMaterializing q t sink
    if q.dynamicPlanningOrNot then .ret true (a.updateSourceSets q t (some (sink, a.curNode)))
    else
      .calls (nextNodes.map (a.fromHere sink))
        { t with buildTheseTupleSets := [a.curNode.outputName] }

/-! ## One call, and the recursion -/

/-- `none`: the process exits -/
def analyzeNode : Option AnalyzeOutcome :=
  let c := a.myComputation s
  let a :=
    if c.allocatorPolicy ≠ .defaultAllocator then { a with myPolicy := c.allocatorPolicy } else a
  match consumers q.plan a.curNode.outputName with
  | [] => (a.analyzeSink q s).map (.ret true)
  | [nextNode] =>
    if c.type = .partitionComp ∧ nextNode.type ≠ .partition then none
    else
      match a.curNode.type with
      | .aggregate => some (a.analyzeAggregate q s nextNode)
      | .joinSets => some (a.analyzeJoin q s nextNode)
      | _ =>
        some (.calls [{ a with
            curNode := nextNode, prevNode := a.curNode
            partitionComputationSpecifier := "", partitionLambdaName := "" }]
          (s.pushTupleSet a.curNode.outputName))
  | nextNodes => some (a.analyzeSeveral q s nextNodes)

end AnalyzeArgs

namespace TCAPAnalyzer

/-- the calls one after the other, up to the first that returns `false` -/
def callAll (f : AnalyzeArgs → TCAPAnalyzer → Option (Bool × TCAPAnalyzer)) :
    List AnalyzeArgs → TCAPAnalyzer → Option (Bool × TCAPAnalyzer)
  | [], s => some (true, s)
  | a :: l, s => (f a s).bind fun (b, s) => if b then callAll f l s else some (false, s)

/-- `fuel` is the depth of the recursion -/
def analyze (q : Query) : Nat → AnalyzeArgs → TCAPAnalyzer → Option (Bool × TCAPAnalyzer)
  | 0, _, _ => none
  | fuel + 1, a, s =>
    (a.analyzeNode q s).bind fun
      | .ret b s => some (b, s)
      | .calls l s => callAll (analyze q fuel) l s

/-- the call for a source and one of its consumers -/
def sourceArgs (curSource : AtomicComputation) (set : SetIdentifier) (curNode : AtomicComputation) :
    AnalyzeArgs :=
  { curSource, sourceComputation := curSource.computationName, curInputSetIdentifier := set, curNode
    prevNode := curSource, isProbing := false, joinType := .UnknownJoin
    myPolicy := .defaultAllocator, joinSource := "", hasLocalJoinProbe := false
    partitionComputationSpecifier := "", partitionLambdaName := "" }

/-- every consumer has its own list of tuple sets -/
def analyzeConsumer (q : Query) (curSource : AtomicComputation) (set : SetIdentifier)
    (curNode : AtomicComputation) (s : TCAPAnalyzer) : Option (Bool × TCAPAnalyzer) :=
  analyze q (q.plan.length + 2) (sourceArgs curSource set curNode)
    { s with buildTheseTupleSets := [curSource.outputName] }

/-- the consumers of a source, up to the first call that returns `false` -/
def analyzeConsumers (q : Query) (curSource : AtomicComputation) (set : SetIdentifier) :
    List AtomicComputation → TCAPAnalyzer → Option (Bool × TCAPAnalyzer)
  | [], s => some (true, s)
  | curNode :: l, s =>
    (analyzeConsumer q curSource set curNode s).bind fun (b, s) =>
      if b then analyzeConsumers q curSource set l s else some (false, s)

/-- the computation can be the source of a pipeline -/
def ofSource : ComputationType → Bool
  | .scanUserSet | .scanSet | .clusterAggregationComp | .selectionComp | .multiSelectionComp
  | .partitionComp => true
  | _ => false

/-- the plan of one source; it is `true` also when a call has returned `false` -/
def analyzeSource (q : Query) (s : TCAPAnalyzer) (curSource : AtomicComputation) :
    Option TCAPAnalyzer :=
  let c := s.computations curSource.computationName
  if ofSource c.type then
    (analyzeConsumers q curSource c.setId (consumers q.plan curSource.outputName) s).map (·.2)
  else none

/-- the plan of all sources -/
def analyzeSources (q : Query) : List AtomicComputation → TCAPAnalyzer → Option (Bool × TCAPAnalyzer)
  | [], s => some (true, s)
  | curSource :: l, s => (analyzeSource q s curSource).bind (analyzeSources q l)

/-- the next consumer of a source; it is `true` when a call has returned `false`, and `false` when there
is no next consumer -/
def getNextStagesOptimized (q : Query) (s : TCAPAnalyzer) (curSource : AtomicComputation)
    (set : SetIdentifier) (curConsumerIndex : Nat) : Option (Bool × TCAPAnalyzer) :=
  match (consumers q.plan curSource.outputName)[curConsumerIndex]? with
  | some curNode => (analyzeConsumer q curSource set curNode s).map fun r => (true, r.2)
  | none => some (false, s)

/-! ## The planner that is made -/

/-- the cost and the size are what is in the memory -/
def start (computations : String → Computation) (cost : Option (WithTop Nat)) (exactSize : Nat) :
    TCAPAnalyzer :=
  { computations
    traversed := fun _ => false
    partitioningLHS := fun _ => false
    hashSetsToProbe := none
    outputForJoinSets := []
    curSourceSetNames := []
    curSourceSets := fun _ => none
    curSourceNodes := fun _ => none
    curProcessedConsumers := fun _ => 0
    costOfCurSource := cost
    exactSizeOfCurSource := exactSize
    curSourceSetName := ""
    penalizedSourceSets := []
    jobStageId := 0
    physicalPlanToOutput := []
    interGlobalSets := []
    buildTheseTupleSets := [] }

/-- a scan goes into the tables; `none`: the process exits -/
def addScan (s : TCAPAnalyzer) (curSource : AtomicComputation) : Option TCAPAnalyzer :=
  let c := s.computations curSource.computationName
  if ofSource c.type then
    let name := c.setId.name
    let s := { s with
      curSourceNodes := Function.update s.curSourceNodes name
        (some ((s.curSourceNodes name).getD [] ++ [curSource])) }
    if name ∈ s.curSourceSetNames then some s
    else
      some { s with
        curSourceSetNames := s.curSourceSetNames ++ [name]
        curSourceSets := Function.update s.curSourceSets name (some c.setId) }
  else none

/-- only a dynamic plan has tables -/
def create (q : Query) (computations : String → Computation) (cost : Option (WithTop Nat))
    (exactSize : Nat) : Option TCAPAnalyzer :=
  let s := start computations cost exactSize
  if q.dynamicPlanningOrNot then (scans q.plan).foldlM addScan s else some s

end TCAPAnalyzer
end Netsdb
