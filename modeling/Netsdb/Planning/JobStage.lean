import Netsdb.Planning.LogicalPlan

/-!
# Job stages (`TupleSetJobStage.h`, `AggregationJobStage.h`, the join stages)

* `SetIdentifier`      a set that a stage reads or writes;
* `AbstractJobStage`   a pipeline, the second half of an aggregation, or the building of the hash table
                       of a join;
* `AbstractJobStage.builds`, `hashSetsToProbe`  the hash sets that a stage makes and needs.

The position of a set among the inputs of its join, which only the join sinks read, is left out.
-/

namespace Netsdb

/-- a set that has no size of its own yet has 0 -/
structure SetIdentifier where
  database : String
  setName : String
  isAggregationResult : Bool := false
  pageSize : Nat := 0
  desiredSize : Nat := 0
deriving DecidableEq

/-- the name of a set among the sources and among the hash sets -/
def SetIdentifier.name (s : SetIdentifier) : String := s.database ++ ":" ++ s.setName

/-- the set that a computation scans or writes -/
def Computation.setId (c : Computation) : SetIdentifier :=
  { database := c.databaseName, setName := c.setName }

structure TupleSetJobStage where
  id : Nat := 0
  jobId : String := ""
  sourceTupleSetSpecifier : String
  targetTupleSetSpecifier : String
  targetComputationSpecifier : String
  buildTheseTupleSets : List String
  outputTypeName : String
  sourceContext : SetIdentifier
  combinerContext : Option SetIdentifier := none
  sinkContext : SetIdentifier
  broadcastOrNot : Bool := false
  repartitionOrNot : Bool := false
  repartitionJoinOrNot : Bool := false
  combineOrNot : Bool := false
  probeOrNot : Bool := false
  inputAggHashOutOrNot : Bool := false
  needsRemoveInputSet : Bool := false
  needsRemoveCombinerSet : Bool := false
  allocatorPolicy : AllocatorPolicy
  collectAsMapOrNot : Bool := false
  numNodesToCollect : Nat := 0
  hasLocalJoinSink : Bool := false
  hasLocalJoinProbe : Bool
  joinTupleSourceOrNot : Bool := false
  joinType : String := ""
  partitionComputationSpecifier : String
  partitionLambdaName : String
  /-- the join outputs, each with its hash set -/
  hashSetsToProbe : List (String × String) := []
deriving DecidableEq

structure AggregationJobStage where
  id : Nat
  jobId : String
  aggComputation : String
  materializeOrNot : Bool
  sourceContext : SetIdentifier
  sinkContext : SetIdentifier
  outputTypeName : String
  needsRemoveInputSet : Bool
deriving DecidableEq

/-- of both join stages -/
structure JoinBuildHTJobStage where
  id : Nat
  jobId : String
  hashSetName : String
  sourceTupleSetSpecifier : String
  targetTupleSetSpecifier : String
  targetComputationSpecifier : String
  sourceContext : SetIdentifier
  needsRemoveInputSet : Bool
deriving DecidableEq

inductive AbstractJobStage
  | tupleSet (stage : TupleSetJobStage)
  | aggregation (stage : AggregationJobStage)
  | broadcastJoinBuildHT (stage : JoinBuildHTJobStage)
  | hashPartitionedJoinBuildHT (stage : JoinBuildHTJobStage)
deriving DecidableEq

namespace AbstractJobStage

def getStageId : AbstractJobStage → Nat
  | .tupleSet stage => stage.id
  | .aggregation stage => stage.id
  | .broadcastJoinBuildHT stage => stage.id
  | .hashPartitionedJoinBuildHT stage => stage.id

def sourceContext : AbstractJobStage → SetIdentifier
  | .tupleSet stage => stage.sourceContext
  | .aggregation stage => stage.sourceContext
  | .broadcastJoinBuildHT stage => stage.sourceContext
  | .hashPartitionedJoinBuildHT stage => stage.sourceContext

/-- the stages that build a hash table write to no set -/
def sinkContext : AbstractJobStage → Option SetIdentifier
  | .tupleSet stage => some stage.sinkContext
  | .aggregation stage => some stage.sinkContext
  | _ => none

def hashSetsToProbe : AbstractJobStage → List (String × String)
  | .tupleSet stage => stage.hashSetsToProbe
  | _ => []

/-- the hash set of a join stage -/
def buildsHashSet : AbstractJobStage → Option String
  | .broadcastJoinBuildHT stage => some stage.hashSetName
  | .hashPartitionedJoinBuildHT stage => some stage.hashSetName
  | _ => none

/-- with the sink of a local join, which is a hash table as well -/
def builds : AbstractJobStage → Option String
  | .tupleSet stage => if stage.hasLocalJoinSink then some stage.sinkContext.name else none
  | stage => stage.buildsHashSet

end AbstractJobStage

/-- `setJoinType(JoinType)` of a stage -/
def JoinType.toString : JoinType → String
  | .HashPartitionedJoin => "HashPartitionedJoin"
  | .BroadcastJoin => "BroadcastJoin"
  | .LocalJoin => "LocalJoin"
  | .CrossProduct => "CrossProduct"
  | .UnknownJoin => "UnknownJoin"

/-- the analyzer names the type of a join itself where it partitions an input -/
def JoinType.toStageString : JoinType → String
  | .UnknownJoin => "UnknownJoinType"
  | t => t.toString

end Netsdb
