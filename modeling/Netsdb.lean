import Netsdb.Lib.Codec
import Netsdb.Lib.Bytes
import Netsdb.Lib.Drain
import Netsdb.Lib.BinHeap
import Netsdb.Lib.Buckets
import Netsdb.Lib.FiniteMap
import Netsdb.Lib.Grid
import Netsdb.Lib.Justified
import Netsdb.Lib.KeySum
import Netsdb.Lib.LockTrace
import Netsdb.Lib.Postorder
import Netsdb.Lib.Probe
import Netsdb.Lib.Reach
import Netsdb.Lib.Tally
import Netsdb.Lib.TopK
import Netsdb.Lib.Tiles
import Netsdb.ObjectModel.Allocator
import Netsdb.ObjectModel.Block
import Netsdb.ObjectModel.Lifecycle
import Netsdb.ObjectModel.Handle
import Netsdb.ObjectModel.HandleCount
import Netsdb.ObjectModel.HandleFrame
import Netsdb.ObjectModel.HandleCopy
import Netsdb.ObjectModel.HandleAssign
import Netsdb.ObjectModel.HandleOps
import Netsdb.BuiltIn.Storage
import Netsdb.BuiltIn.PairArray
import Netsdb.BuiltIn.PDBMap
import Netsdb.BuiltIn.MapRetry
import Netsdb.BuiltIn.MapGrowth
import Netsdb.BuiltIn.MapUndo
import Netsdb.BuiltIn.PDBVector
import Netsdb.BuiltIn.VectorArray
import Netsdb.BuiltIn.TopKQueue
import Netsdb.BuiltIn.JoinPairArray
import Netsdb.BuiltIn.JoinPush
import Netsdb.BuiltIn.JoinDouble
import Netsdb.BuiltIn.JoinMap
import Netsdb.BuiltIn.JoinUndo
import Netsdb.BuiltIn.PairCopy
import Netsdb.BuiltIn.JoinCopy
import Netsdb.BuiltIn.JoinCopyFail
import Netsdb.Sink.Pipeline
import Netsdb.Sink.OutputPages
import Netsdb.Sink.Aggregate
import Netsdb.Sink.Combiner
import Netsdb.Sink.JoinRecord
import Netsdb.Sink.JoinSink
import Netsdb.Sink.JoinRoute
import Netsdb.Sink.JoinMerge
import Netsdb.Planning.JobStage
import Netsdb.Planning.LogicalPlan
import Netsdb.Planning.QueryGraphAnalyzer
import Netsdb.Planning.ComputationLabels
import Netsdb.Planning.QueryScheduler
import Netsdb.Planning.ShuffleInfo
import Netsdb.Planning.StageOrder
import Netsdb.Planning.Walk
import Netsdb.Planning.AllOrNothing
import Netsdb.Planning.PlanLoop
import Netsdb.Planning.TCAPAnalyzer
import Netsdb.Source.VectorTupleSetIterator
import Netsdb.Source.PartitionedVectorTupleSetIterator
import Netsdb.Source.MapTupleSetIterator
import Netsdb.Storage.PartitionedFile
import Netsdb.Storage.MetaPartition
import Netsdb.Storage.AppendIndex
import Netsdb.Storage.DataPartition
import Netsdb.Storage.PDBPage
import Netsdb.Lib.Records
import Netsdb.Storage.RecordArea
import Netsdb.Storage.PageCache
import Netsdb.Storage.PageLife
import Netsdb.Storage.PageFrame
import Netsdb.Storage.PageFlush
import Netsdb.Storage.PageNew
import Netsdb.Storage.PageSafety
import Netsdb.Storage.SetScan
import Netsdb.Storage.ScanFlush
import Netsdb.Storage.ScanExact
import Netsdb.Storage.ScanIter
import Netsdb.Storage.PageCircularBuffer
import Netsdb.Storage.PageRefCount
import Netsdb.Lib.Table
import Netsdb.Storage.CacheSize
import Netsdb.Storage.LocalitySet
import Netsdb.Storage.EvictionLocks
import Netsdb.Storage.Eviction
import Netsdb.Storage.EvictionDiscipline
import Netsdb.Lib.Label
import Netsdb.Lambda.GenericLambdaObject
import Netsdb.Lambda.MultiInputsBase
import Netsdb.Lambda.LeafLambdas
import Netsdb.Lambda.InnerLambdas
import Netsdb.Lambda.Lambda
import Netsdb.Lambda.LambdaComputation
import Netsdb.Lambda.LambdaNames
import Netsdb.ObjectModel.PDBString
import Netsdb.ObjectModel.StringSpec
import Netsdb.ObjectModel.StringValue
import Netsdb.Deduplication.FFMatrixBlockIndex
import Netsdb.Deduplication.SharedPageIterator
import Netsdb.Lib.Pages
import Netsdb.Lib.PageGroups
import Netsdb.Deduplication.BinPackingScheme
import Netsdb.Deduplication.BinPackGreedy
import Netsdb.Deduplication.SchemeMerge
import Netsdb.Deduplication.EquivalenceClasses
import Netsdb.Deduplication.TwoStage
import Netsdb.Executor.JoinProbe
import Netsdb.Planning.FindSource
import Netsdb.Executor.PartitionedHashSet
import Netsdb.BuiltIn.TableGrowth
import Netsdb.BuiltIn.MapRemove
import Netsdb.Deduplication.IndexTables
import Netsdb.Lib.Scatter
import Netsdb.FF.MatrixBlock
import Netsdb.FF.MatrixMerge
import Netsdb.Lib.Stepwise
import Netsdb.Storage.SharedPageIndex
import Netsdb.Planning.SourceTables
import Netsdb.Lib.Binary32
import Netsdb.Lib.Aggregation
import Netsdb.Conv2d.ImageBlock
import Netsdb.Conv2d.FFMatrixBlock
import Netsdb.Conv2d.RowChunks
import Netsdb.Conv2d.KernelBias
import Netsdb.Conv2d.ImageToChunks
import Netsdb.Conv2d.ConvResultToChunks
import Netsdb.Conv2d.ConvChunksToImage
import Netsdb.Lib.Attempts
import Netsdb.Lib.LoadFactor
import Netsdb.FF.LoadMatrix
import Netsdb.Loading.LAInitializerNode
import Netsdb.Loading.LoadImages
import Netsdb.BuiltIn.ProbeEnds
import Netsdb.Lambda.JoinTuple
import Netsdb.Lib.Array2
import Netsdb.Deduplication.Blocker
import Netsdb.Deduplication.Indexer
import Netsdb.Deduplication.Deduplicator
import Netsdb.Lib.DepthFirst
import Netsdb.Planning.BuildPipeline
import Netsdb.Lib.Text
import Netsdb.BuiltIn.TreeParse
import Netsdb.BuiltIn.TreeLines
import Netsdb.BuiltIn.TreeDump
import Netsdb.BuiltIn.TreeBack
import Netsdb.Lib.Decision
import Netsdb.BuiltIn.Forest
import Netsdb.BuiltIn.ForestDump
import Netsdb.BuiltIn.TreePlan
import Netsdb.Lib.Blocked
import Netsdb.LinearAlgebra.MatrixBlock
import Netsdb.LinearAlgebra.Computations
import Netsdb.LinearAlgebra.Represents
import Netsdb.LinearAlgebra.Evaluate
import Netsdb.LinearAlgebra.Program
import Netsdb.LinearAlgebra.MaxElement
import Netsdb.Sink.AggregateSink
import Netsdb.FeedForward.Layers
import Netsdb.FeedForward.Inference
