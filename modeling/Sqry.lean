import Sqry.Graph.ArenaErrors
import Sqry.Admission.Limit
import Sqry.Edge.LastCall
import Sqry.Compaction.Preserves
import Sqry.Compaction.Chunked
import Sqry.Compaction.LostUpdate
import Sqry.Db.MemoSound
import Sqry.Db.DerivedLoad
import Sqry.Query.RepoFilterExact
import Sqry.Query.CacheKeySound
import Sqry.Query.Imports
import Sqry.Query.ResultCacheRuns
import Sqry.Query.CostOrder
import Sqry.Graph.RegistryRuns
import Sqry.Rebuild.ScopeHandles
import Sqry.Rebuild.Closure
import Sqry.Go.BuildPrelude
import Sqry.Go.Promotion
import Sqry.Persist.Legacy
import Sqry.Daemon.Reservation
import Sqry.Daemon.Serving
import Sqry.Daemon.Cancellation
import Sqry.Daemon.Attempts
import Sqry.Daemon.Waiters
import Sqry.Analysis.SccComponents
import Sqry.Lock.SharedWaitRuns
import Sqry.Rules.Adopted
import Sqry.Rollback.ReadRight
import Sqry.Rollback.PairRuns
import Sqry.Query.Ancestors
import Sqry.Graph.InternerDedup
import Sqry.Query.Optimizer
import Sqry.Planner.CfgEquality
import Sqry.Planner.CostGate
import Sqry.Query.ParserExact
import Sqry.Query.RelationScan
import Sqry.Planner.FuseRoundTrip
import Sqry.Build.BodyExtent
import Sqry.Query.Duplicates
import Sqry.Build.Unify
import Sqry.Bind.Lookups
import Sqry.Bind.StableIds
import Sqry.Build.ReindexEdges
import Sqry.Graph.NameRoundTrip
import Sqry.Daemon.DiskBudget
import Sqry.Build.LocalScopes
import Sqry.Query.StructuralNeighbors
import Sqry.Traverse.Reference
import Sqry.Query.CycleQueries
import Sqry.Persist.NodeHistory
import Sqry.Rules.PathQuery
import Sqry.Analysis.CondensationExact
