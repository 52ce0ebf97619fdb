import Rustytree.Lib.Buckets
import Rustytree.Lib.ChunkGrid
import Rustytree.Lib.CheckedU64
import Rustytree.Lib.Collect
import Rustytree.Lib.Cover
import Rustytree.Lib.Preorder
import Rustytree.Lib.RowMajor
import Rustytree.Lib.Wildcard
import Rustytree.Lib.WriteBack
import Rustytree.Errors
import Rustytree.Dtype
import Rustytree.SliceNd
import Rustytree.ReadSubset
import Rustytree.AlignU64
import Rustytree.Indexing
import Rustytree.Paths
import Rustytree.Glob
import Rustytree.Store
import Rustytree.Hierarchy
import Rustytree.HeldStores
import Rustytree.VanillaWalk
import Rustytree.IcechunkWalk
import Rustytree.SnapshotErrors
import Rustytree.Eager
import Rustytree.Walk
import Rustytree.PurePath
import Rustytree.Lib.Dict
import Rustytree.Backend
import Rustytree.LiteralGroup
import Rustytree.Subtree
import Rustytree.Parity
import Rustytree.Prune
import Rustytree.Lib.Runs
import Rustytree.Lib.ForkJoin
import Rustytree.Permits
import Rustytree.WalkSteps
import Rustytree.InFlight
import Rustytree.WalkOrder
import Rustytree.DatetimePatch
import Rustytree.DatetimeDtype
import Rustytree.S3Options
import Rustytree.WalkOutcome
import Rustytree.EagerRead
import Rustytree.ChunkedReads
import Rustytree.Prefetch
import Rustytree.Ancestors
import Rustytree.FromDict
import Rustytree.Dataset
import Rustytree.Lib.Split
import Rustytree.Url
import Rustytree.Source
import Rustytree.Pickle
import Rustytree.Attributes
import Rustytree.Delivery
import Rustytree.WalkErrors
import Rustytree.Credentials
import Rustytree.DatetimeFallback
