import OpenViking.Git.ScopedCommit
import OpenViking.Git.IndexCache
import OpenViking.Git.RestoreCorrect
import OpenViking.Refs.RefStoreCorrect
import OpenViking.Git.NoLostCommit
import OpenViking.Queue.SQLiteQueueCorrect
import OpenViking.Queue.RedisQueueCorrect
import OpenViking.Index.FiltersExact
import OpenViking.Collection.Expiry
import OpenViking.Collection.RecoverCorrect
import OpenViking.Compile.LifecycleCorrect
import OpenViking.Compile.PhasesInOrder
import OpenViking.Sync.SyncPromise
import OpenViking.Access.ConfinedPairs
import OpenViking.Session.RecoveredCommit
import OpenViking.Session.CountersAgree
import OpenViking.Semantic.FreshnessDebt
import OpenViking.Semantic.CoalescingCorrect
import OpenViking.OAuth.GrantsSafe
import OpenViking.Ingest.ExactlyOnce
import OpenViking.Watch.WatchKept
import OpenViking.Tracker.TaskLifecycle
import OpenViking.Git.FreshWrite
import OpenViking.Queue.RemoveQueueCorrect
import OpenViking.Memfs.Contents
import OpenViking.MultiWrite.FailedWrite
import OpenViking.Lock.LockedAgrees
import OpenViking.Lock.LeavesNoTrace
import OpenViking.Crypto.EnvelopeCodec
import OpenViking.Scalar.RangedMapRuns
import OpenViking.Holder.BitmapRuns
import OpenViking.Ragfs.GlobPages
import OpenViking.Ragfs.CachedGrep
import OpenViking.Vector.SparseDistanceExact
import OpenViking.Session.ActiveBudgetFits
import OpenViking.Memory.MergeFields
import OpenViking.Common.Scan
import OpenViking.Memory.ResourceRefs
import OpenViking.Memory.UnlinkedReferences
import OpenViking.Access.Listings
import OpenViking.Access.ListingsLimited
import OpenViking.Storage.AppendFile
import OpenViking.Storage.OverviewRoundTrip
import OpenViking.Mining.HistoryStable
