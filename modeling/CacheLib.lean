import CacheLib.Allocator.Refcount
import CacheLib.Server.Counter
import CacheLib.Server.Expiry
import CacheLib.Server.Service
import CacheLib.Server.Concurrent
import CacheLib.Server.Scan
import CacheLib.Navy.Incarnation
import CacheLib.Allocator.AllocateHint
import CacheLib.Navy.RandomAlloc
import CacheLib.Common.BloomBank
import CacheLib.Common.AccessTracker
import CacheLib.Common.EventTracker
import CacheLib.Navy.ValidBucketChecker
import CacheLib.Allocator.MultiDListIterator
import CacheLib.Allocator.MM2QRuns
import CacheLib.Allocator.CompressedPtr
import CacheLib.Allocator.Provision
import CacheLib.Allocator.PoolStats
import CacheLib.Navy.BlockSizes
import CacheLib.Allocator.AdviseTargets
import CacheLib.Navy.RegionScan
import CacheLib.ObjectCache.SizeController
import CacheLib.Navy.RequestDrain
import CacheLib.Navy.RecordRoundTrip
import CacheLib.CompactCache.ResizeSafety
import CacheLib.Allocator.ChainedItemLists
import CacheLib.Navy.IndexCount
import CacheLib.Navy.SegmentedFifoPolicy
import CacheLib.Navy.LruPolicy
import CacheLib.Navy.CleanRegions
import CacheLib.Navy.DynamicRandomAP
import CacheLib.Allocator.MemoryMonitor
