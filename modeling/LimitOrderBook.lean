import LimitOrderBook.PoolHistory
import LimitOrderBook.Differential
import LimitOrderBook.Priority
import LimitOrderBook.EventStream
import LimitOrderBook.ConfigSafety
import LimitOrderBook.E2eBench
import LimitOrderBook.ReplayRun
import LimitOrderBook.SpscThreads
import LimitOrderBook.EngineLoop
import LimitOrderBook.AsyncLogger
import LimitOrderBook.BandIndependence
import LimitOrderBook.LadderMap
import LimitOrderBook.Mirror
import LimitOrderBook.StatsBalance
import LimitOrderBook.OrderTypes
import LimitOrderBook.LatencyMerge
import LimitOrderBook.Percentile
import LimitOrderBook.LevelFrame
import LimitOrderBook.E2eRun
import LimitOrderBook.SpscHighWater
import LimitOrderBook.WorkloadBounds
import LimitOrderBook.GenerateRun
import LimitOrderBook.CancelCommute
import LimitOrderBook.GuardedBook
import LimitOrderBook.SpscLinear
import LimitOrderBook.E2eProgress
import LimitOrderBook.LogReplay
import LimitOrderBook.CheckExact
import LimitOrderBook.E2eCli
import LimitOrderBook.BookMicroBench
