import NanoJS.App.LogReturns
import NanoJS.Buffers.Copies
import NanoJS.Buffers.EncodingNames
import NanoJS.Buffers.Fill
import NanoJS.Buffers.FromArrayBuffer
import NanoJS.Buffers.PeriodicFill
import NanoJS.Buffers.PoolOffset
import NanoJS.Buffers.PoolUse
import NanoJS.Buffers.Remembered
import NanoJS.Buffers.RoundTrip
import NanoJS.Buffers.Writers
import NanoJS.Buffers.ZeroFill
import NanoJS.Engine.Accesses
import NanoJS.Engine.IntervalRate
import NanoJS.Engine.Lemon
import NanoJS.Engine.Lifetimes
import NanoJS.Engine.Return
import NanoJS.Engine.RoundOrder
import NanoJS.Engine.Rounds
import NanoJS.Engine.Scripts
import NanoJS.Engine.Starvation
import NanoJS.Engine.TimerArguments
import NanoJS.Engine.TimerOrder
import NanoJS.Engine.TimerPass
import NanoJS.Engine.UpdateTimers
import NanoJS.Events.Once
import NanoJS.Events.RepeatedRemoval
import NanoJS.Files.Answers
import NanoJS.Files.ExplicitOptions
import NanoJS.Files.LongStrings
import NanoJS.Files.Outcomes
import NanoJS.Files.ReadBack
import NanoJS.Files.Reads
import NanoJS.Files.SharedOptions
import NanoJS.Files.Stats
import NanoJS.Files.Sync
import NanoJS.Files.ThreadBounds
import NanoJS.Files.TornReads
import NanoJS.Files.Watcher
import NanoJS.Files.WatcherCalls
import NanoJS.Files.WorkerMessages
import NanoJS.Files.Writes
