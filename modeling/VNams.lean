import VNams.Strategy.FarNic
import VNams.Rounded
import VNams.Nuiod.Forgetting
import VNams.Nuiod.World
import VNams.Nuiod.Measuring
import VNams.Mgen.Session
import VNams.Mgen.Calibrate
import VNams.Mgen.Tsc
import VNams.Nuiod.Steady
import VNams.Strategy.Sight
import VNams.Nuiod.Threads
import VNams.Lib.Interleave
import VNams.Mgen.DependentRead
import VNams.Nuiod.Repeats
import VNams.Lib.Passes
import VNams.Strategy.Thrift
import VNams.Lib.Relocation
import VNams.Mgen.Buffer
import VNams.Mgen.RandArray
import VNams.Lib.Route
import VNams.Nuiod.ConfLines
import VNams.Lib.Literals
import VNams.Nuiod.Startup
import VNams.Nuiod.LatencyFile
import VNams.Lib.Decimal
import VNams.Lib.Chunks
import VNams.Monitor.Attribution
import VNams.Monitor.Usage
import VNams.Lib.Ascending
import VNams.Lib.Wrapping
import VNams.Nuiod.FailedStart
import VNams.Nuiod.Placement
import VNams.Lib.Rooms
import VNams.Nuiod.Refresh
import VNams.Nuiod.Handles
import VNams.Nuiod.Conf
import VNams.Nuiod.Perform
import VNams.Strategy.Threshold
import VNams.Strategy.Affinity
import VNams.Strategy.FreeNic
import VNams.Strategy.Crossing
import VNams.Strategy.Destination
import VNams.Strategy.Whereabouts
import VNams.Strategy.Totality
import VNams.Lib.Run
import VNams.Lib.Loop
import VNams.Lib.UnstableSort
import VNams.Lib.Seating
import VNams.Lib.Leveling
import VNams.Types
import VNams.Monitor.Io
import VNams.Monitor.Cpu
import VNams.Monitor.Mem
import VNams.Monitor.Perf
import VNams.Strategy.Balance
import VNams.Strategy.Lists
import VNams.Strategy.Iteration
import VNams.Strategy.Cache
import VNams.Strategy.Classify
import VNams.Strategy.Analyze
import VNams.Strategy.Exactness
import VNams.Strategy.Levelled
import VNams.Nuiod.Daemon
import VNams.Nuiod.Effects
import VNams.Lib.Outcome
import VNams.Strategy.Safety
import VNams.Nuiod.Moves
import VNams.Nuiod.Seats
import VNams.Nuiod.Boot
import VNams.Nuiod.Occupancy
import VNams.Nuiod.Tracking
import VNams.Nuiod.Keys
import VNams.Strategy.Bounds
import VNams.Nuiod.Records
import VNams.Nuiod.Bounds
import VNams.Nuiod.Sampling
import VNams.Strategy.Reads
import VNams.Nuiod.Measured
import VNams.Monitor.Rates
import VNams.Monitor.NumaMaps
import VNams.Nuiod.Latency
import VNams.Lib.ByteSet
import VNams.Nuiod.PinMask
import VNams.Lib.Lines
import VNams.Lib.Search
import VNams.Monitor.Counters
import VNams.Nuiod.Scans
import VNams.Nuiod.OwnAddress
import VNams.Nuiod.Endurance
