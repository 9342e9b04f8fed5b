import M57Card.Lib.Bytes
import M57Card.Lib.Runs
import M57Card.Lib.StepMachine
import M57Card.Lib.FileTable
import M57Card.Lib.CacheHash
import M57Card.Lib.Memory
import M57Card.Lib.SplitBy
import M57Card.Lib.Bitmap
import M57Card.Lib.Tally
import M57Card.Lib.Json
import M57Card.Lib.Patterns
import M57Card.Lib.Intervals
import M57Card.Lib.Totals
import M57Card.Utils.ThreadTable
import M57Card.Utils.MemoryPool
import M57Card.Net.Tcp
import M57Card.Net.Sockets
import M57Card.Net.Servers
import M57Card.Net.Threads
import M57Card.Net.ThreadCount
import M57Card.Net.Barrier
import M57Card.Protocol.Header
import M57Card.Protocol.Host
import M57Card.Protocol.Response
import M57Card.Protocol.LoadBitfile
import M57Card.Protocol.Subscribe
import M57Card.Protocol.Execute
import M57Card.Protocol.Server
import M57Card.Protocol.Effects
import M57Card.Receive.Phases
import M57Card.Receive.Frames
import M57Card.Receive.Bounds
import M57Card.Receive.Termination
import M57Card.Load.Keeps
import M57Card.Load.Transfer
import M57Card.Load.Session
import M57Card.Load.Complete
import M57Card.Load.Channel
import M57Card.Load.Writer
import M57Card.Load.Verdict
import M57Card.Load.Clients
import M57Card.Answer.Replies
import M57Card.Answer.Framing
import M57Card.Answer.Requests
import M57Card.Receive.Chunking
import M57Card.Answer.RoundTrip
import M57Card.Answer.KeytoolSlice
import M57Card.Uplink.SpmHash
import M57Card.Uplink.SentBytes
import M57Card.Uplink.Router
import M57Card.Uplink.Layout
import M57Card.Uplink.Dispatch
import M57Card.Uplink.Room
import M57Card.Uplink.Partition
import M57Card.Uplink.Vectors
import M57Card.Uplink.Keys
import M57Card.Uplink.Inside
import M57Card.Uplink.BadFrames
import M57Card.Uplink.Padding
import M57Card.Uplink.FullBlocks
import M57Card.Uplink.Sender
import M57Card.Uplink.Accounting
import M57Card.Uplink.Delivery
import M57Card.Uplink.Subscription
import M57Card.Uplink.Pairs
import M57Card.Uplink.Pipeline
import M57Card.Uplink.Conservation
import M57Card.Load.Unload
import M57Card.Load.Status
import M57Card.Conf.Config
import M57Card.Conf.Saving
import M57Card.Conf.RoundTrip
import M57Card.Conf.NetSettings
import M57Card.Rest.Routing
import M57Card.Rest.Bindings
import M57Card.Rest.Handlers
import M57Card.Rest.ChannelTables
import M57Card.Executor.FragmentScan
import M57Card.Executor.Slices
import M57Card.Uplink.Reads
import M57Card.Executor.Smoothing
import M57Card.Executor.Agc
import M57Card.Executor.Residency
import M57Card.Executor.Analysis
import M57Card.Executor.Sideband
import M57Card.Fs.SplitNames
import M57Card.Fs.Recording
import M57Card.Fs.Notifier
import M57Card.Rest.Download
import M57Card.Akt.ScanSegments
import M57Card.Akt.CalibrationSource
import M57Card.Lib.Calendar
import M57Card.Lib.Rounding
import M57Card.Lib.Decimal
import M57Card.Lib.Fields
import M57Card.Device.FpgaDate
import M57Card.Device.Nmea
import M57Card.Lib.Receive
import M57Card.Device.Screen
import M57Card.Device.Rs485
import M57Card.Lib.BitPoly
import M57Card.Utils.Crc16
import M57Card.Utils.PoolRanges
import M57Card.Libubox.StreamBuffers
import M57Card.Libubox.StreamReading
import M57Card.Libubox.StreamWriting
import M57Card.Libubox.StreamRuns
import M57Card.Receive.Capacity
import M57Card.Lib.Paths
import M57Card.Lib.Numerals
import M57Card.Http.Lookup
import M57Card.Http.Ranges
import M57Card.Http.FileBody
import M57Card.Http.UrlCodec
import M57Card.Http.Client
import M57Card.Http.Pieces
import M57Card.Http.Requests
import M57Card.Lib.Simulation
import M57Card.Libubox.Timers
import M57Card.Libubox.Events
