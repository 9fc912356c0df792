import BackendCpp.Library.Loop
import BackendCpp.Library.RedBlack
import BackendCpp.RbtreeC.Program
import BackendCpp.RbtreeC.Shape
import BackendCpp.RbtreeC.Rotation
import BackendCpp.RbtreeC.Insertion
import BackendCpp.RbtreeC.Deletion
import BackendCpp.RbtreeC.Removal
import BackendCpp.Library.Run
import BackendCpp.RbtreeC.Reading
import BackendCpp.RbtreeC.Runs
import BackendCpp.Timewheel.Program
import BackendCpp.Timewheel.Slots
import BackendCpp.Timewheel.Invariant
import BackendCpp.Timewheel.Runs
import BackendCpp.Mmpool.Program
import BackendCpp.Mmpool.Chain
import BackendCpp.Mmpool.Regions
import BackendCpp.Mmpool.Runs
import BackendCpp.Tcp.Program
import BackendCpp.Tcp.Receive
import BackendCpp.Tcp.Segments
import BackendCpp.Library.Naming
import BackendCpp.Tcp.Descriptors
import BackendCpp.Deadlock.Program
import BackendCpp.Deadlock.Records
import BackendCpp.Deadlock.Graph
import BackendCpp.Library.Ring
import BackendCpp.ThrdPool.Program
import BackendCpp.ThrdPool.Queue
import BackendCpp.Library.Machine
import BackendCpp.Trycatch.Program
import BackendCpp.Trycatch.Structured
import BackendCpp.Library.Linked
import BackendCpp.Skiplist.Program
import BackendCpp.Skiplist.Search
import BackendCpp.Skiplist.Shape
import BackendCpp.Skiplist.Insertion
import BackendCpp.Skiplist.Deletion
import BackendCpp.Skiplist.Runs
import BackendCpp.Tcp.Connections
import BackendCpp.Tcp.Handshake
import BackendCpp.Tcp.Output
import BackendCpp.Tcp.Sending
import BackendCpp.Tcp.Sequence
import BackendCpp.Tcp.Teardown
import BackendCpp.Tcp.Encoding
import BackendCpp.Tcp.Bursts
import BackendCpp.Tcp.Roundtrip
import BackendCpp.Ntychannel.File
import BackendCpp.Library.BinaryHeap
import BackendCpp.Minheap.Program
import BackendCpp.Minheap.Operations
import BackendCpp.Minheap.Runs
import BackendCpp.Expiry.Clock
import BackendCpp.Expiry.RbtTimer
import BackendCpp.Expiry.Agreement
import BackendCpp.ZeroThreadpool.Program
import BackendCpp.ZeroThreadpool.Waiting
import BackendCpp.Uring.Isolation
import BackendCpp.Http.Exactness
import BackendCpp.BtreeC.Program
import BackendCpp.BtreeC.Cells
import BackendCpp.Deadlock.Detector
import BackendCpp.Deadlock.Room
import BackendCpp.Deadlock.Waiting
import BackendCpp.Deadlock.Cycles
import BackendCpp.Deadlock.Bounds
import BackendCpp.Skiplist.Handlers
import BackendCpp.Timewheel.Cancelling
import BackendCpp.Minheap.Sequences
import BackendCpp.Mmpool.Accounts
import BackendCpp.Mmpool.Ledger
import BackendCpp.Mmpool.Blocks
import BackendCpp.Mmpool.Recursion
import BackendCpp.BtreeC.Contents
import BackendCpp.BtreeC.Shape
import BackendCpp.Tcp.Acknowledging
import BackendCpp.Tcp.Copying
import BackendCpp.Tcp.Failures
import BackendCpp.Tcp.Fragments
import BackendCpp.Tcp.Delivery
import BackendCpp.Http.Store
import BackendCpp.Reactor.Echoing
import BackendCpp.Reactor.Filling
import BackendCpp.Http.Connection
import BackendCpp.ThrdPool.Calls
import BackendCpp.ThrdPool.Locking
import BackendCpp.Uring.Completions
import BackendCpp.Trycatch.Conclusion
import BackendCpp.Trycatch.Finally
import BackendCpp.BtreeC.Insertion
import BackendCpp.BtreeC.Descent
import BackendCpp.BtreeC.Refilling
import BackendCpp.BtreeC.DeleteCalls
import BackendCpp.BtreeC.Deletion
import BackendCpp.BtreeC.Runs
import BackendCpp.Tcp.Bitmap
import BackendCpp.Library.Doubly
import BackendCpp.Tcp.Lists
import BackendCpp.Reactor.Blocks
import BackendCpp.Memleak.Program
import BackendCpp.Memleak.Runs
import BackendCpp.Deadlock.Edges
import BackendCpp.Library.Fields
import BackendCpp.Tcp.Ddos
import BackendCpp.Tcp.Counting
import BackendCpp.Tcp.FloodWindow
import BackendCpp.RbtreeC.Checked
import BackendCpp.RbtreeC.Successor
import BackendCpp.RbtreeC.Safety
import BackendCpp.RbtreeC.Spelling
import BackendCpp.RbtreeH.Program
import BackendCpp.RbtreeH.Climb
import BackendCpp.RbtreeH.Fixup
import BackendCpp.RbtreeH.Repair
import BackendCpp.RbtreeH.Insertion
import BackendCpp.Ngx.Program
import BackendCpp.Ngx.Recoding
import BackendCpp.Ngx.Fixups
import BackendCpp.Ngx.Insertion
import BackendCpp.Ngx.Exchange
import BackendCpp.Ngx.Removal
import BackendCpp.Ngx.Runs
import BackendCpp.Ngx.Comparisons
import BackendCpp.Ngx.Traversal
import BackendCpp.Ngx.Timers
import BackendCpp.Library.Calendar
import BackendCpp.Library.Numeral
import BackendCpp.MuduoLog.Text
import BackendCpp.MuduoLog.Date
import BackendCpp.MuduoLog.TimeZone
import BackendCpp.MuduoLog.LocalTime
import BackendCpp.MuduoLog.LogStream
import BackendCpp.MuduoLog.Logging
import BackendCpp.MuduoLog.LogFile
import BackendCpp.MuduoLog.Rolling
import BackendCpp.MuduoLog.AsyncLogging
import BackendCpp.MuduoLog.Handover
import BackendCpp.MuduoLog.LogRuns
import BackendCpp.Library.Reader
import BackendCpp.MuduoLog.LogProgram
import BackendCpp.MuduoLog.ZoneFile
