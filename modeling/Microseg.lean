import Microseg.Lib.Words
import Microseg.Lib.KernelMap
import Microseg.Lib.KeyedList
import Microseg.Lib.SlotArray
import Microseg.Lib.Atomic
import Microseg.Lib.Runs
import Microseg.Lib.GoNet
import Microseg.Types
import Microseg.Packet
import Microseg.Lookup
import Microseg.Filter
import Microseg.FailOpen
import Microseg.Priority
import Microseg.Fragments
import Microseg.Policy
import Microseg.Storage
import Microseg.Manager
import Microseg.Api
import Microseg.Denote
import Microseg.Delete
import Microseg.Allocator
import Microseg.Install
import Microseg.Restart
import Microseg.Enforce
import Microseg.System
import Microseg.Update
import Microseg.UpdateRace
import Microseg.Startup
import Microseg.Statistics
import Microseg.Exhaustion
import Microseg.UpdateError
import Microseg.Insert
import Microseg.Mirror
import Microseg.Lib.SlotRace
import Microseg.Creates
import Microseg.Lib.IPNet
import Microseg.Visible
import Microseg.Events
import Microseg.Segments
import Microseg.Orders
import Microseg.Slots
import Microseg.AddError
import Microseg.Listed
import Microseg.Ipv6
import Microseg.Accounting
import Microseg.Snapshot
import Microseg.Lib.SqlTable
import Microseg.Columns
import Microseg.FlowMachine
import Microseg.HitCounts
import Microseg.EventLog
import Microseg.Readings
import Microseg.SessionTable
import Microseg.Lifecycle
import Microseg.Lib.Layout
import Microseg.Abi
import Microseg.Lib.Encoded
import Microseg.Memory
import Microseg.SharedMemory
import Microseg.Concurrency
import Microseg.Crash
import Microseg.RuleStore
import Microseg.Durable
import Microseg.Lib.RelyGuarantee
import Microseg.Multicore
import Microseg.Interference
import Microseg.Parallel
import Microseg.Lib.Binary64
import Microseg.Rates
import Microseg.Lib.Calls
