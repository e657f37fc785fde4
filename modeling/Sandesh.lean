import Sandesh.Lib.Prog
import Sandesh.Lib.Fix
import Sandesh.Lib.Outcomes
import Sandesh.Lib.Logic
import Sandesh.Lib.Text
import Sandesh.Lib.Replace
import Sandesh.Lib.Machine
import Sandesh.Lib.Pass
import Sandesh.Lib.Tally
import Sandesh.Framing.Basic
import Sandesh.Framing.Send
import Sandesh.Framing.Proofs.OpenTag
import Sandesh.Framing.Proofs.Stream
import Sandesh.Framing.Proofs.Log
import Sandesh.Framing.Proofs.Chunking
import Sandesh.Framing.Proofs.Hostile
import Sandesh.Framing.Proofs.Rejected
import Sandesh.Framing.Proofs.Send
import Sandesh.Xml.Reader
import Sandesh.Xml.Protocol
import Sandesh.Xml.Proofs.Escape
import Sandesh.Xml.Proofs.Reader
import Sandesh.Xml.Proofs.CData
import Sandesh.Xml.Proofs.Delimited
import Sandesh.Xml.Proofs.Watch
import Sandesh.Xml.Proofs.Ends
import Sandesh.Xml.Proofs.Runs
import Sandesh.Header.Basic
import Sandesh.Header.Proofs.Ends
import Sandesh.Header.Proofs.Written
import Sandesh.Header.Proofs.Offset
import Sandesh.Ctrl.Basic
import Sandesh.Ctrl.Proofs.Crash
import Sandesh.Py.Protocol
import Sandesh.Py.Header
import Sandesh.Py.Proofs.Counts
import Sandesh.Py.Proofs.RoundTrip
import Sandesh.Py.Proofs.Fields
import Sandesh.Py.Proofs.HeaderLen
import Sandesh.Py.Session
import Sandesh.Py.Proofs.Turns
import Sandesh.Py.Proofs.Chunks
import Sandesh.Py.Proofs.Stall
import Sandesh.Py.Proofs.Stranded
import Sandesh.Py.StateMachine
import Sandesh.Py.Proofs.Moves
import Sandesh.Py.Proofs.StateMachine
import Sandesh.Py.Uve
import Sandesh.Py.Proofs.Uve
import Sandesh.Py.Trace
import Sandesh.Py.Proofs.Trace
import Sandesh.Py.WorkQueue
import Sandesh.Py.Proofs.WorkQueue
import Sandesh.Py.Proofs.Watermarks
import Sandesh.Py.Proofs.Runner
import Sandesh.Collector.Basic
import Sandesh.Collector.Proofs.Agree
import Sandesh.ServerSM.Basic
import Sandesh.ServerSM.Proofs.Moves
import Sandesh.ServerSM.Proofs.Sessions
import Sandesh.ClientSM.Basic
import Sandesh.ClientSM.Proofs.Moves
import Sandesh.ClientSM.Proofs.Invariant
import Sandesh.ClientSM.Proofs.Stale
import Sandesh.Uve.Basic
import Sandesh.Uve.Proofs.Calls
import Sandesh.Uve.Proofs.Cache
import Sandesh.Uve.Proofs.Expiry
import Sandesh.Stats.Basic
import Sandesh.Stats.Proofs.Window
import Sandesh.Stats.Proofs.Merge
import Sandesh.Stats.Proofs.Telescope
import Sandesh.Stats.Periodic
import Sandesh.Stats.Proofs.Periodic
import Sandesh.Pipeline.Basic
import Sandesh.Pipeline.Proofs.Invariant
import Sandesh.Pipeline.Proofs.Steps
import Sandesh.Pipeline.Proofs.Order
import Sandesh.Lib.Wire
import Sandesh.Binary.Basic
import Sandesh.Binary.C
import Sandesh.Binary.Cpp
import Sandesh.Binary.Proofs.Wire
import Sandesh.Binary.Proofs.Reads
import Sandesh.Binary.Proofs.Agree
import Sandesh.Binary.Receive
import Sandesh.Binary.Proofs.Grammar
import Sandesh.Binary.Proofs.Truncate
import Sandesh.Binary.Skip
import Sandesh.Binary.Proofs.Skip
import Sandesh.Binary.Proofs.SkipTree
import Sandesh.Binary.Proofs.SkipProtocol
import Sandesh.Binary.Proofs.SkipExact
import Sandesh.CGen.Idl
import Sandesh.CGen.Write
import Sandesh.CGen.Read
import Sandesh.CGen.Proofs.Value
import Sandesh.CGen.Proofs.Buffer
import Sandesh.CGen.Proofs.Agree
import Sandesh.CGen.Proofs.Read
import Sandesh.CGen.Proofs.RoundTrip
import Sandesh.Lib.Backoff
import Sandesh.Client.Close
import Sandesh.Client.Proofs.Close
import Sandesh.MessageStats.Basic
import Sandesh.MessageStats.Proofs.AddUp
import Sandesh.Server.Basic
import Sandesh.Server.Proofs.Index
import Sandesh.Collector.Proofs.Assert
import Sandesh.CppGen.Write
import Sandesh.ClientSM.Proofs.Collectors
import Sandesh.Uve.Proofs.Resync
import Sandesh.CppGen.Read
import Sandesh.CppGen.Proofs.FieldBegin
import Sandesh.Lib.Sorted
import Sandesh.CppGen.Idl
import Sandesh.CppGen.Proofs.Text
import Sandesh.CppGen.Proofs.Containers
import Sandesh.CppGen.Proofs.Values
import Sandesh.CppGen.Proofs.ReadsAs
import Sandesh.CppGen.Proofs.Structs
import Sandesh.CppGen.Proofs.Misread
import Sandesh.CppGen.Proofs.RoundTrip
import Sandesh.CppGen.Proofs.Settles
import Sandesh.CppGen.Proofs.SkipBase
import Sandesh.CppGen.Proofs.SkipElems
import Sandesh.CppGen.Proofs.SkipStructs
import Sandesh.CppGen.Proofs.SkipEntries
import Sandesh.CppGen.Proofs.SkipExact
import Sandesh.Stats.Proofs.Change
import Sandesh.Stats.Proofs.Buckets
import Sandesh.Py.Proofs.TraceMore
import Sandesh.Uve.Group
import Sandesh.Uve.Proofs.Group
import Sandesh.Uve.Proofs.Loops
import Sandesh.Binary.Proofs.WriteBinary
import Sandesh.Uve.Proofs.Senders
import Sandesh.Uve.Generated
import Sandesh.Uve.Proofs.Partial
import Sandesh.Uve.Proofs.Generated
import Sandesh.Uve.Introspect
import Sandesh.Uve.Proofs.Hidden
import Sandesh.Uve.Proofs.Introspect
import Sandesh.Lib.Focus
import Sandesh.CGen.Errors
import Sandesh.CGen.Grammar
import Sandesh.CGen.Proofs.Erase
import Sandesh.CGen.Proofs.Progress
import Sandesh.CGen.Proofs.Skipped
import Sandesh.CGen.Proofs.Takes
import Sandesh.CGen.Proofs.Reported
import Sandesh.Py.RateLimit
import Sandesh.Py.Proofs.RateLimit
import Sandesh.Server.Proofs.Bitmap
import Sandesh.Server.Proofs.Lookup
import Sandesh.Py.Proofs.CData
import Sandesh.Binary.Proofs.Container
import Sandesh.Lib.Fifo
import Sandesh.Transport.Memory
import Sandesh.Transport.Proofs.Growth
import Sandesh.Transport.Proofs.CMemory
import Sandesh.Transport.Proofs.CppMemory
import Sandesh.Transport.Proofs.Fifo
import Sandesh.CppGen.Calls
import Sandesh.CppGen.Proofs.Lookahead
import Sandesh.Lib.Nesting
import Sandesh.CText.Emit
import Sandesh.CText.Types
import Sandesh.CText.Buffer
import Sandesh.CText.Fields
import Sandesh.CText.Structs
import Sandesh.CText.Proofs.Buffer
import Sandesh.CText.Proofs.Fields
import Sandesh.CText.Proofs.Structs
import Sandesh.CppGen.Proofs.Sessions
import Sandesh.ClientSM.Proofs.Sends
import Sandesh.Delivery.Basic
import Sandesh.Delivery.Proofs.Channel
import Sandesh.Delivery.Proofs.InOrder
import Sandesh.Lib.Http
import Sandesh.Http.Basic
import Sandesh.Http.Proofs.Responses
import Sandesh.CppGen.Versions
import Sandesh.CppGen.Proofs.Versions
import Sandesh.Lib.CircularBuffer
import Sandesh.Sender.RateLimit
import Sandesh.Sender.Proofs.RateLimit
import Sandesh.Sender.Basic
import Sandesh.Sender.Proofs.Counted
import Sandesh.PyGen.Basic
import Sandesh.PyGen.Views
import Sandesh.PyGen.Proofs.Write
import Sandesh.PyGen.Proofs.Read
import Sandesh.PyGen.Proofs.Back
import Sandesh.Compiler.Members
import Sandesh.Compiler.Interop
import Sandesh.Lib.Stack
import Sandesh.Xml.Parts
import Sandesh.Xml.Proofs.Parts
