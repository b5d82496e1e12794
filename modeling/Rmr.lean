import Rmr.Lib.CInt
import Rmr.Lib.Block
import Rmr.Lib.Run
import Rmr.Wire.Header
import Rmr.Receive.River
import Rmr.Proofs.Receive.Pass
import Rmr.Proofs.Receive.Cases
import Rmr.Proofs.Receive.Bounds
import Rmr.Proofs.Receive.Progress
import Rmr.Lib.Framing
import Rmr.Lib.RoundRobin
import Rmr.Proofs.Receive.Reassembly
import Rmr.Proofs.Receive.Stream
import Rmr.Receive.Stage
import Rmr.Proofs.Receive.Refine
import Rmr.Message.Mbuf
import Rmr.Receive.Deliver
import Rmr.Proofs.Receive.Vetting
import Rmr.Proofs.Receive.Leftover
import Rmr.Message.Send
import Rmr.Message.MbufApi
import Rmr.Proofs.Message.Layout
import Rmr.Proofs.Message.Trace
import Rmr.Proofs.Message.Compose
import Rmr.Proofs.Message.Fidelity
import Rmr.Proofs.Message.Orders
import Rmr.Lib.Chain
import Rmr.Lib.Linked
import Rmr.Symtab.Table
import Rmr.Symtab.Heap
import Rmr.Proofs.Symtab.Isolation
import Rmr.Proofs.Symtab.Memory
import Rmr.Proofs.Symtab.Sweep
import Rmr.Proofs.Symtab.Refine
import Rmr.Text.Scan
import Rmr.Route.Table
import Rmr.Route.Parse
import Rmr.Lib.RefCount
import Rmr.Proofs.Route.Heap
import Rmr.Proofs.Route.Sound
import Rmr.Proofs.Route.Edit
import Rmr.Proofs.Route.Record
import Rmr.Proofs.Route.Start
import Rmr.Proofs.Route.Counts
import Rmr.Proofs.Route.Active
import Rmr.Route.Gate
import Rmr.Proofs.Route.Gate
import Rmr.Proofs.Text.Split
import Rmr.Route.Session
import Rmr.Route.Select
import Rmr.Proofs.Route.Select
import Rmr.Proofs.Route.Groups
import Rmr.Proofs.Route.Fill
import Rmr.Proofs.Route.Told
import Rmr.Proofs.Route.Load
import Rmr.Proofs.Route.Robust
import Rmr.Route.Ack
import Rmr.Route.Texts
import Rmr.Proofs.Route.Texts
import Rmr.Proofs.Route.Ack
import Rmr.Transport.Sendt
import Rmr.Proofs.Transport.Aligned
import Rmr.Proofs.Transport.Completes
import Rmr.Transport.Session
import Rmr.Proofs.Transport.Session
import Rmr.Transport.Blocks
import Rmr.Proofs.Transport.Blocks
import Rmr.Transport.Link
import Rmr.Proofs.Transport.Link
import Rmr.Transport.Wait
import Rmr.Proofs.Transport.Wait
import Rmr.Receive.Chute
import Rmr.Proofs.Receive.Chute
import Rmr.Transport.Endpoint
import Rmr.Proofs.Transport.Endpoint
import Rmr.Proofs.Transport.Connect
import Rmr.Proofs.Transport.Lost
import Rmr.Message.Pool
import Rmr.Message.Fanout
import Rmr.Message.Returns
import Rmr.Proofs.Message.Returns
import Rmr.Proofs.Message.Twin
import Rmr.Proofs.Message.Fanout
import Rmr.Message.Retry
import Rmr.Proofs.Message.Retry
import Rmr.Message.Api
import Rmr.Message.Exchange
import Rmr.Proofs.Message.Capacity
import Rmr.Proofs.Message.Pool
import Rmr.Proofs.Message.Marks
import Rmr.Proofs.Message.Source
import Rmr.Proofs.Message.NoAlloc
import Rmr.Proofs.Message.Stamp
import Rmr.Proofs.Message.Routing
import Rmr.Proofs.Message.Exchange
import Rmr.Proofs.Message.Kin
import Rmr.Proofs.Message.Clone
import Rmr.Proofs.Message.Payload
import Rmr.Message.Again
import Rmr.Message.Forward
import Rmr.Proofs.Message.Blot
import Rmr.Proofs.Message.Forward
import Rmr.Proofs.Message.Again
import Rmr.Message.Chute
import Rmr.Proofs.Message.Chute
import Rmr.Message.Counts
import Rmr.Proofs.Message.Counts
import Rmr.Proofs.Message.SetTrace
import Rmr.Proofs.Message.Fresh
import Rmr.Proofs.Message.Realloc
import Rmr.Lib.Threads
import Rmr.Ring.Ring
import Rmr.Proofs.Ring.Descriptor
import Rmr.Lib.Circular
import Rmr.Ring.Access
import Rmr.Proofs.Ring.Access
import Rmr.Receive.Queue
import Rmr.Proofs.Receive.Queue
import Rmr.Proofs.Receive.Complete
import Rmr.Receive.Ownership
import Rmr.Receive.Alarm
import Rmr.Transport.Wormhole
import Rmr.Proofs.Transport.Wormhole
import Rmr.Transport.Collector
import Rmr.Proofs.Transport.Collector
import Rmr.Proofs.Receive.Alarm
import Rmr.Proofs.Receive.Ownership
import Rmr.Proofs.Receive.Disconnect
import Rmr.Lib.Growing
import Rmr.Route.Things
import Rmr.Proofs.Route.Clone
import Rmr.Text.Tokens
import Rmr.Proofs.Text.Tokens
import Rmr.Lib.Bounded
import Rmr.Ring.Calls
import Rmr.Proofs.Ring.Calls
import Rmr.Route.Listed
import Rmr.Proofs.Route.Listed
import Rmr.Route.Whole
import Rmr.Proofs.Route.Whole
import Rmr.Lib.Traced
import Rmr.Transport.Indices
import Rmr.Proofs.Transport.Indices
import Rmr.Route.Reading
import Rmr.Proofs.Route.Spaces
import Rmr.Proofs.Route.Alike
import Rmr.Proofs.Route.AlikeEntry
import Rmr.Proofs.Route.AlikeBound
import Rmr.Proofs.Route.Comments
import Rmr.Route.Stash
import Rmr.Proofs.Route.Stash
import Rmr.Proofs.Route.Survive
import Rmr.Route.Rtc
import Rmr.Proofs.Route.Rtc
import Rmr.Transport.Post
import Rmr.Proofs.Transport.Post
import Rmr.Proofs.Message.Turns
import Rmr.Proofs.Route.Merge
import Rmr.Proofs.Transport.Mail
import Rmr.Route.Serial
import Rmr.Proofs.Route.Uncounted
import Rmr.Proofs.Route.Serial
