import Hord.Lib.Run
import Hord.Lib.Region
import Hord.Lib.BigEndian
import Hord.Lib.Wp
import Hord.Wire
import Hord.Device
import Hord.Config
import Hord.Stream
import Hord.Setup
import Hord.OneSided
import Hord.Local
import Hord.Paths
import Hord.Gather
import Hord.Bringup
import Hord.Negotiation
import Hord.Writes
import Hord.Books
import Hord.Endpoint
import Hord.Party
import Hord.Frames
import Hord.Conservation
import Hord.Lib.CreditLink
import Hord.Traffic
import Hord.Duo
import Hord.Exchange
import Hord.Delivery
import Hord.Integrity
import Hord.Credits
import Hord.EarlyData
import Hord.Eof
import Hord.Held
import Hord.SendQueue
import Hord.Lib.Backlog
import Hord.Backpressure
import Hord.Transfers
import Hord.Lib.Readiness
import Hord.Reactor
import Hord.Accepting
import Hord.Listener
import Hord.Split
import Hord.Blocking
import Hord.AfterErrors
import Hord.Drive
import Hord.Drained
import Hord.Acceptor
import Hord.Accounts
import Hord.SourcePool
import Hord.Stall
import Hord.Header
import Hord.Lib.Segments
import Hord.Segmentation
import Hord.Batches
import Hord.MidWrite
import Hord.Lib.Tickets
import Hord.Barrier
import Hord.Ranges
import Hord.Http
import Hord.Servers
import Hord.Gathers
import Hord.Lib.Cutting
import Hord.Packing
import Hord.Addresses
import Hord.Pooled
import Hord.Counters
import Hord.Head
import Hord.Pattern
import Hord.Client
import Hord.Lib.Typestate
import Hord.Cm
import Hord.Lifecycle
import Hord.Connections
import Hord.Establish
