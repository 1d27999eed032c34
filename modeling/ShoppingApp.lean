import ShoppingApp.Lib.Causal
import ShoppingApp.Lib.Replication
import ShoppingApp.Verify.Codec
import ShoppingApp.Verify.Shown
import ShoppingApp.System.Replicas
import ShoppingApp.System.Representation
import ShoppingApp.System.Accounts
import ShoppingApp.System.Quantities
import ShoppingApp.System.Removals
import ShoppingApp.System.Decoding
import ShoppingApp.System.Counters
import ShoppingApp.Verify.RequestHandler
import ShoppingApp.Verify.UpdateList
import ShoppingApp.Verify.LocalStore
import ShoppingApp.Verify.ConsistentHashing
import ShoppingApp.Verify.MajWorker
import ShoppingApp.Verify.MajClient
import ShoppingApp.Lib.Mailbox
import ShoppingApp.Lib.Ledger
import ShoppingApp.Broker.MajBroker
import ShoppingApp.Lib.Outcome
import ShoppingApp.Broker.BrokerState
import ShoppingApp.Verify.BrokerState
import ShoppingApp.Verify.BrokerEvents
import ShoppingApp.System.BrokerWorkers
import ShoppingApp.System.BrokerQueues
import ShoppingApp.System.BrokerReplies
import ShoppingApp.System.BrokerFates
import ShoppingApp.System.BrokerTimes
import ShoppingApp.System.BrokerDispatch
import ShoppingApp.Broker.MainLoop
import ShoppingApp.System.MainLoop
import ShoppingApp.Client.CloudMode
import ShoppingApp.Verify.CloudMode
import ShoppingApp.System.CloudMode
import ShoppingApp.Zmq.Wire
import ShoppingApp.Verify.Wire
import ShoppingApp.System.Framing
import ShoppingApp.System.Requests
import ShoppingApp.Verify.Ring
import ShoppingApp.System.Membership
import ShoppingApp.System.Sockets
import ShoppingApp.System.World
import ShoppingApp.System.Identity
import ShoppingApp.System.Provenance
import ShoppingApp.System.Delivery
import ShoppingApp.Lib.Circle
import ShoppingApp.Verify.DotKernel
import ShoppingApp.Verify.Clockwise
import ShoppingApp.System.Placement
import ShoppingApp.Worker.RingFrames
import ShoppingApp.Verify.RingFrames
import ShoppingApp.Worker.Liveness
import ShoppingApp.Verify.Liveness
import ShoppingApp.DatabaseFiles
import ShoppingApp.Verify.DatabaseFiles
import ShoppingApp.System.ReservedNames
import ShoppingApp.Lib.Cin
import ShoppingApp.Client.Console
import ShoppingApp.Verify.Console
import ShoppingApp.System.Consoles
import ShoppingApp.Worker.Recv
import ShoppingApp.Verify.Recv
import ShoppingApp.System.BrokerDisconnects
import ShoppingApp.Lib.Lease
import ShoppingApp.System.Workforce
