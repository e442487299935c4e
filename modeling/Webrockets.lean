import Webrockets.Library.Transition
import Webrockets.Library.IndexMap
import Webrockets.Library.Mpsc
import Webrockets.Message
import Webrockets.ChannelStore
import Webrockets.Registry
import Webrockets.Library.Outbox
import Webrockets.Library.Ledger
import Webrockets.Connection
import Webrockets.Server
import Webrockets.Broadcast
import Webrockets.Delivery
import Webrockets.Order
import Webrockets.Json
import Webrockets.Library.FirstMatch
import Webrockets.Route
import Webrockets.Dispatch
import Webrockets.Priority
import Webrockets.Library.AbortableTask
import Webrockets.Session
import Webrockets.Authentication
import Webrockets.Handshake
import Webrockets.Deferral
import Webrockets.History
import Webrockets.Schema
import Webrockets.Lifecycle
import Webrockets.CallbackTrace
import Webrockets.Rejection
import Webrockets.Departure
import Webrockets.Backlog
import Webrockets.Library.JsonText
import Webrockets.Broker
import Webrockets.Library.Watch
import Webrockets.Restart
import Webrockets.Publisher
import Webrockets.Library.EventLoop
import Webrockets.Listen
import Webrockets.Client
import Webrockets.Shutdown
import Webrockets.ControlFrames
import Webrockets.HeaderValue
import Webrockets.Subprotocol
import Webrockets.Request
import Webrockets.Cookies
import Webrockets.Library.PairSet
import Webrockets.Membership
import Webrockets.Library.JsonTree
import Webrockets.Library.JsonNumber
import Webrockets.KeyRemoval
import Webrockets.Registration
import Webrockets.StoredSchema
import Webrockets.CloseInfo
import Webrockets.Emission
import Webrockets.Residue
import Webrockets.RouteTable
import Webrockets.Library.Fallible
import Webrockets.BrokerConfig
import Webrockets.WsConnect
import Webrockets.ConnectTimeout
import Webrockets.Library.Drain
import Webrockets.Progress
import Webrockets.Downstream
import Webrockets.ClientTasks
import Webrockets.Upstream
import Webrockets.Broadcaster
import Webrockets.Poison
import Webrockets.Fleet
import Webrockets.Coverage
import Webrockets.Deployment
import Webrockets.Cluster
import Webrockets.Standby
import Webrockets.DjangoAuth
import Webrockets.Login
