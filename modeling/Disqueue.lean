import Disqueue.Framework.CStr
import Disqueue.Framework.SplitFirst
import Disqueue.Framework.Line
import Disqueue.Framework.Rendezvous
import Disqueue.Framework.Run
import Disqueue.Framework.Machine
import Disqueue.Framework.Percent
import Disqueue.Framework.TailQueue
import Disqueue.Framework.Options
import Disqueue.Framework.Accounts
import Disqueue.Framework.Holders
import Disqueue.Framework.Text
import Disqueue.Framework.Base64
import Disqueue.Framework.Scan
import Disqueue.Framework.Loop
import Disqueue.Framework.Counted
import Disqueue.Framework.Strtok
import Disqueue.Framework.Desk
import Disqueue.Framework.Grouped
import Disqueue.Framework.Cut
import Disqueue.Model.Call
import Disqueue.Model.Queue
import Disqueue.Model.QueueClient
import Disqueue.Model.QueueHolders
import Disqueue.Model.Protocol
import Disqueue.Model.Uuid
import Disqueue.Model.Manager
import Disqueue.Model.Net
import Disqueue.Model.Ws
import Disqueue.Model.WsConnection
import Disqueue.Model.ConnectionWs
import Disqueue.Model.ConnectionHttp
import Disqueue.Model.Server
import Disqueue.Model.AuthPlaintext
import Disqueue.Model.AuthScanned
import Disqueue.Model.Config
import Disqueue.Model.Start
import Disqueue.Model.Ssl
import Disqueue.Model.Program
import Disqueue.Model.Python
import Disqueue.Model.Shutdown
import Disqueue.Model.Upgrade
import Disqueue.Model.Refs
import Disqueue.Model.HeaderContains
import Disqueue.Model.TypeScript
import Disqueue.Model.Url
import Disqueue.Model.ClientCalls
import Disqueue.Model.Wire
import Disqueue.Model.Form
import Disqueue.Model.QueueMemory
import Disqueue.Model.Main
import Disqueue.Model.Network
import Disqueue.Spec.Queue
import Disqueue.Spec.Holders
import Disqueue.Spec.Handing
import Disqueue.Spec.Conditions
import Disqueue.Spec.Deliveries
import Disqueue.Spec.WsEnd
import Disqueue.Spec.Names
import Disqueue.Spec.Scanned
import Disqueue.Spec.Registry
import Disqueue.Spec.Replies
import Disqueue.Spec.Paired
import Disqueue.Spec.Passwords
import Disqueue.Spec.Lines
import Disqueue.Spec.Credentials
import Disqueue.Spec.Malformed
import Disqueue.Spec.Scans
import Disqueue.Spec.Guards
import Disqueue.Spec.Ssl
import Disqueue.Spec.Configured
import Disqueue.Spec.Isolated
import Disqueue.Spec.Authorised
import Disqueue.Spec.Once
import Disqueue.Spec.Shutdown
import Disqueue.Spec.Upgrade
import Disqueue.Spec.References
import Disqueue.Spec.Subscribed
import Disqueue.Spec.Address
import Disqueue.Spec.SameClients
import Disqueue.Spec.Service
import Disqueue.Spec.Session
import Disqueue.Spec.TextQueue
import Disqueue.Spec.QueueMemory
import Disqueue.Spec.CommandLine
import Disqueue.Spec.Taker
import Disqueue.Spec.Network
import Disqueue.Proof.Queue.Cases
import Disqueue.Proof.Queue.Counters
import Disqueue.Proof.Queue.Refine
import Disqueue.Proof.Queue.Order
import Disqueue.Proof.Queue.Verified
import Disqueue.Proof.Server.Heap
import Disqueue.Proof.Queue.Holders
import Disqueue.Proof.Server.Acts
import Disqueue.Proof.Server.Inv
import Disqueue.Proof.Server.Net
import Disqueue.Proof.Server.Found
import Disqueue.Proof.Server.Hand
import Disqueue.Proof.Server.Emits
import Disqueue.Proof.Server.Handlers
import Disqueue.Proof.Server.Http
import Disqueue.Proof.Server.Replies
import Disqueue.Proof.Server.Steps
import Disqueue.Proof.Server.Released
import Disqueue.Proof.Server.Pending
import Disqueue.Proof.Server.Delivery
import Disqueue.Proof.Server.Places
import Disqueue.Proof.Uuid.Memory
import Disqueue.Proof.Uuid.Text
import Disqueue.Proof.Uuid.Named
import Disqueue.Proof.Uuid.Roundtrip
import Disqueue.Proof.Uuid.Accepted
import Disqueue.Proof.Registry.Keys
import Disqueue.Proof.Registry.Verified
import Disqueue.Proof.Registry.Names
import Disqueue.Proof.Registry.Rejected
import Disqueue.Proof.Ws.Ended
import Disqueue.Proof.Wants.Shift
import Disqueue.Proof.Wants.Told
import Disqueue.Proof.Wants.Paired
import Disqueue.Proof.Server.Arrivals
import Disqueue.Proof.Server.Delivered
import Disqueue.Proof.Server.Failed
import Disqueue.Proof.Server.Once
import Disqueue.Proof.Auth.ReadLine
import Disqueue.Proof.Auth.Reload
import Disqueue.Proof.Auth.Credentials
import Disqueue.Proof.Auth.Malformed
import Disqueue.Proof.Auth.Switched
import Disqueue.Proof.Auth.Scans
import Disqueue.Proof.Auth.Asked
import Disqueue.Proof.Auth.Authorised
import Disqueue.Proof.Auth.Once
import Disqueue.Proof.Config.Loaded
import Disqueue.Proof.Config.Guarded
import Disqueue.Proof.Config.Pairs
import Disqueue.Proof.Config.Exact
import Disqueue.Proof.Python.Isolated
import Disqueue.Proof.Shutdown.Drained
import Disqueue.Proof.Auth.Upgrade
import Disqueue.Proof.Refs.Balanced
import Disqueue.Proof.Refs.Replied
import Disqueue.Proof.Auth.Lists
import Disqueue.Proof.Python.Subscribed
import Disqueue.Proof.TypeScript.Subscribed
import Disqueue.Proof.Clients.Subscribed
import Disqueue.Proof.Clients.Address
import Disqueue.Proof.Clients.Calls
import Disqueue.Proof.Clients.Same
import Disqueue.Proof.Service.View
import Disqueue.Proof.Service.Rooms
import Disqueue.Proof.Service.Clients
import Disqueue.Proof.Service.Http
import Disqueue.Proof.Service.Wants
import Disqueue.Proof.Service.Refines
import Disqueue.Proof.Service.Frame
import Disqueue.Proof.Clients.Form
import Disqueue.Proof.Clients.Layer
import Disqueue.Proof.Clients.Session
import Disqueue.Proof.Clients.TextQueue
import Disqueue.Proof.Queue.Memory
import Disqueue.Proof.Queue.MemoryOps
import Disqueue.Proof.Queue.MemoryRefines
import Disqueue.Proof.Start.CommandLine
import Disqueue.Proof.Network.Client
import Disqueue.Proof.Network.Connected
import Disqueue.Proof.Network.Below
import Disqueue.Proof.Network.Carried
import Disqueue.Proof.Network.Once
import Disqueue.Proof.Network.Answers
