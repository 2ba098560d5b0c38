import TalonRPC.Bytes.NetworkOrder
import TalonRPC.Bytes.Slice
import TalonRPC.Bytes.Lines
import TalonRPC.Bytes.Framing
import TalonRPC.Bytes.Fields
import TalonRPC.Machine.Loop
import TalonRPC.Machine.Dialogue
import TalonRPC.Machine.Run
import TalonRPC.Machine.Traced
import TalonRPC.Machine.Attached
import TalonRPC.Machine.Fifo
import TalonRPC.Tcp.Buffer
import TalonRPC.Tcp.Fifo
import TalonRPC.TinyPB.Protocol
import TalonRPC.TinyPB.Unique
import TalonRPC.TinyPB.Decode
import TalonRPC.TinyPB.Scan
import TalonRPC.TinyPB.Parse
import TalonRPC.TinyPB.Iteration
import TalonRPC.TinyPB.Layout
import TalonRPC.TinyPB.RoundTrip
import TalonRPC.TinyPB.Segmentation
import TalonRPC.TinyPB.Cuts
import TalonRPC.Tcp.Link
import TalonRPC.Rpc.Session
import TalonRPC.Rpc.Exchange
import TalonRPC.TinyPB.Termination
import TalonRPC.TinyPB.Bounds
import TalonRPC.TinyPB.Consumption
import TalonRPC.TinyPB.Image
import TalonRPC.Tcp.Connection
import TalonRPC.Tcp.Read
import TalonRPC.Tcp.Write
import TalonRPC.Tcp.Sends
import TalonRPC.Tcp.Returns
import TalonRPC.Tcp.Responses
import TalonRPC.Tcp.Server
import TalonRPC.Tcp.Lifecycle
import TalonRPC.Tcp.NetAddr
import TalonRPC.Tcp.Decimal
import TalonRPC.Tcp.Addresses
import TalonRPC.Rpc.MsgId
import TalonRPC.Rpc.Controller
import TalonRPC.Rpc.Channel
import TalonRPC.Rpc.Completion
import TalonRPC.Rpc.Outcome
import TalonRPC.Rpc.Dispatcher
import TalonRPC.Rpc.Replies
import TalonRPC.Rpc.Registry
import TalonRPC.Rpc.Failure
import TalonRPC.Rpc.Call
import TalonRPC.Rpc.Interface
import TalonRPC.Rpc.Tracing
import TalonRPC.Common.Mutex
import TalonRPC.Common.Log
import TalonRPC.Common.Coredump
import TalonRPC.Common.ConfigReader
import TalonRPC.Common.HighAvailability
import TalonRPC.Net.Epoll
import TalonRPC.Net.Eventloop
import TalonRPC.Net.TaskOrder
import TalonRPC.Net.Waking
import TalonRPC.Net.FdEvent
import TalonRPC.Net.Growth
import TalonRPC.Net.Isolation
import TalonRPC.Tcp.Accept
import TalonRPC.Tcp.Startup
import TalonRPC.Net.Dispatch
import TalonRPC.Net.Runtime
import TalonRPC.Net.Tasks
import TalonRPC.Net.Lifetimes
import TalonRPC.Discovery.Directory
import TalonRPC.Discovery.ServiceCenter
import TalonRPC.Discovery.Lookup
import TalonRPC.Discovery.Commands
import TalonRPC.Discovery.Messages
import TalonRPC.Discovery.Center
import TalonRPC.Discovery.Client
import TalonRPC.Timer.Multimap
import TalonRPC.Timer.Timer
import TalonRPC.Timer.Firing
import TalonRPC.Timer.Wakeup
import TalonRPC.Timer.Deletion
