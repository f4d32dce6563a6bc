import Tun2Http.Machine.Execution
import Tun2Http.Machine.Memory
import Tun2Http.Machine.SerialNumber
import Tun2Http.Machine.Stream
import Tun2Http.Machine.Table
import Tun2Http.Machine.Wire
import Tun2Http.Tls.Grammar
import Tun2Http.Tls.ServerName
import Tun2Http.Native.Basic
import Tun2Http.Native.Util
import Tun2Http.Native.Tls
import Tun2Http.Native.Http
import Tun2Http.Native.TcpWrite
import Tun2Http.Native.TcpQueue
import Tun2Http.Native.TcpSocket
import Tun2Http.Native.TcpSession
import Tun2Http.Native.TcpRun
import Tun2Http.Native.TcpRules
import Tun2Http.Native.TcpMoves
import Tun2Http.Native.Ip
import Tun2Http.Tcp.Lifecycle
import Tun2Http.Tcp.Monitor
import Tun2Http.Tcp.Retransmission
import Tun2Http.Tcp.Once
import Tun2Http.Tcp.Counting
import Tun2Http.Tcp.Acknowledgement
import Tun2Http.Tcp.Reassembly
import Tun2Http.Tcp.QueueOrder
import Tun2Http.Tcp.Tunnel
import Tun2Http.Ip.Extension
import Tun2Http.Ip.Fragment
import Tun2Http.Ip.Bounds
import Tun2Http.Tcp.Frame
import Tun2Http.Tcp.ClientReset
import Tun2Http.Tcp.AckWindow
import Tun2Http.Tcp.Silence
import Tun2Http.Tcp.Upstream
import Tun2Http.Tcp.SynCount
import Tun2Http.Tcp.FinOrder
import Tun2Http.Native.TcpEpoll
import Tun2Http.Tcp.ConnectFirst
import Tun2Http.Tcp.Downstream
import Tun2Http.Native.Icmp
import Tun2Http.Native.Udp
import Tun2Http.Native.Session
import Tun2Http.Session.Handlers
import Tun2Http.Session.Loop
import Tun2Http.Session.Keys
import Tun2Http.Session.Limit
import Tun2Http.Http.Search
import Tun2Http.Http.RequestLine
import Tun2Http.Tls.ConnectRequest
import Tun2Http.Tls.Destination
import Tun2Http.Http.PartialSend
import Tun2Http.Session.Echo
import Tun2Http.Native.Packet
import Tun2Http.Packet.Checksum
import Tun2Http.Packet.RoundTrip
import Tun2Http.Tcp.Settings
import Tun2Http.Tcp.SegmentSize
import Tun2Http.Session.Datagram
import Tun2Http.Tcp.Comparison
import Tun2Http.Tcp.QueueBytes
import Tun2Http.Tcp.Options
import Tun2Http.Tcp.WindowScale
import Tun2Http.Tcp.Delivery
import Tun2Http.Tcp.ReceiveWindow
import Tun2Http.Session.UnknownFlow
import Tun2Http.Native.SetUp
import Tun2Http.Session.SetUp
import Tun2Http.Session.SocketError
import Tun2Http.Native.Signal
import Tun2Http.Session.StopRequest
import Tun2Http.App.HostPort
import Tun2Http.App.ProxySettings
import Tun2Http.Machine.Loop
import Tun2Http.Machine.Buffer
import Tun2Http.Native.Dns
import Tun2Http.Dns.Chain
import Tun2Http.Dns.Termination
import Tun2Http.Dns.Bounds
import Tun2Http.Dns.Names
import Tun2Http.Session.Dhcp
import Tun2Http.Tls.Bounds
import Tun2Http.Http.Bounds
import Tun2Http.Session.EchoChecksum
import Tun2Http.Packet.ZeroChecksum
import Tun2Http.App.ShownAgain
import Tun2Http.Machine.LinkedList
import Tun2Http.Session.Sweep
import Tun2Http.Packet.ChainedChecksum
import Tun2Http.Machine.Dyadic
import Tun2Http.App.IpUtil
import Tun2Http.App.CidrCover
import Tun2Http.Tcp.PartialHead
import Tun2Http.Machine.Parts
import Tun2Http.Session.Alone
import Tun2Http.Machine.Ownership
import Tun2Http.Machine.Pointers
import Tun2Http.Machine.Progress
import Tun2Http.Native.SessionHeap
import Tun2Http.Session.Flows
import Tun2Http.Session.Memory
import Tun2Http.Session.MemoryRun
import Tun2Http.Tcp.Draining
import Tun2Http.Session.Conversation
import Tun2Http.Tcp.Transitions
import Tun2Http.Http.Upload
import Tun2Http.Machine.Scan
import Tun2Http.Native.Uid
import Tun2Http.Ip.Uid
import Tun2Http.Session.EchoConversation
import Tun2Http.App.VpnService
import Tun2Http.App.TunLifetime
import Tun2Http.App.StopReturns
