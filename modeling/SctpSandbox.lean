import SctpSandbox.Lib.Run
import SctpSandbox.FileDescriptor
import SctpSandbox.MessageBuffer
import SctpSandbox.Inet
import SctpSandbox.IPSocket
import SctpSandbox.Lib.TaskScheduler
import SctpSandbox.Udp.SocketUdp
import SctpSandbox.Udp.Frame
import SctpSandbox.Udp.Liveness
import SctpSandbox.Udp.Shutdown
import SctpSandbox.Udp.KeepAlive
import SctpSandbox.Lib.Mutex
import SctpSandbox.Tcp.SocketTcp
import SctpSandbox.Sctp.SocketSctp
import SctpSandbox.PeersMutex
import SctpSandbox.Lib.Threads
import SctpSandbox.Chat.Tasks
import SctpSandbox.Udp.Membership
import SctpSandbox.Tcp.Round
import SctpSandbox.Tcp.Table
import SctpSandbox.Tcp.Interleaving
import SctpSandbox.Sctp.Table
import SctpSandbox.Sctp.Interleaving
import SctpSandbox.Chat.Quit
import SctpSandbox.Chat.Lines
import SctpSandbox.Lib.Records
import SctpSandbox.Sctp.Sockaddrs
import SctpSandbox.Udp.ReplyAddress
import SctpSandbox.Lib.Numeral
import SctpSandbox.NetworkConfiguration
import SctpSandbox.Arguments
import SctpSandbox.Startup
import SctpSandbox.Numbers
import SctpSandbox.ArgumentAccesses
import SctpSandbox.Broadcast
import SctpSandbox.Unix.Peers
import SctpSandbox.Destructors
import SctpSandbox.FDSet
import SctpSandbox.TransientErrors
import SctpSandbox.Tcp.ReceiveErrors
import SctpSandbox.Tcp.Stream
import SctpSandbox.Tcp.ByteCounts
import SctpSandbox.Lib.Pending
import SctpSandbox.Tcp.Reconnects
import SctpSandbox.Tcp.ReconnectBound
import SctpSandbox.Tcp.Remembered
import SctpSandbox.Sctp.Reconnects
import SctpSandbox.Lib.Quiescence
import SctpSandbox.Udp.Network
import SctpSandbox.Udp.Idempotence
import SctpSandbox.Forked.SocketUnixForked
import SctpSandbox.Forked.Effects
import SctpSandbox.Lib.Rounds
import SctpSandbox.Forked.SharedMemory
import SctpSandbox.Forked.MessageQueue
import SctpSandbox.Forked.Role
import SctpSandbox.Lib.Framing
import SctpSandbox.Forked.Pipes
import SctpSandbox.Lib.NamedObjects
import SctpSandbox.Forked.Construction
import SctpSandbox.Chat.Stdin
import SctpSandbox.RegisteredFds
import SctpSandbox.Udp.Independence
import SctpSandbox.SocketArguments
import SctpSandbox.Tcp.ConnectSockets
import SctpSandbox.Udp.Detection
import SctpSandbox.Udp.History
import SctpSandbox.Udp.Pair
import SctpSandbox.FdAccount
import SctpSandbox.Lib.LeadsTo
import SctpSandbox.Chat.Ending
import SctpSandbox.Forked.Delivery
import SctpSandbox.Udp.Mutual
import SctpSandbox.NetworkTask
import SctpSandbox.Lib.SignalledCell
import SctpSandbox.Forked.Permits
import SctpSandbox.CommandLine
import SctpSandbox.Unix.Network
import SctpSandbox.Tcp.DccpAccount
import SctpSandbox.Sctp.Binding
