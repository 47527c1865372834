import UvRpc.Transition
import UvRpc.Placement
import UvRpc.Incremental
import UvRpc.RoundRobin
import UvRpc.CharVector
import UvRpc.Vectors
import UvRpc.ByteList
import UvRpc.Growth
import UvRpc.DataPacket
import UvRpc.SimpleMsgDispatcher
import UvRpc.Framing
import UvRpc.ReceiveBounds
import UvRpc.Recovery
import UvRpc.ParseCalls
import UvRpc.HeaderPointer
import UvRpc.AllocFailure
import UvRpc.TcpConnection
import UvRpc.Sessions
import UvRpc.Decimal
import UvRpc.PongEncode
import UvRpc.PingEncode
import UvRpc.PingDispatcher
import UvRpc.BufferPool
import UvRpc.ReadPool
import UvRpc.WritePath
import UvRpc.RecycledBuffer
import UvRpc.WriteLifecycle
import UvRpc.RetryQueue
import UvRpc.WriteQueue
import UvRpc.WriteConservation
import UvRpc.WriteOrder
import UvRpc.Attribution
import UvRpc.Drain
import UvRpc.PeerKey
import UvRpc.ConnectionManager
import UvRpc.ConnectionLifetime
import UvRpc.HandleLifecycle
import UvRpc.LifecycleFlags
import UvRpc.Async
import UvRpc.EventLoop
import UvRpc.LoopConfinement
import UvRpc.LoopEntry
import UvRpc.UvTimer
import UvRpc.TimerFlag
import UvRpc.TimerClose
import UvRpc.LoopPool
import UvRpc.Ring
import UvRpc.Queue
import UvRpc.BufferQue
import UvRpc.PingPong
import UvRpc.Socket
import UvRpc.Wire
import UvRpc.EndToEnd
import UvRpc.Registry
import UvRpc.GlobalConfig
import UvRpc.WorkerPool
import UvRpc.SpinLock
import UvRpc.Broker
import UvRpc.BrokerStop
import UvRpc.BrokerSend
import UvRpc.NodeWrites
import UvRpc.EventLoopStop
