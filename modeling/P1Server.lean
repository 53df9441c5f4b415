import P1Server.Lib.Sys
import P1Server.Lib.OrdMap
import P1Server.Lib.Atomic
import P1Server.Lib.Echo
import P1Server.RecvBounds
import P1Server.RecvFrames
import P1Server.Segments
import P1Server.Conn
import P1Server.ConnRegistry
import P1Server.ConnEnds
import P1Server.ConnLeak
import P1Server.ConnLife
import P1Server.ConnRecv
import P1Server.Send
import P1Server.SendBuff
import P1Server.SendBytes
import P1Server.SendLine
import P1Server.SendPrivate
import P1Server.SendOrder
import P1Server.SendOwner
import P1Server.SendPass
import P1Server.SendDrain
import P1Server.Lib.Threads
import P1Server.RWAutoLock
import P1Server.SafeArray
import P1Server.SafeArraySpsc
import P1Server.ThreadPool
import P1Server.ThreadPoolLimits
import P1Server.ThreadPoolRemove
import P1Server.ThreadPoolService
import P1Server.TimerManager
import P1Server.TimerDelete
import P1Server.IocpThreadPool
import P1Server.IocpThreadPoolInv
import P1Server.IocpThreadPoolDrain
import P1Server.IoService
import P1Server.UdpServer
import P1Server.Lib.File
import P1Server.AsynLog
import P1Server.TraceLog
import P1Server.Lib.Fifo
import P1Server.Lib.Batch
import P1Server.SafeArrayFifo
import P1Server.TimerScan
import P1Server.TimerClock
import P1Server.TimerCount
import P1Server.TimerTurns
import P1Server.ThreadPoolGet
import P1Server.ConfigManager
import P1Server.LogNesting
import P1Server.IocpThreadPoolNull
import P1Server.ThreadPoolFair
import P1Server.ConnAdd
import P1Server.HeartCheck
import P1Server.HttpClient
import P1Server.P1Main
import P1Server.AsioEcho
import P1Server.SendEcho
import P1Server.ThreadPoolClose
import P1Server.RWAutoLockWriters
import P1Server.P1Service
import P1Server.P1ServiceStart
import P1Server.P1ServiceCalls
import P1Server.Lib.Stream
import P1Server.BoostHttpClient
import P1Server.TimerRemove
import P1Server.UdpServerLoss
import P1Server.AsynLogRecords
import P1Server.SafeArrayAtomic
