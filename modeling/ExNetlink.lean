import ExNetlink.BufferIndexRuns
import ExNetlink.BufferGrowth
import ExNetlink.BufferFrame
import ExNetlink.PeekShifts
import ExNetlink.PollRegistry
import ExNetlink.Registration
import ExNetlink.RttDraining
import ExNetlink.RttOutbound
import ExNetlink.RttClient
import ExNetlink.ConnectAsync
import ExNetlink.PoolDraining
import ExNetlink.PoolWakeups
import ExNetlink.PoolDestruction
import ExNetlink.ProcessPool
import ExNetlink.LoopQueues
import ExNetlink.LoopTimers
import ExNetlink.TimerRuns
import ExNetlink.LoopBatches
import ExNetlink.LoopPhases
import ExNetlink.LoopReentry
import ExNetlink.LoopQuit
import ExNetlink.PollDispatch
import ExNetlink.PollReady
import ExNetlink.EchoServer
import ExNetlink.FdPassing
import ExNetlink.RttTable
import ExNetlink.ReadyFlag
import ExNetlink.CountLatch
import ExNetlink.BarString
import ExNetlink.ZeroEvenOdd
import ExNetlink.InventoryReentry
import ExNetlink.InventoryEntries
import ExNetlink.TypedQueue
import ExNetlink.BufferMoves
import ExNetlink.BarLives
import ExNetlink.RttExchange
import ExNetlink.RttIsolation
import ExNetlink.LoopThread
import ExNetlink.EchoClient
import ExNetlink.TimeClient
import ExNetlink.FdServing
import ExNetlink.Netlink
import ExNetlink.Inotify
