import Hayai.Machine.Run
import Hayai.Utils.BufferQueue
import Hayai.Net.Poller
import Hayai.Net.Dispatch
import Hayai.Net.Endpoint
import Hayai.Net.Output
import Hayai.Net.Closed
import Hayai.Net.Notifications
import Hayai.Net.Shutdown
import Hayai.Utils.BufferRead
import Hayai.Net.Input
import Hayai.Net.EchoServer
import Hayai.Net.LoopThread
import Hayai.Net.Wakeup
import Hayai.Machine.Execution
import Hayai.Net.FunctorQueue
import Hayai.Net.Confinement
import Hayai.Net.Registry
import Hayai.Net.ServerLifecycle
import Hayai.Net.ServerStop
import Hayai.Net.ServerDestroy
import Hayai.Coro.AsyncConnection
import Hayai.Coro.Binding
import Hayai.Net.Interest
import Hayai.Net.ServerAcceptor
import Hayai.Net.ServerMembers
import Hayai.Net.PolledServer
import Hayai.Net.ServerControl
import Hayai.Coro.AsyncEndpoint
import Hayai.Coro.AwaitedSend
import Hayai.Coro.AwaitedRecv
import Hayai.Net.ServerKernel
import Hayai.Net.ServerTasks
import Hayai.Net.ActiveChannels
import Hayai.Net.DeadChannels
import Hayai.Machine.Handoff
import Hayai.Machine.Refinement
import Hayai.Coro.AsyncServer
import Hayai.Coro.Receivers
import Hayai.Coro.Waiters
import Hayai.Coro.HeldEndpoint
import Hayai.Coro.HeldRecv
import Hayai.Coro.Handover
import Hayai.Coro.Spawn
import Hayai.Machine.Calls
import Hayai.Coro.Task
import Hayai.Utils.BufferCapacity
import Hayai.Coro.SpawnShutdown
import Hayai.Coro.TaskGet
import Hayai.Net.RoundRobin
import Hayai.Coro.TaskHeap
import Hayai.Coro.TaskOwnership
import Hayai.Net.Accepting
import Hayai.Net.LateFunctors
import Hayai.Machine.Progress
import Hayai.Net.FunctorProgress
import Hayai.Net.ServerProgress
import Hayai.Net.ServerRemoval
import Hayai.Net.StopProgress
import Hayai.Net.ServerStreams
import Hayai.Net.ServerDelivery
import Hayai.Net.ThreadPool
import Hayai.Net.ThreadPoolProgress
import Hayai.Net.ThreadPoolClosing
import Hayai.Coro.ClientHandler
import Hayai.Utils.DottedQuad
import Hayai.Net.InetAddress
import Hayai.Net.Socket
import Hayai.Utils.BufferSearch

