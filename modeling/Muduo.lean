import Muduo.Base
import Muduo.Buffer.Buffer
import Muduo.Buffer.Checked
import Muduo.Buffer.Ints
import Muduo.Buffer.Piece
import Muduo.Buffer.ReadFd
import Muduo.Buffer.Refine
import Muduo.Buffer.Shrink
import Muduo.Buffer.Spec
import Muduo.Client.Attempts
import Muduo.Client.Backoff
import Muduo.Client.Connector
import Muduo.Client.Descriptors
import Muduo.Client.Destroyed
import Muduo.Client.Destruction
import Muduo.Client.Ownership
import Muduo.Client.Pace
import Muduo.Client.Schedule
import Muduo.Client.Slot
import Muduo.Client.Stop
import Muduo.Client.TcpClient
import Muduo.Echo.Client
import Muduo.Echo.Descriptors
import Muduo.Echo.EpollServer
import Muduo.Echo.PollServer
import Muduo.EventLoop.Dispatch
import Muduo.EventLoop.EventLoop
import Muduo.EventLoop.EventLoopThread
import Muduo.EventLoop.Functors
import Muduo.EventLoop.Lifetime
import Muduo.EventLoop.Masks
import Muduo.EventLoop.Passes
import Muduo.EventLoop.Poller
import Muduo.EventLoop.Polls
import Muduo.EventLoop.Reactor
import Muduo.EventLoop.Removal
import Muduo.EventLoop.Wakeup
import Muduo.Http.AfterClose
import Muduo.Http.Demo
import Muduo.Http.Fragment
import Muduo.Http.Grammar
import Muduo.Http.Headers
import Muduo.Http.Isolation
import Muduo.Http.LineParser
import Muduo.Http.Parse
import Muduo.Http.Pipeline
import Muduo.Http.Reentry
import Muduo.Http.Request
import Muduo.Http.RequestLine
import Muduo.Http.RequestText
import Muduo.Http.Reset
import Muduo.Http.Response
import Muduo.Http.ResponseReader
import Muduo.Http.ResponseStream
import Muduo.Http.RoundTrip
import Muduo.Http.Server
import Muduo.Http.Session
import Muduo.Http.Termination
import Muduo.Http.Wired
import Muduo.Lib.Arrivals
import Muduo.Lib.Batch
import Muduo.Lib.BigEndian
import Muduo.Lib.Framing
import Muduo.Lib.LineMachine
import Muduo.Lib.Loop
import Muduo.Lib.Lts
import Muduo.Lib.OrdSet
import Muduo.Lib.Search
import Muduo.Lib.Splice
import Muduo.Lib.Threads
import Muduo.Lib.Trace
import Muduo.Link.Link
import Muduo.Link.Outliving
import Muduo.Link.Overtaking
import Muduo.Link.Stranding
import Muduo.Net.Echo
import Muduo.Net.EchoReturns
import Muduo.Net.Lifecycle
import Muduo.Net.Send
import Muduo.Net.TcpConnection
import Muduo.Server.Acceptor
import Muduo.Server.Account
import Muduo.Server.Bookkeeping
import Muduo.Server.Books
import Muduo.Server.Destructor
import Muduo.Server.Effect
import Muduo.Server.EventLoopThreadPool
import Muduo.Server.Names
import Muduo.Server.Order
import Muduo.Server.Placed
import Muduo.Server.Reports
import Muduo.Server.Stage
import Muduo.Server.Start
import Muduo.Server.Steps
import Muduo.Server.TcpServer
import Muduo.Threads.BlockingQueue
import Muduo.Threads.BoundedBlockingQueue
import Muduo.Threads.Callers
import Muduo.Threads.Completion
import Muduo.Threads.CountDownLatch
import Muduo.Threads.CurrentThread
import Muduo.Threads.MutexLock
import Muduo.Threads.PoolRest
import Muduo.Threads.PoolWork
import Muduo.Threads.QueueCalls
import Muduo.Threads.QueueFinish
import Muduo.Threads.QueueOrder
import Muduo.Threads.QueueRun
import Muduo.Threads.Release
import Muduo.Threads.Signals
import Muduo.Threads.Singleton
import Muduo.Threads.SingletonLife
import Muduo.Threads.SingletonRun
import Muduo.Threads.ThreadPool
import Muduo.Threads.Wakeups
import Muduo.Timer.Firing
import Muduo.Timer.Follows
import Muduo.Timer.Placed
import Muduo.Timer.Rearm
import Muduo.Timer.Schedule
import Muduo.Timer.TimerQueue
import Muduo.Timestamp
