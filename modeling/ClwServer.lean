import ClwServer.Core.Cpp
import ClwServer.Core.Posix
import ClwServer.Core.Calendar
import ClwServer.Core.Chronology
import ClwServer.Core.Extent
import ClwServer.Core.IntType
import ClwServer.Core.Decimal
import ClwServer.Core.Eventfd
import ClwServer.Core.System
import ClwServer.Core.Product
import ClwServer.Core.Sections
import ClwServer.Core.Handshake
import ClwServer.Core.Monitor
import ClwServer.Core.Monitor.Progress
import ClwServer.Core.RoundRobin
import ClwServer.Core.InputLoop
import ClwServer.Core.Ledger
import ClwServer.Core.Reader
import ClwServer.Base.FixedBuffer
import ClwServer.Base.Thread
import ClwServer.Base.CountDownLatch
import ClwServer.Base.LogStream.Convert
import ClwServer.Base.LogStream.Basic
import ClwServer.Base.LogStream.Content
import ClwServer.Base.LogStream.Overrun
import ClwServer.Base.LogStream.Decimal
import ClwServer.Base.LogStream.Truncation
import ClwServer.Base.Logging
import ClwServer.Base.Logging.Records
import ClwServer.Base.LogFile.Basic
import ClwServer.Base.LogFile.Step
import ClwServer.Base.LogFile.Roll
import ClwServer.Base.LogFile.Segments
import ClwServer.Base.LogFile.Names
import ClwServer.Base.LogFile.Age
import ClwServer.Base.LogFile.Fopen
import ClwServer.Base.LogFile.Append
import ClwServer.Base.AsyncLogging.Basic
import ClwServer.Base.AsyncLogging.Invariant
import ClwServer.Base.AsyncLogging.Statements
import ClwServer.Base.AsyncLogging.Conservation
import ClwServer.Base.AsyncLogging.Shutdown
import ClwServer.Base.AsyncLogging.Join
import ClwServer.Base.AsyncLogging.Rotation
import ClwServer.Base.AsyncLogging.Listing
import ClwServer.Base.AsyncLogging.Start
import ClwServer.Net.Epoll.Basic
import ClwServer.Net.Epoll.Capacity
import ClwServer.Net.Epoll.Reads
import ClwServer.Net.Epoll.ChannelMap
import ClwServer.Net.Epoll.Registered
import ClwServer.Net.EventLoop.Basic
import ClwServer.Net.EventLoop.Wakeup
import ClwServer.Net.EventLoop.Quit
import ClwServer.Net.EventLoop.Order
import ClwServer.Net.EventLoop.LastBatch
import ClwServer.Net.EventLoop.Watch
import ClwServer.Net.EventLoopThread
import ClwServer.Net.EventLoopThread.Start
import ClwServer.Net.EventLoopThread.Destroy
import ClwServer.Net.EventLoopThreadPool
import ClwServer.Net.Channel
import ClwServer.Net.Acceptor
import ClwServer.Net.Acceptor.Blocking
import ClwServer.Net.TcpConnection.Basic
import ClwServer.Net.TcpConnection.Lifetime
import ClwServer.Net.TcpConnection.Read
import ClwServer.Net.TcpConnection.OnLoop
import ClwServer.Net.TcpConnection.Removal
import ClwServer.Net.TcpConnection.Stream
import ClwServer.Net.TcpServer.Basic
import ClwServer.Net.TcpServer.Invariant
import ClwServer.Net.TcpServer.ConnectionMap
import ClwServer.Net.TcpServer.NewConnection
import ClwServer.Net.TcpServer.Confinement
import ClwServer.Net.TcpServer.Life
import ClwServer.Net.TcpServer.Resources
import ClwServer.Net.TcpServer.Rounds
import ClwServer.Net.TcpServer.OnLoops.Basic
import ClwServer.Net.TcpServer.OnLoops.Shifts
import ClwServer.Net.TcpServer.OnLoops.Refinement
import ClwServer.Net.TcpServer.OnLoops.Asleep
import ClwServer.Http.HttpServer
import ClwServer.Server
import ClwServer.Client
import ClwServer.Echo
