import Muduo.AsyncLogging.Stop
import Muduo.Balancer
import Muduo.Buffer.Deque
import Muduo.Connector.Sockets
import Muduo.Demux.Reuse
import Muduo.EventLoop
import Muduo.FakeTcp
import Muduo.FastCgi.Records
import Muduo.Fibonacci
import Muduo.Float
import Muduo.HttpContext.Headers
import Muduo.HttpServer.Hostile
import Muduo.HttpServer.Service
import Muduo.IdleConnection.Wheel
import Muduo.LogStream.Pieces
import Muduo.Memcached.Session.Replies
import Muduo.Memcached.Session.Segments
import Muduo.Messages
import Muduo.Partitions
import Muduo.Poller.Agree
import Muduo.Poller.NoAssert
import Muduo.ProtobufCodecLite.Exact
import Muduo.RawMessage.Rewrite
import Muduo.RpcChannel.Pair
import Muduo.SortedList
import Muduo.SudokuServer.Segments
import Muduo.SudokuStat.Window
import Muduo.TcpConnection.BackPressure
import Muduo.TcpServer.Connection
import Muduo.TcpServer.Lifecycle
import Muduo.ThreadPool
import Muduo.TimeZone.File
import Muduo.TimeZone.Local
import Muduo.TimeZone.Utc
import Muduo.TimerQueue.Cancel
import Muduo.TimerQueue.Wakeup
import Muduo.Topk.Combine.Exact
import Muduo.Topk.SortSegments
import Muduo.Tunnel
