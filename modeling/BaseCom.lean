import BaseCom.Transition.Run
import BaseCom.Rot13.Chunking
import BaseCom.Rot13.Connection
import BaseCom.Rot13.RoundTrip
import BaseCom.Epoll.Readiness
import BaseCom.Epoll.Stall
import BaseCom.Epoll.Closing
import BaseCom.Epoll.Rejection
import BaseCom.Epoll.Starvation
import BaseCom.Epoll.Batch
import BaseCom.Event.Completeness
import BaseCom.Event.Deadline
import BaseCom.Shm.Accounting
import BaseCom.Epoll.Backlog
import BaseCom.Epoll.Startup
import BaseCom.Shm.Failure
import BaseCom.Shm.Agreement
import BaseCom.Thread.Status
import BaseCom.Thread.Join
import BaseCom.Mysql.Connection
import BaseCom.Mysql.Retry
import BaseCom.Mysql.Results
import BaseCom.Mysql.Cursor
import BaseCom.Client.SendLoop
import BaseCom.Thread.Polling
import BaseCom.Shm.Teardown
import BaseCom.Rot13.Conservation
import BaseCom.Epoll.Printing
import BaseCom.Epoll.Handover
import BaseCom.Rot13.Reply
import BaseCom.Client.Conversation
import BaseCom.Event.Liveness
import BaseCom.Base.Program
import BaseCom.Base.Descriptors
import BaseCom.Shm.Process
import BaseCom.Shm.Leak
import BaseCom.Mysql.Reports
import BaseCom.Rot13.Memory
import BaseCom.Event.Atomic
import BaseCom.Epoll.Rationing
import BaseCom.Epoll.Visitors
import BaseCom.Epoll.Waiting
