import Waeio.Backends
import Waeio.Bespoke.Bounds
import Waeio.Bespoke.Descriptors
import Waeio.Bespoke.Isolation
import Waeio.Capacity
import Waeio.EchoServer.Shutdown
import Waeio.FiberServer.Basic
import Waeio.FiberServer.Bounds
import Waeio.FiberServer.CleanUp
import Waeio.FiberServer.Descriptors
import Waeio.FiberServer.Isolation
import Waeio.FiberServer.Keep
import Waeio.FiberServer.Release
import Waeio.FiberServer.Replies
import Waeio.FiberServer.Rounds
import Waeio.FiberServer.Visit
import Waeio.Freelist.Arith
import Waeio.Freelist.Resize
import Waeio.HostDriver.Frame
import Waeio.HostDriver.Opening
import Waeio.HostFiber.Basic
import Waeio.HostFiber.Compaction
import Waeio.HostFiber.LockStep
import Waeio.HostPoll.Entries
import Waeio.Hostgen
import Waeio.Http.Bounds
import Waeio.HttpServer.Command
import Waeio.HttpServer.Listener
import Waeio.HttpServer.Replies
import Waeio.HttpServer.Waiting
import Waeio.HttpServer.Wake
import Waeio.Linked
import Waeio.Scheduler.Cancel
import Waeio.Scheduler.Count
import Waeio.Scheduler.Handling
import Waeio.Scheduler.Heap
import Waeio.Scheduler.Lifetime
import Waeio.Scheduler.Place
import Waeio.Scheduler.Queues
import Waeio.Scheduler.Register
import Waeio.Scheduler.Round
import Waeio.Scheduler.Turns
import Waeio.Scheduler.Wrappers
import Waeio.WasioHost.Binding
import Waeio.WasioHost.Failure
import Waeio.WasioHost.Ledger
import Waeio.WasioHost.Map
import Waeio.WasioHost.Masks
import Waeio.WasioWasi.Accept
import Waeio.WasioWasi.Binding
