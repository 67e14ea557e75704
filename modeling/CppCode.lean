import CppCode.Concurrency.Machine
import CppCode.LogStruct.Model
import CppCode.LogStruct.Handover
import CppCode.LogStruct.Capacity
import CppCode.LogStruct.Exclusive
import CppCode.LogStruct.Content
import CppCode.LogStruct.WriteCall
import CppCode.LogStruct.Shutdown
import CppCode.LogStruct.Release
import CppCode.Bytes.Stream
import CppCode.LogStruct.Records
import CppCode.LogStruct.TailReader
import CppCode.LogStruct.Follow
import CppCode.Concurrency.Channel
import CppCode.Task.Model
import CppCode.Task.Moves
import CppCode.Task.Lifecycle
import CppCode.Task.Destroy
import CppCode.Task.Status
import CppCode.Task.Failure
import CppCode.Task.Input
import CppCode.Task.Pause
import CppCode.Task.Cancel
import CppCode.Task.Result
import CppCode.Task.OtaNode
import CppCode.Task.TestTask
import CppCode.Task.EndTask
import CppCode.Concurrency.Slots
import CppCode.ThreadPool.Model
import CppCode.ThreadPool.Coroutine
import CppCode.ThreadPool.LongRunning
import CppCode.ThreadPool.Futures
import CppCode.WaitSet.Model
import CppCode.WaitSet.Events
import CppCode.MiniListener.Model
import CppCode.MiniListener.Refinement
import CppCode.MiniListener.Callbacks
import CppCode.MiniListener.Stop
import CppCode.Transducer.Basic
import CppCode.StateReducer.Model
import CppCode.StateReducer.Window
import CppCode.StateReducer.Soundness
import CppCode.Posix.FileSystem
import CppCode.Posix.Crash
import CppCode.AtomicFile.Model
import CppCode.AtomicFile.Stage
import CppCode.AtomicFile.Atomicity
import CppCode.AtomicFile.Registers
import CppCode.AtomicFile.Session
import CppCode.AtomicFile.Durability
import CppCode.AtomicFile.DurableSession
import CppCode.Bytes.Text
import CppCode.AtomicFile.FirstLine
import CppCode.ControlSlot.Model
import CppCode.ControlSlot.Mailbox
import CppCode.ControlSlot.Values
import CppCode.ErrorReporting.Dispatch
import CppCode.Bytes.LittleEndian
import CppCode.Bytes.Memory
import CppCode.ChunkHead.Model
import CppCode.ChunkHead.Layout
import CppCode.Segments.Model
import CppCode.Segments.Target
import CppCode.Segments.Roudi
import CppCode.Bytes.Objects
import CppCode.SharedMemory.Model
import CppCode.SharedMemory.Refinement
import CppCode.SharedMemory.Delivery
import CppCode.Concurrency.AsyncChannel
import CppCode.ChannelTest.Model
import CppCode.ChannelTest.Progress
import CppCode.Loop.Counted
import CppCode.Sorter.Exchange
import CppCode.Concurrency.ChannelLock
import CppCode.EchoSession.Model
import CppCode.EchoSession.Lock
import CppCode.EchoSession.Framing
import CppCode.EchoSession.Shutdown
import CppCode.EchoSession.Shortcut
import CppCode.ThrottlingProxy.Model
import CppCode.ThrottlingProxy.Relay
import CppCode.ThrottlingProxy.Throttle
import CppCode.TaskPool.Model
import CppCode.TaskPool.Progress
import CppCode.TaskPool.Starvation
import CppCode.TaskPool.Stop
