import RTThread.Kernel.Yield
import RTThread.Ipc.Wakeup
import RTThread.Ipc.Event
import RTThread.Pthreads.Cond
import RTThread.Pthreads.Rwlock
import RTThread.Signal.Semaphore
import RTThread.Signal.Mutex
import RTThread.Timer.DelayUntil
import RTThread.Timer.Soft
import RTThread.Drivers.RingbufferForce
import RTThread.Slab.PageAllocator
import RTThread.Drivers.SoftSpiClock
import RTThread.Drivers.Completion
import RTThread.Drivers.WorkqueueTake
import RTThread.Drivers.WorkqueueWake
import RTThread.Drivers.WorkqueueFlags
import RTThread.Drivers.PipeWakeup
import RTThread.Dfs.Poll
import RTThread.Dfs.RamfsNames
import RTThread.Finsh.HeapRun
import RTThread.Drivers.SerialDmaTx
import RTThread.Drivers.SerialRx
import RTThread.Drivers.SoftI2cTransfer
import RTThread.Ipc.Restored
import RTThread.At.Getchar
import RTThread.Ulog.Async
import RTThread.Ulog.Backends
import RTThread.Ymodem.Sequence
import RTThread.Ymodem.Session
import RTThread.Vbus.PrioQueue
import RTThread.Drivers.CanRxOrder
import RTThread.Drivers.CanTxModes
import RTThread.Kservice.Integers
import RTThread.Kservice.Console
import RTThread.Kservice.AlignedMalloc
import RTThread.Ipc.Depth
import RTThread.Memheap.Complete
import RTThread.Memheap.Limit
import RTThread.SmallMem.Complete
import RTThread.Signal.Handle
import RTThread.Signal.SigWait
import RTThread.Drivers.AlarmOnce
import RTThread.Drivers.RingblkJoined
import RTThread.Drivers.PipeCount
import RTThread.Drivers.Device
import RTThread.Drivers.SoftSpiMemory
import RTThread.Dfs.RamfsSeek
import RTThread.Finsh.History
import RTThread.Finsh.Completion
import RTThread.Drivers.Flash
import RTThread.Ymodem.Headers
import RTThread.Ipc.Sorted
import RTThread.Kservice.Memory
import RTThread.Libc.Clock
import RTThread.Dfs.WorkingDirectory
import RTThread.Ipc.Runs
