import KitPlayerCore.View.Teardown
import KitPlayerCore.Mpv.DispatchCalls
import KitPlayerCore.Mpv.ClientWait
import KitPlayerCore.Mpv.ClientQueue
import KitPlayerCore.Mpv.CoreEnd
import KitPlayerCore.Mpv.ObserveTold
import KitPlayerCore.Mpv.FrameRegions
import KitPlayerCore.View.Semaphore
import KitPlayerCore.Core.Reason
import KitPlayerCore.Core.Header
import KitPlayerCore.Core.AvOption
import KitPlayerCore.Core.Assignment
import KitPlayerCore.Core.Rejected
import KitPlayerCore.Core.Malformed
import KitPlayerCore.Core.Numbers
import KitPlayerCore.Session.Handle
import KitPlayerCore.Session.Order
import KitPlayerCore.Session.Wakeup
import KitPlayerCore.Session.Replaced
import KitPlayerCore.Session.Snapshot
import KitPlayerCore.Session.Silence
import KitPlayerCore.Session.Initialization
import KitPlayerCore.Session.Renewal
import KitPlayerCore.Session.Attached
import KitPlayerCore.Session.Coherence
import KitPlayerCore.Session.Liveness
import KitPlayerCore.Session.Reentrancy
import KitPlayerCore.Mpv.PoolWork
import KitPlayerCore.Mpv.Barrier
