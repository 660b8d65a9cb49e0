import Virtio9P.Virtqueue.Rep
import Virtio9P.Virtqueue.Hostile
import Virtio9P.Virtqueue.Modes
import Virtio9P.Virtqueue.Rings
import Virtio9P.Parsing
import Virtio9P.Verdict
import Virtio9P.RoundTrip
import Virtio9P.Msize
import Virtio9P.Reading
import Virtio9P.Writing
import Virtio9P.Listing
import Virtio9P.Walking
import Virtio9P.Transport.Detect
import Virtio9P.Transport.Registers
import Virtio9P.Transport.MountTag
import Virtio9P.Targets
import Virtio9P.Agreement
import Virtio9P.Identity
import Virtio9P.Accounting
import Virtio9P.Memory
import Virtio9P.Breakdown
import Virtio9P.Replies
import Virtio9P.Coherence
import Virtio9P.Attributes
import Virtio9P.Reach
import Virtio9P.Calls
import Virtio9P.Refine
import Virtio9P.Pool
import Virtio9P.Pointer.Marshal
import Virtio9P.Virtqueue.Layout
import Virtio9P.Launch
