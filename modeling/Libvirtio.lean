import Libvirtio.Block.Disk
import Libvirtio.Device.UsedLength
import Libvirtio.Dma.Revocation
import Libvirtio.Fs.Pipeline
import Libvirtio.Fs.Symlink
import Libvirtio.Queue.Contract
import Libvirtio.Run.Doorbell
import Libvirtio.Run.Teardown
import Libvirtio.Run.Schedule
import Libvirtio.Library.Walk
import Libvirtio.Queue.Chain
import Libvirtio.Device.MemoryConfig
import Libvirtio.Run.Coalesce
import Libvirtio.Device.QueueIndices
import Libvirtio.Device.Announce
import Libvirtio.Device.Segments
import Libvirtio.Queue.Offers
import Libvirtio.Device.Transfer
import Libvirtio.Fs.Dirent
import Libvirtio.Fs.Listing
import Libvirtio.Fs.Paging
import Libvirtio.Fs.Agreement
import Libvirtio.Dma.Construction
import Libvirtio.Dma.Exact
import Libvirtio.Queue.Faults
import Libvirtio.Device.Scatter
import Libvirtio.Device.Framing
import Libvirtio.Device.Control
import Libvirtio.Library.Rotation
import Libvirtio.Device.Receive
import Libvirtio.Fs.Replies
import Libvirtio.Fs.Enumeration
import Libvirtio.Dma.Drain
import Libvirtio.Fs.Attributes
import Libvirtio.Device.Footprint
import Libvirtio.Device.Abstract
import Libvirtio.Device.Driver
import Libvirtio.Device.Activation
import Libvirtio.Run.Wake
import Libvirtio.Run.Stop
import Libvirtio.Run.Service
import Libvirtio.Run.Answers
import Libvirtio.Run.Halt
