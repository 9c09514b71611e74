import OpenHobbyOS.Ata.Sectors
import OpenHobbyOS.Memory.Aligned
import OpenHobbyOS.Memory.FrameCounts
import OpenHobbyOS.Kernel.Placement
import OpenHobbyOS.Vfs.Links
import OpenHobbyOS.Ext2.Directory
import OpenHobbyOS.Socket.Listeners
import OpenHobbyOS.Socket.Peers
import OpenHobbyOS.Sha1.Digest
import OpenHobbyOS.Initrd.Archive
import OpenHobbyOS.Xnx.Replies
import OpenHobbyOS.Kernel.Sleep
import OpenHobbyOS.Socket.ControlWalk
import OpenHobbyOS.Kernel.FdNumbers
import OpenHobbyOS.Kernel.Poll
import OpenHobbyOS.Vfs.Modes
import OpenHobbyOS.Kernel.StartStack
import OpenHobbyOS.Socket.Peek
import OpenHobbyOS.Socket.Removal
import OpenHobbyOS.Vfs.LongNames
import OpenHobbyOS.Ext2.Geometry
import OpenHobbyOS.Vfs.Overlay
import OpenHobbyOS.Vfs.Listing
import OpenHobbyOS.Xnx.Frames
import OpenHobbyOS.Xnx.Dispatch
import OpenHobbyOS.Xnx.Upload
import OpenHobbyOS.Libc.Uchar
import OpenHobbyOS.Shell.History
import OpenHobbyOS.Libc.Sendfile
import OpenHobbyOS.Libc.Timerfd
import OpenHobbyOS.Libc.Ntop
import OpenHobbyOS.Libc.Normalize
import OpenHobbyOS.Support.Format
import OpenHobbyOS.Console.Legacy
import OpenHobbyOS.Pci.Scan
import OpenHobbyOS.Acpi.Rsdp
import OpenHobbyOS.Acpi.SleepType
import OpenHobbyOS.Net.Rtl8139
import OpenHobbyOS.Shell.Status
