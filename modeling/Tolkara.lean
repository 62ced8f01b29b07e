import Tolkara.Library.Intervals
import Tolkara.Library.Probing
import Tolkara.Library.Compaction
import Tolkara.Memory.Agreement
import Tolkara.Memory.SparseExclusive
import Tolkara.Cpu.Cache
import Tolkara.Cpu.Rejection
import Tolkara.Budget.Transparent
import Tolkara.Tunnel.OrderlyClose
import Tolkara.Discovery.Chunking
import Tolkara.Image.Load
import Tolkara.Link.Closure
import Tolkara.Link.FirstExport
import Tolkara.Native.Placement
import Tolkara.Debugger.Request
import Tolkara.Handoff.Safety
import Tolkara.Discovery.RoundTrip
import Tolkara.Discovery.FlowControl
import Tolkara.Tunnel.Framing
import Tolkara.Tunnel.StreamTable
import Tolkara.Pairing.Verified
import Tolkara.Launcher.Library
import Tolkara.Launcher.Removed
import Tolkara.Cpu.Conditions
import Tolkara.Cpu.PlainAccess
import Tolkara.Library.Gaps
import Tolkara.Memory.FreeSpace
import Tolkara.Cpu.LoadStore
import Tolkara.Library.Moves
import Tolkara.Library.Scanning
import Tolkara.SoftwareVM.Basic
import Tolkara.SoftwareVM.Copy
import Tolkara.SoftwareVM.Strings
import Tolkara.Image.ExportReads
import Tolkara.Image.File
import Tolkara.Image.FileReads
import Tolkara.Image.Faithful
import Tolkara.Library.Groups
import Tolkara.Library.Machines
import Tolkara.Library.Padding
import Tolkara.Library.Postorder
import Tolkara.Library.Components
import Tolkara.Pairing.Fields
import Tolkara.Handoff.Messages
import Tolkara.Debugger.Packets
import Tolkara.Security.RoundTrip
import Tolkara.Link.Initialization
import Tolkara.Link.Coalescing
import Tolkara.Paths.Faithful
import Tolkara.Tunnel.Emitted
import Tolkara.Native.SignedImage
import Tolkara.Native.Accepted
import Tolkara.Signing.Verified
import Tolkara.Image.LEB128
import Tolkara.Budget.Withheld
import Tolkara.Metal.Derived
import Tolkara.Launcher.CheckedProfiles
import Tolkara.Modules.Atomic
import Tolkara.Debugger.Prepared
import Tolkara.Fixups.Rounds
import Tolkara.Fixups.Agreement
import Tolkara.Nib.Graph
import Tolkara.Native.Built
