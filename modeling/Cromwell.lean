import Cromwell.Std.Memory
import Cromwell.Std.Execution
import Cromwell.Heap.ClusterTable
import Cromwell.Heap.Blocks
import Cromwell.Heap.Release
import Cromwell.Heap.History
import Cromwell.Heap.Containment
import Cromwell.Heap.RoundTrip
import Cromwell.Heap.Ownership
import Cromwell.Heap.Disjointness
import Cromwell.Rom.Image
import Cromwell.Std.Loop
import Cromwell.Rom.Sealed
import Cromwell.Rom.LoadSafety
import Cromwell.Rom.Agreement
import Cromwell.Crypt.Sha1
import Cromwell.Crypt.Sha1Stream
import Cromwell.Crypt.Hmac
import Cromwell.Crypt.Rc4
import Cromwell.Ide.HddKey
import Cromwell.Ide.Decoding
import Cromwell.Eeprom.SMBus
import Cromwell.Eeprom.Settings
import Cromwell.Eeprom.Checksums
import Cromwell.Flash.BootFlash
import Cromwell.Flash.Reflash
import Cromwell.Flash.Device
import Cromwell.Flash.Written
import Cromwell.Flash.Reflashed
import Cromwell.Flash.Progress
import Cromwell.Flash.Bracketing
import Cromwell.Eeprom.Shadow
import Cromwell.Fatx.RawRead
import Cromwell.Fatx.Partition
import Cromwell.Fatx.Lookup
import Cromwell.Fatx.Load
import Cromwell.Fatx.Termination
import Cromwell.Fatx.Accesses
import Cromwell.Boot.MemoryLayout
import Cromwell.Iso9660.ReadFile
import Cromwell.Boot.LoadLinux
import Cromwell.Boot.LoadReactOS
import Cromwell.Fatx.Writes
import Cromwell.Boot.Windows
import Cromwell.Config.BootParser
import Cromwell.Config.Lines
import Cromwell.Config.Directives
import Cromwell.Config.Runs
import Cromwell.Config.Independence
import Cromwell.Config.Fields
import Cromwell.Config.Recording
import Cromwell.Config.Sections
import Cromwell.Config.WellFormed
import Cromwell.Boot.StartReactOS
import Cromwell.Boot.Handoff
import Cromwell.Ide.BootIde
import Cromwell.Ide.Commands
import Cromwell.Ide.Addressing
import Cromwell.Ide.Polling
import Cromwell.Ide.LockOrder
import Cromwell.Ide.Reading
import Cromwell.Ide.HddMenuActions
import Cromwell.Ide.SectorRead
import Cromwell.Ide.Retries
import Cromwell.Std.Chain
import Cromwell.Std.Window
import Cromwell.Menu.TextMenu
import Cromwell.Menu.BootMenu
import Cromwell.Menu.IconMenu
import Cromwell.Menu.IconMenuInit
import Cromwell.Iso9660.Contents
import Cromwell.Boot.LoadFlashCD
import Cromwell.Std.Numerals
import Cromwell.Xcodes.Assembler
import Cromwell.Xcodes.XDecode
import Cromwell.Xcodes.RoundTrip
import Cromwell.Rom.Patches
import Cromwell.Fatx.FileContents
import Cromwell.Rom.Lengths
import Cromwell.Boot.Placement
import Cromwell.Boot.NativeRequest
import Cromwell.Iso9660.Limits
import Cromwell.Fatx.ByteRanges
import Cromwell.Fatx.Opening
import Cromwell.Fatx.Directories
import Cromwell.Fatx.MetClusters
import Cromwell.Fatx.InsidePartition
import Cromwell.Fatx.PathLookup
import Cromwell.Std.LiveBlocks
import Cromwell.Iso9660.ReadDir
import Cromwell.Iso9660.Scans
import Cromwell.Iso9660.Release
import Cromwell.Iso9660.Recursion
import Cromwell.Iso9660.Records
import Cromwell.Iso9660.Trees
import Cromwell.Config.DefaultTitle
import Cromwell.Menu.DefaultEntry
import Cromwell.Video.Focus
import Cromwell.Std.Signal
import Cromwell.Usb.RiseFall
import Cromwell.Usb.ButtonEvents
import Cromwell.Usb.Timers
import Cromwell.Usb.TimerRuns
import Cromwell.Std.CString
import Cromwell.Etherboot.Xbox
import Cromwell.Etherboot.CommandLine
import Cromwell.Eeprom.ErrorDetection
import Cromwell.Crypt.OneContext
import Cromwell.Std.RetryCounter
import Cromwell.Flash.Cycles
import Cromwell.Flash.RetryLoops
import Cromwell.Flash.Retries
import Cromwell.Flash.RetryBounds
import Cromwell.Flash.RangeCheck
import Cromwell.Boot.HeaderSource
import Cromwell.Boot.InfoBlock
import Cromwell.Heap.FirstFit
import Cromwell.Std.BitFields
import Cromwell.Video.VideoInitialization
import Cromwell.Video.Encoder
import Cromwell.Video.Conexant
import Cromwell.Video.FocusMode
import Cromwell.Flash.Protocols
import Cromwell.Boot.Unattended
import Cromwell.Rom.XbeRepair
import Cromwell.Rom.Uninitialised
import Cromwell.Boot.Printing
import Cromwell.Video.Framebuffer
import Cromwell.Video.TextWidth
import Cromwell.Ide.IdentifyStrings
import Cromwell.Std.BitStream
import Cromwell.Std.Crc
import Cromwell.Std.SlidingWindow
import Cromwell.Std.CodeTree
import Cromwell.Std.CanonicalCode
import Cromwell.Gzip.Gunzip
import Cromwell.Gzip.Checked
import Cromwell.Gzip.CodeTables
import Cromwell.Gzip.Lookups
import Cromwell.Gzip.Format
import Cromwell.Gzip.Streams
import Cromwell.Gzip.Members
import Cromwell.Rom.Unpacking
import Cromwell.Std.OnesComplement
import Cromwell.Etherboot.Checksum
