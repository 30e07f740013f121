import MiniFs.Library.ByteRange
import MiniFs.Library.Codec
import MiniFs.Library.BitArray
import MiniFs.Library.Chunks
import MiniFs.Library.Ownership
import MiniFs.Library.Exec
import MiniFs.Library.Calls
import MiniFs.Library.Tape
import MiniFs.Library.Triple
import MiniFs.Library.Keyed
import MiniFs.Library.Ring
import MiniFs.Core.Types
import MiniFs.Core.Disk
import MiniFs.Core.Bitmap
import MiniFs.Core.InodeTable
import MiniFs.Core.FileOps
import MiniFs.Core.Admin
import MiniFs.Image.Geometry
import MiniFs.Image.Transfers
import MiniFs.Image.Loading
import MiniFs.Image.Represents
import MiniFs.Image.Primitives
import MiniFs.Image.Sound
import MiniFs.Image.Lookup
import MiniFs.Image.Content
import MiniFs.Image.Reports
import MiniFs.Image.Fsck
import MiniFs.Image.Steps
import MiniFs.Image.Operations
import MiniFs.Image.Edit
import MiniFs.Image.Acceptance
import MiniFs.Image.Mount
import MiniFs.Image.Format
import MiniFs.Image.Observe
import MiniFs.Image.SystemCalls
import MiniFs.Image.Disturbed
import MiniFs.Image.Tolerance
import MiniFs.Image.Files
import MiniFs.Image.Names
import MiniFs.Image.Remount
import MiniFs.Image.Opened
import MiniFs.Properties.Ownership
import MiniFs.Properties.Leaks
import MiniFs.Properties.Contents
import MiniFs.Properties.Names
import MiniFs.Properties.WriteThrough
import MiniFs.Properties.Failures
import MiniFs.Properties.Fsck
import MiniFs.Properties.Mounting
import MiniFs.Properties.Formatting
import MiniFs.Properties.Simulator
import MiniFs.Properties.SizeArithmetic
import MiniFs.Properties.Space
import MiniFs.Properties.Reporting
import MiniFs.Properties.Reformat
import MiniFs.Simulator.App
import MiniFs.Simulator.Steps
import MiniFs.Simulator.Accounting
import MiniFs.Simulator.Check
import MiniFs.Simulator.BlockGrid
import MiniFs.Simulator.Apart
import MiniFs.Simulator.Packed
import MiniFs.Simulator.Agreement
import MiniFs.Simulator.Directory
import MiniFs.Properties.PageAccounting
import MiniFs.Properties.InodeNumbers
import MiniFs.Properties.Truncation
import MiniFs.Properties.DiskMap
import MiniFs.Properties.PageBlocks
import MiniFs.Properties.FormatAgreement
import MiniFs.Properties.FsckFilter
import MiniFs.Properties.Buffers
import MiniFs.Logger.Log
import MiniFs.Logger.Delivery
import MiniFs.Properties.Logger
import MiniFs.Core.Shell
import MiniFs.Properties.Shell
import MiniFs.Simulator.CommandLine
import MiniFs.Simulator.Session
import MiniFs.Properties.InlineEditor
import MiniFs.Library.Handler
import MiniFs.Properties.FileRows
import MiniFs.Perf.Stats
import MiniFs.Perf.History
import MiniFs.Properties.Performance
import MiniFs.Properties.Slots
import MiniFs.Properties.FirstFit
import MiniFs.Library.Printf
import MiniFs.Library.Lines
import MiniFs.Logger.Calls
import MiniFs.Properties.LogLines
import MiniFs.Core.Main
import MiniFs.Image.Catalog
import MiniFs.Library.Double
import MiniFs.Library.Paired
import MiniFs.Simulator.Numbers
import MiniFs.Simulator.Exact
import MiniFs.Simulator.Tracking
import MiniFs.Simulator.Formats
import MiniFs.Properties.Processes
import MiniFs.Properties.Numerals
import MiniFs.Properties.Bystanders
import MiniFs.Properties.Durability
import MiniFs.Properties.ProcessSafety
import MiniFs.Properties.Refinement
import MiniFs.Properties.ShellSessions
import MiniFs.Properties.Atomicity
import MiniFs.Properties.Independence
import MiniFs.Properties.Capacity
