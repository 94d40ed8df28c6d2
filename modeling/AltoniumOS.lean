import AltoniumOS.Lib.Exec
import AltoniumOS.Lib.Hierarchy
import AltoniumOS.Lib.History
import AltoniumOS.Lib.Bytes
import AltoniumOS.Lib.Scan
import AltoniumOS.Lib.Links
import AltoniumOS.Lib.Writes
import AltoniumOS.Lib.Twins
import AltoniumOS.Fat12.Walks
import AltoniumOS.Refine.Reach
import AltoniumOS.Refine.Sync
import AltoniumOS.System.Effects
import AltoniumOS.System.Durability
import AltoniumOS.System.Bounds
import AltoniumOS.System.Scratch
import AltoniumOS.Nano.Sessions
import AltoniumOS.Image.Mounting
import AltoniumOS.Boot.Bootlog
import AltoniumOS.Boot.Loading
import AltoniumOS.System.Geometry
import AltoniumOS.Console.Prompt
import AltoniumOS.System.Reading
import AltoniumOS.System.Directories
import AltoniumOS.System.Failures
import AltoniumOS.Nano.Opening
import AltoniumOS.Fat12.Grammar
import AltoniumOS.Console.Dispatch
import AltoniumOS.Disk.Drive
import AltoniumOS.Disk.Transfers
import AltoniumOS.Lib.Collect
import AltoniumOS.Storage.Controllers
import AltoniumOS.Boot.MemoryMap
import AltoniumOS.Console.Numbers
import AltoniumOS.Disk.Addresses
import AltoniumOS.Fat12.Cwd
import AltoniumOS.Volume.Levels
import AltoniumOS.Volume.Tree
import AltoniumOS.Fat12.Display
import AltoniumOS.Refine.Chains
import AltoniumOS.System.Remount
import AltoniumOS.System.Termination
import AltoniumOS.System.Current
import AltoniumOS.System.Files
import AltoniumOS.System.Roundtrip
import AltoniumOS.Lib.Client
import AltoniumOS.Console.Strings
import AltoniumOS.Kernel.Reports
import AltoniumOS.Kernel.Commands
import AltoniumOS.Kernel.Machine
import AltoniumOS.Kernel.Session
import AltoniumOS.Kernel.Histories
import AltoniumOS.Kernel.Meaning
import AltoniumOS.Kernel.Lasting
import AltoniumOS.Kernel.Editing
import AltoniumOS.Disk.Punctual
import AltoniumOS.Disk.Clients
import AltoniumOS.System.Programs
import AltoniumOS.System.Stack
import AltoniumOS.Kernel.Computer
