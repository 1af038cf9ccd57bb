import EfiLvgl.App.Launcher
import EfiLvgl.App.Tokenizer
import EfiLvgl.Console.KeyNotify
import EfiLvgl.Console.KeyQueue
import EfiLvgl.Console.Machine
import EfiLvgl.Console.Returns
import EfiLvgl.Console.Scrollback
import EfiLvgl.Console.TextModes
import EfiLvgl.Efidirect.Monitor
import EfiLvgl.Efidirect.Pointer
import EfiLvgl.Ets.Registers
import EfiLvgl.Executor.Arguments
import EfiLvgl.Executor.Discipline
import EfiLvgl.Executor.LazyInit
import EfiLvgl.Gc.Alloc
import EfiLvgl.Gc.Chain
import EfiLvgl.Gc.Free
import EfiLvgl.Gc.Info
import EfiLvgl.Gc.Init
import EfiLvgl.Gc.Keep
import EfiLvgl.Gc.Mark
import EfiLvgl.Gc.Model
import EfiLvgl.Gc.Realloc
import EfiLvgl.Gc.Run
import EfiLvgl.Gc.Store
import EfiLvgl.Gc.Sweep
import EfiLvgl.Gc.Table
import EfiLvgl.Lib.Arena
import EfiLvgl.Lib.Cut
import EfiLvgl.Lib.Reach
import EfiLvgl.Lib.Source
import EfiLvgl.Lib.Streak
import EfiLvgl.Mapping.Lookup
import EfiLvgl.Mapping.Order
import EfiLvgl.Mapping.Stack
import EfiLvgl.Mapping.Walk
import EfiLvgl.Os.Listing
import EfiLvgl.Py.Iterate
import EfiLvgl.Py.SetTable
import EfiLvgl.Py.Stream
import EfiLvgl.Py.Write
import EfiLvgl.Re.Bounds
import EfiLvgl.Re.Split
import EfiLvgl.Repl.Editor
import EfiLvgl.Repl.History
import EfiLvgl.Smbios.Record
import EfiLvgl.Smbios.Strings
import EfiLvgl.Text.Eol
import EfiLvgl.Text.StrStrR
import EfiLvgl.Time.Mktime
import EfiLvgl.Time.Ticks
import EfiLvgl.Uefi.Accept
import EfiLvgl.Uefi.Alias
import EfiLvgl.Uefi.Bits
import EfiLvgl.Uefi.Cast
import EfiLvgl.Uefi.Division
import EfiLvgl.Uefi.DottedName
import EfiLvgl.Uefi.Layout
import EfiLvgl.Uefi.Marshal
import EfiLvgl.Uefi.Pages
import EfiLvgl.Uefi.Prototype
import EfiLvgl.Uefi.Relocate
import EfiLvgl.Uefi.Resolve
import EfiLvgl.Usf.Descriptors
import EfiLvgl.Usf.FileObject
import EfiLvgl.Usf.Label
import EfiLvgl.Usf.Norm
import EfiLvgl.Usf.Ownership
import EfiLvgl.Usf.RoundTrip
import EfiLvgl.Usf.Seek
import EfiLvgl.Usf.StdIn
import EfiLvgl.Variables.Iteration
