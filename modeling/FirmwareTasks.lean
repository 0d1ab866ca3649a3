import FirmwareTasks.Text.Bytes
import FirmwareTasks.Text.Utf8
import FirmwareTasks.Text.Blank
import FirmwareTasks.Text.Printable
import FirmwareTasks.Text.Quoted
import FirmwareTasks.Text.Terminal
import FirmwareTasks.Decimal.Double
import FirmwareTasks.Decimal.Shortest
import FirmwareTasks.Path
import FirmwareTasks.Files.IoError
import FirmwareTasks.Files.Tree
import FirmwareTasks.Files.Lookup
import FirmwareTasks.Files.Calls
import FirmwareTasks.Files.Subtree
import FirmwareTasks.Config.Mismatch
import FirmwareTasks.Error
import FirmwareTasks.Invocation
import FirmwareTasks.Run.Event
import FirmwareTasks.Run.World
import FirmwareTasks.Run.Change
import FirmwareTasks.Toml.DateTime
import FirmwareTasks.Toml.Value
import FirmwareTasks.Toml.Scalar
import FirmwareTasks.Toml.Quoted
import FirmwareTasks.Toml.Table
import FirmwareTasks.Toml.Statement
import FirmwareTasks.Config.Basic
import FirmwareTasks.Config.Decode
import FirmwareTasks.Config.Lookup
import FirmwareTasks.Config.Load
import FirmwareTasks.SearchPath
import FirmwareTasks.Task
import FirmwareTasks.Task.Plan
import FirmwareTasks.Task.Listing
import FirmwareTasks.Run.Context
import FirmwareTasks.Run.Body
import FirmwareTasks.Run.Tasks
import FirmwareTasks.Recorder
import FirmwareTasks.Recorder.Script
import FirmwareTasks.Environment
import FirmwareTasks.CommandLine
import FirmwareTasks.Shell.Command
import FirmwareTasks.Shell.Token
import FirmwareTasks.Shell.Source
import FirmwareTasks.Shell.Grammar
import FirmwareTasks.Tool.System
import FirmwareTasks.Shell.Pattern
import FirmwareTasks.Shell.Field
import FirmwareTasks.Shell.Session
import FirmwareTasks.Shell.Options
import FirmwareTasks.Shell.Arithmetic
import FirmwareTasks.Shell.Escape
import FirmwareTasks.Shell.Format
import FirmwareTasks.Shell.Condition
import FirmwareTasks.Shell.Builtin.Directory
import FirmwareTasks.Shell.Builtin.Signal
import FirmwareTasks.Shell.Builtin.Setting
import FirmwareTasks.Shell.Builtin.Naming
import FirmwareTasks.Shell.Builtin
import FirmwareTasks.Shell.Redirection
import FirmwareTasks.Shell.Eval
import FirmwareTasks.Tool.Utility
import FirmwareTasks.Tool.Launch
import FirmwareTasks.Tool.Runner
import FirmwareTasks.Program
import FirmwareTasks.Main
import FirmwareTasks.Proofs.Sequence
import FirmwareTasks.Proofs.Utf8
import FirmwareTasks.Proofs.Keyed
import FirmwareTasks.Proofs.Plan
import FirmwareTasks.Proofs.Path
import FirmwareTasks.Proofs.SearchPath
import FirmwareTasks.Proofs.Files.Tree
import FirmwareTasks.Proofs.Files.Way
import FirmwareTasks.Proofs.Files.Heading
import FirmwareTasks.Proofs.Files.Lookup
import FirmwareTasks.Proofs.Files.Call
import FirmwareTasks.Proofs.Files.Renaming
import FirmwareTasks.Proofs.Files.Missing
import FirmwareTasks.Proofs.Files.Removal
import FirmwareTasks.Proofs.Files.Creation
import FirmwareTasks.Proofs.Files.Descent
import FirmwareTasks.Proofs.Files.Agreement
import FirmwareTasks.Proofs.Files.Lexical
import FirmwareTasks.Proofs.Files.Approach
import FirmwareTasks.Proofs.Files.Footing
import FirmwareTasks.Proofs.Files.Confined
import FirmwareTasks.Proofs.Files.Frame
import FirmwareTasks.Proofs.Files.Copying
import FirmwareTasks.Proofs.Files.Grafting
import FirmwareTasks.Proofs.Run.Log
import FirmwareTasks.Proofs.Run.Script
import FirmwareTasks.Proofs.Run.Body
import FirmwareTasks.Proofs.Run.Calls
import FirmwareTasks.Proofs.Run.Order
import FirmwareTasks.Proofs.Run.Shown
import FirmwareTasks.Proofs.Run.Atomic
import FirmwareTasks.Proofs.Run.ToolPath
import FirmwareTasks.Proofs.Run.Parts
import FirmwareTasks.Proofs.Run.Invocations
import FirmwareTasks.Proofs.Run.Clean
import FirmwareTasks.Proofs.Run.Agreement
import FirmwareTasks.Proofs.Run.Leftovers
import FirmwareTasks.Proofs.Run.Sources
import FirmwareTasks.Proofs.Toml.Keys
import FirmwareTasks.Proofs.Toml.Quoting
import FirmwareTasks.Proofs.Toml.Number
import FirmwareTasks.Proofs.Toml.Writing
import FirmwareTasks.Proofs.Config.Section
import FirmwareTasks.Proofs.Config.Slots
import FirmwareTasks.Proofs.Config.Document
import FirmwareTasks.Proofs.Config.Described
import FirmwareTasks.Proofs.Config.KeyOrder
import FirmwareTasks.Proofs.Config.Rendering
import FirmwareTasks.Proofs.Program
import FirmwareTasks.Proofs.CommandLine
import FirmwareTasks.Proofs.Run.Moving
import FirmwareTasks.Proofs.Run.CopyTree
import FirmwareTasks.Proofs.Run.Crossing
import FirmwareTasks.Proofs.Run.Report
import FirmwareTasks.Proofs.Run.Documentation
import FirmwareTasks.Proofs.Files.Extending
import FirmwareTasks.Proofs.Files.Extent
import FirmwareTasks.Proofs.Run.CopyExtent
import FirmwareTasks.Proofs.Run.Removal
import FirmwareTasks.Proofs.Files.Renewal
import FirmwareTasks.Proofs.Run.Renewal
import FirmwareTasks.Proofs.Config.Template
import FirmwareTasks.Proofs.Naming
import FirmwareTasks.Proofs.Recording
import FirmwareTasks.Proofs.Display
