import Scripting.Assoc
import Scripting.Bridge.Basic
import Scripting.Channel.Basic
import Scripting.Channel.Poll
import Scripting.Cli.Arguments
import Scripting.Cli.Basic
import Scripting.Config.Basic
import Scripting.Config.Datum
import Scripting.Config.Variable
import Scripting.Engine.Basic
import Scripting.Engine.Error
import Scripting.Engine.Unit
import Scripting.Execution.Basic
import Scripting.Formula.Basic
import Scripting.Host.Basic
import Scripting.Host.Schedule
import Scripting.Host.Setup
import Scripting.Host.Step
import Scripting.Js.Builtin
import Scripting.Js.Conversion
import Scripting.Js.Crossing
import Scripting.Js.Evaluation
import Scripting.Js.Globals
import Scripting.Js.Heap
import Scripting.Js.JsonText
import Scripting.Js.Number
import Scripting.Js.Parser
import Scripting.Js.Property
import Scripting.Js.Run
import Scripting.Js.Store
import Scripting.Js.Syntax
import Scripting.Js.Token
import Scripting.Json.Basic
import Scripting.Json.Number
import Scripting.Json.Parser
import Scripting.Json.Printer
import Scripting.Json.Token
import Scripting.Library.Arguments
import Scripting.Library.Basic
import Scripting.Log
import Scripting.Message.Basic
import Scripting.Native.Basic
import Scripting.Net.Basic
import Scripting.Net.Client
import Scripting.Net.PreferenceFile
import Scripting.Net.Preferences
import Scripting.Net.Stream
import Scripting.Number.Binary64
import Scripting.Number.Decimal
import Scripting.Number.Width
import Scripting.Program.Basic
import Scripting.Registry.Basic
import Scripting.Routine.Basic
import Scripting.Shape.Basic
import Scripting.Source.Basic
import Scripting.Source.FileTree
import Scripting.Stop.Token
import Scripting.Text.Blank
import Scripting.Text.Hidden
import Scripting.Text.Quoted
import Scripting.Text.Units
import Scripting.Text.Utf8
import Scripting.Time.Timestamp
import Scripting.Toml.Basic
import Scripting.Toml.Printer
import Scripting.Toml.Reader
import Scripting.Toml.Scalar
import Scripting.Toml.Text
import Scripting.Toml.Tree
import Scripting.Url.Basic
import Scripting.Url.Host
import Scripting.Url.Parser
import Scripting.Value.Aggregate
import Scripting.Value.Basic
import Scripting.Value.Convert
import Scripting.Value.Json
import Scripting.Value.Order
import Scripting.ValueType.Basic
import Scripting.ValueType.Decode
import Scripting.ValueType.Json
import Scripting.Wire.Declaration
import Scripting.Wire.Failure
import Scripting.Wire.Program
import Scripting.Wire.Reader
import Scripting.Wire.Report
import Scripting.Wire.Request
import Scripting.Wire.Value
import Scripting.Main
import Scripting.Proofs.Assoc
import Scripting.Proofs.Bridge.Calls
import Scripting.Proofs.Bridge.Json
import Scripting.Proofs.Bridge.Members
import Scripting.Proofs.Bridge.Results
import Scripting.Proofs.Channel.Laws
import Scripting.Proofs.Channel.Moves
import Scripting.Proofs.Channel.StopWakes
import Scripting.Proofs.Channel.Traffic
import Scripting.Proofs.Channel.Wakeup
import Scripting.Proofs.Channel.Watch
import Scripting.Proofs.Dialogue
import Scripting.Proofs.Engine.Stops
import Scripting.Proofs.Execution.Dealings
import Scripting.Proofs.Execution.Lifecycle
import Scripting.Proofs.Execution.Lives
import Scripting.Proofs.Host.Ages
import Scripting.Proofs.Host.Bodies
import Scripting.Proofs.Host.Course
import Scripting.Proofs.Host.Deadline
import Scripting.Proofs.Host.Events
import Scripting.Proofs.Host.Moves
import Scripting.Proofs.Host.Quiet
import Scripting.Proofs.Host.Routines
import Scripting.Proofs.Js.Heap
import Scripting.Proofs.Js.Initial
import Scripting.Proofs.Js.Json
import Scripting.Proofs.Js.Nesting
import Scripting.Proofs.Js.Outcome
import Scripting.Proofs.Js.Reading
import Scripting.Proofs.Js.RoundTrip
import Scripting.Proofs.Js.Writing
import Scripting.Proofs.Json.Doubles
import Scripting.Proofs.Json.Numbers
import Scripting.Proofs.Json.Range
import Scripting.Proofs.Json.Text
import Scripting.Proofs.Json.Tokens
import Scripting.Proofs.Library.Omission
import Scripting.Proofs.Library.Posting
import Scripting.Proofs.Library.Refusal
import Scripting.Proofs.Net.Endpoint
import Scripting.Proofs.Net.Handles
import Scripting.Proofs.Net.Lifecycle
import Scripting.Proofs.Net.Outbox
import Scripting.Proofs.Net.Preferences
import Scripting.Proofs.Net.Redaction
import Scripting.Proofs.Number.Arithmetic
import Scripting.Proofs.Number.Order
import Scripting.Proofs.Number.Rounding
import Scripting.Proofs.Number.Shortest
import Scripting.Proofs.Number.Worth
import Scripting.Proofs.Registry.Answer
import Scripting.Proofs.Registry.Builds
import Scripting.Proofs.Registry.BuiltMeanwhile
import Scripting.Proofs.Registry.Exclusion
import Scripting.Proofs.Registry.Lock
import Scripting.Proofs.Registry.Sequence
import Scripting.Proofs.Registry.Shutdown
import Scripting.Proofs.Registry.StopAll
import Scripting.Proofs.Registry.Tokens
import Scripting.Proofs.Route
import Scripting.Proofs.Source.Confinement
import Scripting.Proofs.Source.Precedence
import Scripting.Proofs.Stop.Wakers
import Scripting.Proofs.Url.Path
import Scripting.Proofs.Value.Aggregate
import Scripting.Proofs.Value.Basic
import Scripting.Proofs.Value.Integer
import Scripting.Proofs.Value.Json
import Scripting.Proofs.Value.Order
import Scripting.Proofs.Value.Records
import Scripting.Proofs.Value.Storage
import Scripting.Proofs.ValueType.Json
import Scripting.Proofs.ValueType.Reference
