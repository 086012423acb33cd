/-
The wire form of failures: a word for the kind of failure, and its text.
-/
import Scripting.Wire.Report
import Scripting.Engine.Unit
import Scripting.Value.Convert

namespace Scripting.Wire

def failure (kind text : String) : Json :=
  Json.ofMembers [("error", .string kind), ("message", .string text)]

def badInput (text : String) : Json := failure "BadInput" text

def ofTypeError (e : TypeError) : Json :=
  let kind := match e with
    | .immutableType _ => "ImmutableType"
    | .outOfBounds .. => "OutOfBounds"
    | .mismatch .. => "Mismatch"
  failure kind e.message

def ofError : Error → Json
  | .malformed what => badInput what
  | .type e => failure "TypeParse" e.message
  | .entry e => ofTypeError e

def ofConversionError (e : Value.ConversionError) : Json :=
  let kind := match e with
    | .typeMismatch .. => "TypeMismatch"
    | .integerOverflow => "IntegerOverflow"
  failure kind e.message

def ofShapeError (e : ShapeError) : Json :=
  let kind := match e with
    | .unknownMethod .. => "UnknownMethod"
    | .shapeMismatch .. => "ShapeMismatch"
    | .handler .. => "Handler"
  failure kind e.message

def ofBridgeError (e : BridgeError) : Json :=
  let kind := match e with
    | .notWrapped _ => "NotWrapped"
    | .unknownMethod .. => "UnknownMethod"
    | .handler .. => "Handler"
    | .leak .. => "Leak"
  Json.ofMembers
    [("error", .string kind), ("message", .string e.message), ("yields_null", .bool e.yieldsNull)]

def ofEngineError (e : EngineError) : Json :=
  match e with
  | .script _ => failure "Js" e.message
  | .creation _ => failure "RuntimeCreation" e.message
  | .evaluation _ => failure "Eval" e.message
  | .functionNotFound _ => failure "FunctionNotFound" e.message
  | .conversion _ => failure "Conversion" e.message
  | .bridge b => ofBridgeError b

def ofScriptError (e : ScriptError) : Json :=
  let kind := match e with
    | .stopped => "Stopped"
    | .unknownFunction _ => "UnknownFunction"
    | .failed _ => "Failed"
    | .panicked _ => "Panicked"
  failure kind e.message

def ofResolutionError (e : ResolutionError) : Json :=
  let kind := match e with
    | .notFound _ => "NotFound"
    | .compileFailed _ => "CompileFailed"
    | .unreadable .. => "Io"
  failure kind e.message

def ofOrderError : OrderError → Json
  | .resolution e => ofResolutionError e
  | .spawn e => failure "Spawn" e.message

def ofNetError (e : Net.NetError) : Json :=
  let kind := match e with
    | .configuration _ => "Configuration"
    | .network _ => "Network"
    | .invalidRequest _ => "InvalidRequest"
    | .interrupted => "Interrupted"
  failure kind e.message

end Scripting.Wire
