/-
The command line: what a user asks for, and which arguments ask for nothing.
-/

namespace Scripting.Cli

/-- A run of a script. -/
structure Invocation where
  script : String
  threadName : Option String := none
  functionName : String := "main"
  arguments : List String := []
  /-- The path of the configuration. -/
  config : Option String := none
  deriving DecidableEq

inductive Request where
  | help
  | run (i : Invocation)
  deriving DecidableEq

/-- The options that have a value. -/
inductive OptionName where
  | config | thread | function
  deriving DecidableEq

namespace OptionName

def long : OptionName → String
  | .config => "config"
  | .thread => "thread"
  | .function => "function"

def short : OptionName → Char
  | .config => 'c'
  | .thread => 't'
  | .function => 'f'

def all : List OptionName := [.config, .thread, .function]

end OptionName

/-- Why a command line asks for nothing. -/
inductive UsageError where
  | missingCommand
  | unknownCommand (word : String)
  | missingScript
  | unexpected (word : String)
  | missingValue (o : OptionName)
  | repeated (o : OptionName)
  deriving DecidableEq

def UsageError.message : UsageError → String
  | .missingCommand => "a command is needed"
  | .unknownCommand word => s!"unknown command '{word}'"
  | .missingScript => "a script is needed"
  | .unexpected word => s!"unexpected argument '{word}'"
  | .missingValue o => s!"a value is needed for '--{o.long}'"
  | .repeated o => s!"'--{o.long}' is given more than once"

/-! ## Words -/

/-- What a word on the command line is by its look. -/
inductive Word where
  | plain
  /-- What follows is plain, however it looks. -/
  | stop
  | help
  /-- An option, whose value may be in the word. -/
  | option (o : OptionName) (value : Option String)
  | unknown
  deriving DecidableEq

/-- Whether a word looks like an option. -/
def isOptionLike (word : String) : Bool :=
  match word.toList with
  | '-' :: _ :: _ => true
  | _ => false

/-- A word behind two dashes. -/
def longWord (cs : List Char) : Word :=
  let (name, rest) := cs.span (· != '=')
  let name := String.ofList name
  match rest, OptionName.all.find? fun o => o.long == name with
  | [], some o => .option o none
  | _ :: value, some o => .option o (some (String.ofList value))
  | [], none => if name == "help" then .help else .unknown
  | _, none => .unknown

/-- A word behind one dash: a letter, and a value perhaps. -/
def shortWord (c : Char) (cs : List Char) : Word :=
  match OptionName.all.find? fun o => o.short == c with
  | some o =>
    match cs with
    | [] => .option o none
    | '=' :: value => .option o (some (String.ofList value))
    | value => .option o (some (String.ofList value))
  | none => if c == 'h' then .help else .unknown

def Word.of (word : String) : Word :=
  match word.toList with
  | ['-', '-'] => .stop
  | '-' :: '-' :: cs => longWord cs
  | '-' :: c :: cs => shortWord c cs
  | _ => .plain

/-! ## Command lines -/

/-- What has been read of a command line. -/
structure Draft where
  /-- Whether the command has been read. -/
  inRun : Bool := false
  config : Option String := none
  threadName : Option String := none
  functionName : Option String := none
  /-- The plain words, last first. -/
  words : List String := []

namespace Draft

/-- Whether an option may stand here; before the command only one may. -/
def takes (d : Draft) (o : OptionName) : Bool := d.inRun || o == .config

/-- Stores the value of an option, which is given once; a path is not empty. -/
def store (d : Draft) (o : OptionName) (value : String) : Except UsageError Draft :=
  match o with
  | .config =>
    if d.config.isSome then .error (.repeated o)
    else if value.isEmpty then .error (.missingValue o)
    else .ok { d with config := some value }
  | .thread =>
    if d.threadName.isSome then .error (.repeated o) else .ok { d with threadName := some value }
  | .function =>
    if d.functionName.isSome then .error (.repeated o) else .ok { d with functionName := some value }

/-- What a draft asks for at the end of the line. An option before the command gives way to one behind
it. -/
def request (d : Draft) (before : Option String) : Except UsageError Request :=
  match d.inRun, d.words.reverse with
  | false, _ => .error .missingCommand
  | true, [] => .error .missingScript
  | true, script :: arguments => .ok (.run {
      script, arguments, threadName := d.threadName, functionName := d.functionName.getD "main"
      config := d.config.or before })

end Draft

/-- What is asked for behind the word that asks for help. -/
def readHelp : List String → Except UsageError Request
  | [] => .ok .help
  | ["run"] => .ok .help
  | ["help"] => .ok .help
  | word :: _ => .error (.unknownCommand word)

/-- Reads a command line from what has been read of it and the path that was given before the
command. -/
def readFrom (d : Draft) (before : Option String) : List String → Except UsageError Request
  | [] => d.request before
  | word :: rest =>
    match Word.of word with
    | .plain =>
      if d.inRun then readFrom { d with words := word :: d.words } before rest
      else if word == "run" then readFrom { inRun := true } d.config rest
      else if word == "help" then readHelp rest
      else .error (.unknownCommand word)
    | .stop =>
      if d.inRun then { d with words := rest.reverse ++ d.words }.request before
      else match rest with
        | [] => .error .missingCommand
        | word :: _ => .error (.unexpected word)
    | .help => .ok .help
    | .unknown => .error (.unexpected word)
    | .option o value =>
      if !d.takes o then .error (.unexpected word)
      else match value, rest with
        | some value, rest =>
          match d.store o value with
          | .ok d => readFrom d before rest
          | .error e => .error e
        | none, [] => .error (.missingValue o)
        | none, value :: rest =>
          if isOptionLike value then .error (.missingValue o)
          else match d.store o value with
            | .ok d => readFrom d before rest
            | .error e => .error e

/-- Reads a command line. -/
def read (args : List String) : Except UsageError Request := readFrom {} none args

/-- The text that helps a user. -/
def helpText : String :=
  "Run scripts with messaging and network access\n\n" ++
  "Usage: scripthost [OPTIONS] run [OPTIONS] <SCRIPT> [ARGS]...\n\n" ++
  "Options:\n" ++
  "  -c, --config <CONFIG>      Configuration file (TOML)\n" ++
  "  -t, --thread <THREAD>      Thread name; defaults to the script id\n" ++
  "  -f, --function <FUNCTION>  Function to call [default: main]\n" ++
  "  -h, --help                 Print help\n"

end Scripting.Cli
