/-
Reading scripts: from tokens to statements. A text that breaks a rule of the language in any place is
no script at all, so a reader only tells whether there is one.
-/
import Scripting.Js.Syntax
import Scripting.Js.Token

namespace Scripting.Js

/-- What is left of a script, and what surrounds the place. -/
structure Cursor where
  rest : List Lexeme
  inFunction : Bool := false
  inLoop : Bool := false

abbrev Parse := StateT Cursor Option

/-- The readers that call each other, each good for a text of limited depth. -/
structure Grammar where
  primary : Parse Expr
  unary : Parse Expr
  assignment : Parse Expr
  statement : Parse Statement

namespace Parse

/-! ## Tokens -/

def refuse {α : Type} : Parse α := StateT.lift none

/-- The next token. -/
def peek : Parse (Option Token) := return (← get).rest.head?.map Lexeme.token

def isNext (t : Token) : Parse Bool := return (← peek) = some t

/-- Whether the next token comes behind a line break. -/
def isBroken : Parse Bool := return (← get).rest.head?.any Lexeme.afterBreak

def advance : Parse Unit := modify fun c => { c with rest := c.rest.tail }

/-- Takes a token if it is the next. -/
def takes (t : Token) : Parse Bool := do
  if ← isNext t then
    advance
    return true
  else return false

def takesMark (m : String) : Parse Bool := takes (.mark m)

def takesWord (w : String) : Parse Bool := takes (.word w)

def need (t : Token) : Parse Unit := do
  if ← takes t then return () else refuse

def needMark (m : String) : Parse Unit := need (.mark m)

/-- More steps than any reader takes that goes on by a token each. -/
def length : Parse Nat := return (← get).rest.length + 1

/-- Reads where the surroundings are others, and restores them. -/
def within {α : Type} (inFunction inLoop : Bool) (p : Parse α) : Parse α := do
  let c ← get
  set { c with inFunction, inLoop }
  let a ← p
  modify fun c' => { c' with inFunction := c.inFunction, inLoop := c.inLoop }
  return a

/-- Reads the body of a loop. -/
def inLoop {α : Type} (p : Parse α) : Parse α := do within (← get).inFunction true p

/-! ## Names -/

/-- The words that name nothing. -/
def reserved : List String :=
  ["break", "case", "catch", "class", "const", "continue", "debugger", "default", "delete", "do",
    "else", "enum", "export", "extends", "false", "finally", "for", "function", "if", "import", "in",
    "instanceof", "new", "null", "return", "super", "switch", "this", "throw", "true", "try", "typeof",
    "var", "void", "while", "with", "implements", "interface", "let", "package", "private",
    "protected", "public", "static", "yield"]

/-- Whether a word may name a variable. -/
def isName (w : String) : Bool := !reserved.contains w

/-- Whether a word may name a variable that is made or changed. -/
def isTarget (w : String) : Bool := isName w && w != "eval" && w != "arguments"

/-- A name that is declared. -/
def binding : Parse String := do
  match ← peek with
  | some (.word w) => if isTarget w then do advance; return w else refuse
  | _ => refuse

/-! ## Lists -/

/-- What follows up to a closing token. The fuel is the number of tokens. -/
def upTo {α : Type} (close : Token) (item : Parse α) : Nat → Parse (List α)
  | 0 => refuse
  | n + 1 => do
    if ← takes close then return []
    else do
      let a ← item
      return a :: (← upTo close item n)

/-- Items between commas up to a closing mark; a comma may follow on the last. -/
def listed {α : Type} (close : String) (item : Parse α) : Nat → Parse (List α)
  | 0 => refuse
  | n + 1 => do
    if ← takesMark close then return []
    else do
      let a ← item
      if ← takesMark "," then return a :: (← listed close item n)
      else do
        needMark close
        return [a]

/-- At least one item, with commas between. -/
def separated {α : Type} (item : Parse α) : Nat → Parse (List α)
  | 0 => refuse
  | n + 1 => do
    let a ← item
    if ← takesMark "," then return a :: (← separated item n) else return [a]

/-- Goes on from an expression for as long as there is more of it. -/
def extended (more : Expr → Parse (Option Expr)) : Nat → Expr → Parse Expr
  | 0, _ => refuse
  | n + 1, e => do
    match ← more e with
    | some e => extended more n e
    | none => return e

/-! ## Functions -/

/-- Whether the names that a function declares may stand side by side. -/
def isSound (params : List String) (body : List Statement) : Bool :=
  params.Nodup && Statement.isConsistent true body &&
    (Statement.lexicalNames body).all fun b => !params.contains b.1

/-- The body of a function behind its opening brace. -/
def functionBody (g : Grammar) (params : List String) : Parse (List Statement) := do
  needMark "\x7b"
  let body ← within true false (do upTo (.mark "\x7d") g.statement (← length))
  if isSound params body then return body else refuse

/-- A function behind its name. -/
def functionRest (g : Grammar) (name : String) : Parse FunctionCode := do
  needMark "("
  let params ← listed ")" binding (← length)
  return .mk name params (← functionBody g params) false

/-- A function with or without a name. -/
def function (g : Grammar) : Parse FunctionCode := do
  if ← isNext (.mark "(") then functionRest g "" else functionRest g (← binding)

/-- The parameters of an arrow function, with the arrow. -/
def arrowParams (c : List Lexeme) : Option (List String × List Lexeme) := do
  let arrow (params : List String) (rest : List Lexeme) : Option (List String × List Lexeme) :=
    match rest with
    | ⟨.mark "=>", false⟩ :: rest => some (params, rest)
    | _ => none
  match c with
  | ⟨.word w, _⟩ :: rest => if isTarget w then arrow [w] rest else none
  | ⟨.mark "(", _⟩ :: rest =>
    match (listed ")" binding (rest.length + 1)).run { rest } with
    | some (params, c) => arrow params c.rest
    | none => none
  | _ => none

/-- The body of an arrow function: an expression, or statements in braces. -/
def arrowBody (g : Grammar) (params : List String) : Parse FunctionCode := do
  if ← isNext (.mark "\x7b") then return .mk "" params (← functionBody g params) true
  else do
    let e ← g.assignment
    if params.Nodup then return .mk "" params [.result (some e)] true else refuse

/-! ## Primary expressions -/

/-- All of an expression, commas included. -/
def expression (g : Grammar) : Parse Expr := do
  match ← separated g.assignment (← length) with
  | e :: rest => return rest.foldl .sequence e
  | [] => refuse

/-- An item of an array, none where it is left out. -/
def item (g : Grammar) : Parse (Option Expr) := do
  if ← isNext (.mark ",") then return none else some <$> g.assignment

/-- The name of a member; half of a character that stands alone in it is replaced. -/
def memberName (g : Grammar) : Parse Expr := do
  match ← peek with
  | some (.word w) => do advance; return .string w
  | some (.string s) => do advance; return .string s
  | some (.broken t) => do advance; return .string t.replaced
  | some (.number n) => do advance; return .string n.text
  | some (.mark "[") => do
    advance
    let e ← g.assignment
    needMark "]"
    return e
  | _ => refuse

/-- Whether the member that a word begins ends behind the word. -/
def endsMember : Parse Bool := do
  return (← isNext (.mark ",")) || (← isNext (.mark "\x7d"))

/-- A member of an object. -/
def member (g : Grammar) : Parse Member := do
  let start ← peek
  let name ← memberName g
  match start with
  | some (.word w) =>
    if ← endsMember then
      if isName w then return .value name (.name w) else refuse
    else if ← takesMark ":" then return .value name (← g.assignment)
    else if ← isNext (.mark "(") then return .value name (.function (← functionRest g ""))
    else if w == "get" then
      let name ← memberName g
      return .getter name (← functionRest g "")
    else refuse
  | _ =>
    if ← takesMark ":" then return .value name (← g.assignment)
    else return .value name (.function (← functionRest g ""))

/-- The arguments of a call. -/
def arguments (g : Grammar) : Parse (List Expr) := do
  needMark "("
  listed ")" g.assignment (← length)

/-- What follows on a value: a member by name or by index. -/
def memberStep (g : Grammar) (e : Expr) : Parse (Option Expr) := do
  if ← takesMark "." then
    match ← peek with
    | some (.word w) => do advance; return some (.member e w)
    | _ => refuse
  else if ← takesMark "[" then do
    let i ← expression g
    needMark "]"
    return some (.index e i)
  else return none

/-- What follows on a value, calls included. -/
def callStep (g : Grammar) (e : Expr) : Parse (Option Expr) := do
  if ← isNext (.mark "(") then return some (.call e (← arguments g)) else memberStep g e

/-- A new object: the constructor is a value with members, and its arguments may be left out. -/
def construction (g : Grammar) : Parse Expr := do
  let f ← extended (memberStep g) (← length) (← g.primary)
  if ← isNext (.mark "(") then return .new f (← arguments g) else return .new f []

def word (g : Grammar) (w : String) : Parse Expr := do
  advance
  match w with
  | "null" => return .null
  | "true" => return .bool true
  | "false" => return .bool false
  | "this" => return .this
  | "function" => .function <$> function g
  | "new" => construction g
  | _ => if isName w then return .name w else refuse

def primary (g : Grammar) : Parse Expr := do
  match ← peek with
  | some (.word w) => word g w
  | some (.number n) => do advance; return .number n
  | some (.string s) => do advance; return .string s
  | some (.broken t) => do advance; return .broken t
  | some (.mark "(") => do
    advance
    let e ← expression g
    needMark ")"
    return e
  | some (.mark "[") => do advance; return .array (← listed "]" (item g) (← length))
  | some (.mark "\x7b") => do advance; return .object (← listed "\x7d" (member g) (← length))
  | _ => refuse

/-! ## Operators -/

/-- Whether an expression can be assigned to. -/
def isAssignable : Expr → Bool
  | .name w => isTarget w
  | .member .. => true
  | .index .. => true
  | _ => false

/-- A value with its members and calls, and with a step behind it perhaps. -/
def counted (g : Grammar) : Parse Expr := do
  let e ← extended (callStep g) (← length) (← primary g)
  if ← isBroken then return e
  else if ← takesMark "++" then
    if isAssignable e then return .step e true false else refuse
  else if ← takesMark "--" then
    if isAssignable e then return .step e false false else refuse
  else return e

/-- The operator that a token is in front of a value. -/
def unaryOp : Token → Option UnaryOp
  | .mark "-" => some .minus
  | .mark "+" => some .plus
  | .mark "!" => some .not
  | .word "typeof" => some .typeOf
  | .word "void" => some .void
  | _ => none

def unary (g : Grammar) : Parse Expr := do
  match ← peek with
  | some t =>
    if t = .mark "++" ∨ t = .mark "--" then do
      advance
      let e ← g.unary
      if isAssignable e then return .step e (t = .mark "++") true else refuse
    else if t = .word "delete" then do
      advance
      match ← g.unary with
      | .name _ => refuse
      | e => return .delete e
    else match unaryOp t with
      | some op => do
        advance
        return .unary op (← g.unary)
      | none => counted g
  | none => refuse

/-- The operators between two values, from those that bind least; a level binds to the left. -/
def levels : List (List (Token × (Expr → Expr → Expr))) :=
  [[(.mark "||", .logical .or)],
    [(.mark "&&", .logical .and)],
    [(.mark "===", .binary .strictEqual), (.mark "!==", .binary .strictUnequal),
      (.mark "==", .binary .equal), (.mark "!=", .binary .unequal)],
    [(.mark "<", .binary .less), (.mark "<=", .binary .lessEqual), (.mark ">", .binary .greater),
      (.mark ">=", .binary .greaterEqual), (.word "instanceof", .binary .instanceOf),
      (.word "in", .binary .inside)],
    [(.mark "+", .binary .add), (.mark "-", .binary .sub)],
    [(.mark "*", .binary .mul), (.mark "/", .binary .div), (.mark "%", .binary .rem)]]

/-- An expression of the operators of some levels. -/
def operation (g : Grammar) : List (List (Token × (Expr → Expr → Expr))) → Parse Expr
  | [] => unary g
  | level :: rest => do
    let more (a : Expr) : Parse (Option Expr) := do
      match (← peek).bind fun t => level.lookup t with
      | some op => do
        advance
        return some (op a (← operation g rest))
      | none => return none
    extended more (← length) (← operation g rest)

/-- The operations that can go with an assignment. -/
def compound : List (String × Option BinaryOp) :=
  [("=", none), ("+=", some .add), ("-=", some .sub), ("*=", some .mul), ("/=", some .div),
    ("%=", some .rem)]

def assignment (g : Grammar) : Parse Expr := do
  let c ← get
  match arrowParams c.rest with
  | some (params, rest) => do
    set { c with rest }
    .function <$> arrowBody g params
  | none => do
    let e ← operation g levels
    if ← takesMark "?" then do
      let a ← g.assignment
      needMark ":"
      return .conditional e a (← g.assignment)
    else
      match ← peek with
      | some (.mark m) =>
        match compound.lookup m with
        | some op =>
          if isAssignable e then do
            advance
            return .assign e op (← g.assignment)
          else refuse
        | none => return e
      | _ => return e

/-! ## Statements -/

/-- The end of a statement: a semicolon, or what stands for one. -/
def endStatement : Parse Unit := do
  if ← takesMark ";" then return ()
  else if (← peek).isNone || (← isNext (.mark "\x7d")) || (← isBroken) then return ()
  else refuse

/-- A block behind its opening brace. -/
def block (g : Grammar) : Parse (List Statement) := do
  needMark "\x7b"
  let body ← upTo (.mark "\x7d") g.statement (← length)
  if Statement.isConsistent false body then return body else refuse

/-- A declared name with its first value; a constant needs one. -/
def declared (g : Grammar) (d : Declaration) : Parse (String × Option Expr) := do
  let name ← binding
  if ← takesMark "=" then return (name, some (← g.assignment))
  else if d = .lexical false then refuse
  else return (name, none)

/-- The way of declaring that a word begins. -/
def declaration : Token → Option Declaration
  | .word "var" => some .var
  | .word "let" => some (.lexical true)
  | .word "const" => some (.lexical false)
  | _ => none

/-- A declaration behind its word, without its end. -/
def declare (g : Grammar) (d : Declaration) : Parse Statement := do
  let items ← separated (declared g d) (← length)
  return .declare d items

/-- A condition in parentheses. -/
def condition (g : Grammar) : Parse Expr := do
  needMark "("
  let e ← expression g
  needMark ")"
  return e

/-- A statement that is no declaration for a block of its own. -/
def nested (g : Grammar) : Parse Statement := do
  match ← g.statement with
  | .declare (.lexical _) _ => refuse
  | .function .. => refuse
  | s => return s

/-- An expression that a mark may stand in place of. -/
def optional (g : Grammar) (close : String) : Parse (Option Expr) := do
  if ← takesMark close then return none
  else do
    let e ← expression g
    needMark close
    return some e

/-- The start of a counting loop, with its semicolon. -/
def loopStart (g : Grammar) : Parse (Option Statement) := do
  match (← peek).bind declaration with
  | some d => do
    advance
    let s ← declare g d
    needMark ";"
    if Statement.isConsistent false [s] then return some s else refuse
  | none => return (← optional g ";").map .expr

/-- The handler of an exception: the name that it gets, and its statements. -/
def handler (g : Grammar) : Parse (Option String × List Statement) := do
  if ← takesMark "(" then do
    let name ← binding
    needMark ")"
    let body ← block g
    if (Statement.lexicalNames body).all fun b => b.1 != name then return (some name, body)
    else refuse
  else return (none, ← block g)

/-- A statement that a word of the language begins; the word is taken. -/
def keyword (g : Grammar) (w : String) : Parse (Option Statement) := do
  match w with
  | "function" => do
    let name ← binding
    return some (.function name (← functionRest g name))
  | "if" => do
    let test ← condition g
    let yes ← nested g
    if ← takesWord "else" then return some (.choose test yes (some (← nested g)))
    else return some (.choose test yes none)
  | "while" => do
    let test ← condition g
    return some (.loopWhile test (← inLoop (nested g)))
  | "do" => do
    let body ← inLoop (nested g)
    need (.word "while")
    let test ← condition g
    let _ ← takesMark ";"
    return some (.loopUntil body test)
  | "for" => do
    needMark "("
    let start ← loopStart g
    let test ← optional g ";"
    let update ← optional g ")"
    return some (.loopFor start test update (← inLoop (nested g)))
  | "return" => do
    if !(← get).inFunction then refuse
    else if (← isNext (.mark ";")) || (← isNext (.mark "\x7d")) || (← isBroken) || (← peek).isNone
    then do
      endStatement
      return some (.result none)
    else do
      let e ← expression g
      endStatement
      return some (.result (some e))
  | "throw" => do
    if ← isBroken then refuse
    else do
      let e ← expression g
      endStatement
      return some (.throw e)
  | "try" => do
    let body ← block g
    let caught ← if ← takesWord "catch" then some <$> handler g else pure none
    let last ← if ← takesWord "finally" then some <$> block g else pure none
    if caught.isNone && last.isNone then refuse else return some (.attempt body caught last)
  | "break" => do
    endStatement
    if (← get).inLoop then return some .leave else refuse
  | "continue" => do
    endStatement
    if (← get).inLoop then return some .next else refuse
  | _ => return none

def expressionStatement (g : Grammar) : Parse Statement := do
  let e ← expression g
  endStatement
  return .expr e

def statement (g : Grammar) : Parse Statement := do
  if ← isNext (.mark "\x7b") then return .block (← block g)
  else if ← takesMark ";" then return .empty
  else match ← peek with
    | some (.word w) =>
      match declaration (.word w) with
      | some d => do
        advance
        let s ← declare g d
        endStatement
        return s
      | none => do
        let c ← get
        advance
        match ← keyword g w with
        | some s => return s
        | none => do
          set c
          expressionStatement g
    | _ => expressionStatement g

end Parse

/-! ## Scripts -/

/-- The readers for texts of limited depth. -/
def Grammar.ofDepth : Nat → Grammar
  | 0 => ⟨Parse.refuse, Parse.refuse, Parse.refuse, Parse.refuse⟩
  | n + 1 => {
      primary := fun c => Parse.primary (ofDepth n) c
      unary := fun c => Parse.unary (ofDepth n) c
      assignment := fun c => Parse.assignment (ofDepth n) c
      statement := fun c => Parse.statement (ofDepth n) c }

/-- All statements of a script. -/
def Parse.script (g : Grammar) : Nat → Parse (List Statement)
  | 0 => refuse
  | n + 1 => do
    if (← peek).isNone then return []
    else do
      let s ← g.statement
      return s :: (← script g n)

/-- The script of a text. Of two readers that call each other, one takes a token. -/
def parse? (text : String) : Option (List Statement) := do
  let rest ← Token.ofText? text
  let n := rest.length + 1
  let (body, _) ← (Parse.script (Grammar.ofDepth (2 * n)) n).run { rest }
  if Statement.isConsistent true body then some body else none

end Scripting.Js
