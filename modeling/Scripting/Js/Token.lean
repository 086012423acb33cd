/-
The tokens of scripts: names, numbers, strings and marks, without the blanks and comments between
them. A token knows whether a line break comes before it, as some line breaks end statements.
-/
import Scripting.Js.Number
import Scripting.Text.Units

namespace Scripting.Js

inductive Token where
  /-- A name or a word of the language. -/
  | word (s : String)
  | number (n : Number)
  | string (s : String)
  /-- A string in which half of a character stands alone. -/
  | broken (t : Text.Broken)
  | mark (s : String)
  deriving DecidableEq, Inhabited

/-- A token in its place. -/
structure Lexeme where
  token : Token
  afterBreak : Bool
  deriving DecidableEq, Inhabited

namespace Token

/-! ## Classes of characters -/

def isLineBreak (c : Char) : Bool := c == '\n' || c == '\r' || c == '\u2028' || c == '\u2029'

def isSpace (c : Char) : Bool := (Text.isBlank c || c == '\ufeff') && !isLineBreak c

/-- Whether a character may begin a name; every character beyond ASCII may. -/
def isNameStart (c : Char) : Bool :=
  c.isAlpha || c == '_' || c == '$' || (0x80 ≤ c.toNat && !isSpace c && !isLineBreak c)

def isNamePart (c : Char) : Bool := isNameStart c || c.isDigit

/-! ## Strings -/

/-- The string of code units. -/
def ofUnits (units : List Nat) : Token :=
  match Text.ofUnits units with
  | .ok s => .string s
  | .error t => .broken t

/-- The code of four hexadecimal digits. -/
def unit? (cs : List Char) : Option Nat :=
  if cs.length == 4 && cs.all Number.isHexDigit then some (Number.ofDigits 16 cs) else none

/-- The code units that an escape stands for, and the text behind it. -/
def escape? (cs : List Char) : Option (List Nat × List Char) :=
  match cs with
  | 'n' :: rest => some ([0x0a], rest)
  | 't' :: rest => some ([0x09], rest)
  | 'r' :: rest => some ([0x0d], rest)
  | 'b' :: rest => some ([0x08], rest)
  | 'f' :: rest => some ([0x0c], rest)
  | 'v' :: rest => some ([0x0b], rest)
  | '0' :: rest => if rest.head?.any Char.isDigit then none else some ([0x00], rest)
  | '\r' :: '\n' :: rest => some ([], rest)
  | 'x' :: a :: b :: rest =>
    if [a, b].all Number.isHexDigit then some ([Number.ofDigits 16 [a, b]], rest) else none
  | 'u' :: '\x7b' :: rest =>
    let (digits, rest) := rest.span Number.isHexDigit
    let n := Number.ofDigits 16 digits
    match rest with
    | '\x7d' :: rest =>
      if digits.isEmpty || 0x10ffff < n then none else some (Text.unitsOfCode n, rest)
    | _ => none
  | 'u' :: rest => (unit? (rest.take 4)).map fun n => ([n], rest.drop 4)
  | c :: rest =>
    if isLineBreak c then some ([], rest)
    else if c.isDigit then none
    else some (Text.unitsOfCode c.toNat, rest)
  | [] => none

/-- The rest of a string up to its quote, after so many code units, last first. The fuel is the length
of the text. -/
def stringRest (quote : Char) (read : List Nat) : Nat → List Char → Option (Token × List Char)
  | 0, _ => none
  | n + 1, cs =>
    match cs with
    | '\\' :: rest =>
      match escape? rest with
      | some (units, rest) => stringRest quote (units.reverse ++ read) n rest
      | none => none
    | c :: rest =>
      if c = quote then some (ofUnits read.reverse, rest)
      else if c == '\n' || c == '\r' then none
      else stringRest quote ((Text.unitsOfCode c.toNat).reverse ++ read) n rest
    | [] => none

/-! ## Marks -/

/-- The marks, the longer before the shorter that they begin with. -/
def marks : List String :=
  ["===", "!==", "=>", "==", "!=", "<=", ">=", "&&", "||", "++", "--", "+=", "-=", "*=", "/=", "%=",
    "\x7b", "\x7d", "(", ")", "[", "]", ";", ",", "<", ">", "+", "-", "*", "/", "%", "!", "=", "?",
    ":", "."]

def mark? (cs : List Char) : Option (String × List Char) :=
  (marks.find? fun m => m.toList.isPrefixOf cs).map fun m => (m, cs.drop m.length)

/-! ## Tokens -/

/-- A number at the start of a text. No name may follow on it. -/
def number? (cs : List Char) : Option (Number × List Char) :=
  let r := match cs with
    | '0' :: x :: rest =>
      if x == 'x' || x == 'X' then
        let (digits, rest) := rest.span Number.isHexDigit
        if digits.isEmpty then none else some (Number.ofHex digits, rest)
      else if x.isDigit then none
      else Number.spanDecimal cs
    | _ => Number.spanDecimal cs
  r.filter fun (_, rest) => !rest.head?.any isNamePart

/-- The token at the start of a text that is no blank. -/
def first? (cs : List Char) : Option (Token × List Char) :=
  match cs with
  | [] => none
  | c :: rest =>
    if isNameStart c then
      let (name, rest) := cs.span isNamePart
      some (.word (String.ofList name), rest)
    else if c == '"' || c == '\'' then stringRest c [] (rest.length + 1) rest
    else if c.isDigit || (c == '.' && rest.head?.any Char.isDigit) then do
      let (n, rest) ← number? cs
      return (.number n, rest)
    else do
      let (m, rest) ← mark? cs
      return (.mark m, rest)

/-- The text behind a comment of many lines, and whether a line break is in it. -/
def skipComment (sawBreak : Bool) : List Char → Option (Bool × List Char)
  | '*' :: '/' :: rest => some (sawBreak, rest)
  | c :: rest => skipComment (sawBreak || isLineBreak c) rest
  | [] => none

/-- The tokens of a text. The fuel is the length of the text. -/
def scan (afterBreak : Bool) : Nat → List Char → Option (List Lexeme)
  | 0, _ => none
  | n + 1, cs =>
    match cs with
    | [] => some []
    | '/' :: '/' :: rest => scan afterBreak n (rest.dropWhile (!isLineBreak ·))
    | '/' :: '*' :: rest =>
      match skipComment false rest with
      | some (sawBreak, rest) => scan (afterBreak || sawBreak) n rest
      | none => none
    | c :: rest =>
      if isLineBreak c then scan true n rest
      else if isSpace c then scan afterBreak n rest
      else do
        let (token, rest) ← first? cs
        return ⟨token, afterBreak⟩ :: (← scan false n rest)

def ofText? (s : String) : Option (List Lexeme) := scan true (s.length + 1) s.toList

end Token

end Scripting.Js
