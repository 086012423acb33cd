/-
The tokens of JSON text. The text is read one character at a time by a machine whose state says what
the character stands in, so reading is a fold over the characters.
-/
import Scripting.Json.Number

namespace Scripting.Json

inductive Token where
  | openBrace | closeBrace | openBracket | closeBracket | comma | colon
  | null | bool (b : Bool) | number (n : Number) | string (s : String)
  deriving Inhabited

/-- What the next character stands in. The characters of an open token are kept last first. -/
inductive Reading where
  | between
  | word (chars : List Char)
  | number (chars : List Char)
  | string (chars : List Char)
  /-- Behind a backslash; `high` is the first half of a surrogate pair that waits for its second. -/
  | escape (chars : List Char) (high : Option Nat)
  /-- Inside the four digits of a code, with the number of digits still to come. -/
  | code (chars : List Char) (high : Option Nat) (missing value : Nat)
  /-- Behind the first half of a surrogate pair: a backslash must follow. -/
  | pair (chars : List Char) (high : Nat)

/-- A reader in the middle of a text: the tokens that are complete, last first. -/
structure Lexer where
  reading : Reading
  tokens : List Token

namespace Lexer

def start : Lexer := ⟨.between, []⟩

/-- Whether a character is a blank between tokens. -/
def isBlank (c : Char) : Bool := c == ' ' || c == '\n' || c == '\t' || c == '\r'

/-- The token of a single mark. -/
def mark? : Char → Option Token
  | '{' => some .openBrace
  | '}' => some .closeBrace
  | '[' => some .openBracket
  | ']' => some .closeBracket
  | ',' => some .comma
  | ':' => some .colon
  | _ => none

/-- The token of a bare word. -/
def word? (chars : List Char) : Option Token :=
  match String.ofList chars.reverse with
  | "null" => some .null
  | "true" => some (.bool true)
  | "false" => some (.bool false)
  | _ => none

def isNumberChar (c : Char) : Bool :=
  c.isDigit || c == '-' || c == '+' || c == '.' || c == 'e' || c == 'E'

/-- A character between two tokens. -/
def begin (l : Lexer) (c : Char) : Option Lexer :=
  if isBlank c then some { l with reading := .between }
  else match mark? c with
    | some t => some ⟨.between, t :: l.tokens⟩
    | none =>
      if c == '"' then some { l with reading := .string [] }
      else if c.isDigit || c == '-' then some { l with reading := .number [c] }
      else if c.isAlpha then some { l with reading := .word [c] }
      else none

/-- Ends the token that is open, where it may end here. -/
def finish (l : Lexer) : Option Lexer :=
  match l.reading with
  | .between => some l
  | .word chars => (word? chars).map fun t => ⟨.between, t :: l.tokens⟩
  | .number chars => (Number.read? chars.reverse).map fun n => ⟨.between, .number n :: l.tokens⟩
  | _ => none

/-- The character of a one-letter escape. -/
def escaped? : Char → Option Char
  | '"' => some '"'
  | '\\' => some '\\'
  | '/' => some '/'
  | 'b' => some '\x08'
  | 'f' => some '\x0c'
  | 'n' => some '\n'
  | 'r' => some '\r'
  | 't' => some '\t'
  | _ => none

/-- The value of a hexadecimal digit. -/
def hexDigit? (c : Char) : Option Nat :=
  if c.isDigit then some (c.toNat - '0'.toNat)
  else if 'a' ≤ c ∧ c ≤ 'f' then some (c.toNat - 'a'.toNat + 10)
  else if 'A' ≤ c ∧ c ≤ 'F' then some (c.toNat - 'A'.toNat + 10)
  else none

/-- The state behind a complete four-digit code: a character, or half of a surrogate pair. -/
def coded? (chars : List Char) (high : Option Nat) (value : Nat) : Option Reading :=
  let isLow := 0xDC00 ≤ value && value < 0xE000
  match high with
  | some h =>
    if isLow then
      some (.string (Char.ofNat (0x10000 + (h - 0xD800) * 0x400 + (value - 0xDC00)) :: chars))
    else none
  | none =>
    if isLow then none
    else if 0xD800 ≤ value ∧ value < 0xDC00 then some (.pair chars value)
    else some (.string (Char.ofNat value :: chars))

/-- One character further. -/
def step (l : Lexer) (c : Char) : Option Lexer :=
  match l.reading with
  | .between => l.begin c
  | .word chars =>
    if c.isAlpha then some { l with reading := .word (c :: chars) }
    else l.finish >>= (·.begin c)
  | .number chars =>
    if isNumberChar c then some { l with reading := .number (c :: chars) }
    else l.finish >>= (·.begin c)
  | .string chars =>
    if c == '"' then some ⟨.between, .string (String.ofList chars.reverse) :: l.tokens⟩
    else if c == '\\' then some { l with reading := .escape chars none }
    else if c.toNat < 0x20 then none
    else some { l with reading := .string (c :: chars) }
  | .escape chars high =>
    if c == 'u' then some { l with reading := .code chars high 4 0 }
    else if high.isSome then none
    else (escaped? c).map fun e => { l with reading := .string (e :: chars) }
  | .code chars high missing value =>
    hexDigit? c >>= fun d =>
      let value := value * 16 + d
      if missing ≤ 1 then (coded? chars high value).map fun r => { l with reading := r }
      else some { l with reading := .code chars high (missing - 1) value }
  | .pair chars high =>
    if c == '\\' then some { l with reading := .escape chars (some high) } else none

end Lexer

/-- The tokens of a text. -/
def tokens? (text : String) : Option (List Token) :=
  text.toList.foldlM Lexer.step Lexer.start >>= fun l => l.finish.map (·.tokens.reverse)

end Scripting.Json
