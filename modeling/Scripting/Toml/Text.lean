/-
Strings, keys, blanks and comments of a document. A reader takes the rest of the document and gives
what it read and the rest behind it.
-/
import Scripting.Toml.Scalar

namespace Scripting.Toml

/-! ## Blanks and comments -/

def isSpace (c : Char) : Bool := c == ' ' || c == '\t'

def skipSpaces (cs : List Char) : List Char := cs.dropWhile isSpace

/-- Whether a character that is no line break may stand in a comment or a literal string. -/
def isTextChar (c : Char) : Bool := c == '\t' || (0x20 ≤ c.toNat && c.toNat != 0x7f)

/-- The text behind blanks, line breaks and comments. -/
def skipLines (inComment : Bool) : List Char → List Char
  | [] => []
  | '\n' :: rest => skipLines false rest
  | '\r' :: '\n' :: rest => skipLines false rest
  | c :: rest =>
    if inComment then (if isTextChar c then skipLines true rest else c :: rest)
    else if c == '#' then skipLines true rest
    else if isSpace c then skipLines false rest
    else c :: rest

/-- The text behind the end of a line, where only blanks and a comment are left on it. -/
def endLine? (cs : List Char) : Option (List Char) :=
  let cs := match skipSpaces cs with
    | '#' :: rest => rest.dropWhile isTextChar
    | cs => cs
  match cs with
  | [] => some []
  | '\n' :: rest => some rest
  | '\r' :: '\n' :: rest => some rest
  | _ => none

/-! ## Strings -/

def escaped? : Char → Option Char
  | 'b' => some '\x08'
  | 't' => some '\t'
  | 'n' => some '\n'
  | 'f' => some '\x0c'
  | 'r' => some '\r'
  | '"' => some '"'
  | '\\' => some '\\'
  | _ => none

/-- The character of a hexadecimal code. -/
def coded? (cs : List Char) : Option Char :=
  if cs.all isHexDigit then
    let n := ofDigits 16 (cs.map digitValue)
    if n.isValidChar then some (Char.ofNat n) else none
  else none

/-- Text behind a backslash: the character it stands for, and the rest. -/
def escape? : List Char → Option (Char × List Char)
  | 'u' :: rest => if rest.length < 4 then none else (·, rest.drop 4) <$> coded? (rest.take 4)
  | 'U' :: rest => if rest.length < 8 then none else (·, rest.drop 8) <$> coded? (rest.take 8)
  | c :: rest => (·, rest) <$> escaped? c
  | [] => none

/-- The rest of a string on one line, after so many characters, last first. The fuel is the length of
the document. -/
def basicString (read : List Char) : Nat → List Char → Option (String × List Char)
  | 0, _ => none
  | n + 1, cs =>
    match cs with
    | '"' :: rest => some (String.ofList read.reverse, rest)
    | '\\' :: rest =>
      match escape? rest with
      | some (c, rest) => basicString (c :: read) n rest
      | none => none
    | c :: rest => if isTextChar c then basicString (c :: read) n rest else none
    | [] => none

/-- Whether nothing but blanks is left on the line. -/
def isLineEnd (cs : List Char) : Bool :=
  match skipSpaces cs with
  | '\n' :: _ => true
  | '\r' :: '\n' :: _ => true
  | _ => false

/-- The end of a string of many lines: three quotes, behind two more at most that belong to it. -/
def closing? (quote : Char) (cs : List Char) : Option (List Char × List Char) :=
  let quotes := (cs.takeWhile (· == quote)).length
  if quotes < 3 then none
  else
    let own := min (quotes - 3) 2
    some (List.replicate own quote, cs.drop (own + 3))

/-- The rest of a string of many lines. A backslash at the end of a line takes away the blanks and
line breaks behind it. -/
def basicLines (read : List Char) : Nat → List Char → Option (String × List Char)
  | 0, _ => none
  | n + 1, cs =>
    match closing? '"' cs with
    | some (own, rest) => some (String.ofList (own ++ read).reverse, rest)
    | none =>
      match cs with
      | '\\' :: rest =>
        if isLineEnd rest then
          basicLines read n (rest.dropWhile fun c => isSpace c || c == '\n' || c == '\r')
        else match escape? rest with
          | some (c, rest) => basicLines (c :: read) n rest
          | none => none
      | '\n' :: rest => basicLines ('\n' :: read) n rest
      | '\r' :: '\n' :: rest => basicLines ('\n' :: read) n rest
      | c :: rest => if isTextChar c then basicLines (c :: read) n rest else none
      | [] => none

/-- The rest of a literal string of many lines. -/
def literalLines (read : List Char) : List Char → Option (String × List Char)
  | [] => none
  | cs@(c :: rest) =>
    match closing? '\'' cs with
    | some (own, rest) => some (String.ofList (own ++ read).reverse, rest)
    | none =>
      match cs with
      | '\r' :: '\n' :: _ => literalLines read rest
      | _ => if isTextChar c || c == '\n' then literalLines (c :: read) rest else none

/-- The rest of a literal string on one line. -/
def literalString (cs : List Char) : Option (String × List Char) :=
  match cs.span fun c => isTextChar c && c != '\'' with
  | (text, '\'' :: rest) => some (String.ofList text, rest)
  | _ => none

/-- A line break right behind the quotes that open a string of many lines is left out. -/
def skipFirstBreak : List Char → List Char
  | '\n' :: rest => rest
  | '\r' :: '\n' :: rest => rest
  | cs => cs

/-- A string on one line. -/
def lineString : List Char → Option (String × List Char)
  | '"' :: rest => basicString [] (rest.length + 1) rest
  | '\'' :: rest => literalString rest
  | _ => none

/-- A string. -/
def quotedString (cs : List Char) : Option (String × List Char) :=
  match cs with
  | '"' :: '"' :: '"' :: rest => basicLines [] (rest.length + 1) (skipFirstBreak rest)
  | '\'' :: '\'' :: '\'' :: rest => literalLines [] (skipFirstBreak rest)
  | _ => lineString cs

/-! ## Keys -/

/-- Whether a character may stand in a key without quotes. -/
def isBareKeyChar (c : Char) : Bool := c.isAlphanum || c == '_' || c == '-'

/-- One part of a key. -/
def keyPart (cs : List Char) : Option (String × List Char) :=
  match cs.span isBareKeyChar with
  | ([], _) => lineString cs
  | (name, rest) => some (String.ofList name, rest)

/-- A key with at most so many parts, which dots join. -/
def keyWithin : Nat → List Char → Option (List String × List Char)
  | 0, _ => none
  | n + 1, cs => do
    let (part, rest) ← keyPart (skipSpaces cs)
    match skipSpaces rest with
    | '.' :: rest => do
      let (parts, rest) ← keyWithin n rest
      return (part :: parts, rest)
    | rest => return ([part], rest)

/-- The most levels of a document, and the most parts of a key. -/
def depthLimit : Nat := 79

def key (cs : List Char) : Option (List String × List Char) := keyWithin depthLimit cs

end Scripting.Toml
