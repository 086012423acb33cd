/-
URLs. A URL is kept in parts, each already in its written form, so that writing it is putting the parts
together and changing one part leaves the others alone.
-/

namespace Scripting

/-- The path of a URL: one text where the URL has no hierarchy, else the parts between slashes. -/
inductive Url.Path where
  | whole (text : String)
  | segments (parts : List String)
  deriving DecidableEq, Inhabited

structure Url where
  scheme : String
  username : String := ""
  password : Option String := none
  host : Option String := none
  /-- The port, where it is not the one of the scheme. -/
  port : Option Nat := none
  path : Url.Path
  query : Option String := none
  fragment : Option String := none
  deriving DecidableEq, Inhabited

namespace Url

/-- The port of a scheme that has one. -/
def defaultPort? : String → Option Nat
  | "http" => some 80
  | "ws" => some 80
  | "https" => some 443
  | "wss" => some 443
  | "ftp" => some 21
  | _ => none

/-- Schemes whose URLs always have a hierarchy, and take a backslash for a slash. -/
def isSpecialScheme (scheme : String) : Bool :=
  (defaultPort? scheme).isSome || scheme == "file"

def isSpecial (u : Url) : Bool := isSpecialScheme u.scheme

/-- Whether a URL has no hierarchy, so that no path can be below it. -/
def cannotBeBase (u : Url) : Bool :=
  match u.path with
  | .whole _ => true
  | .segments _ => false

def Path.text : Path → String
  | .whole text => text
  | .segments parts => String.join (parts.map ("/" ++ ·))

/-- The name and password before the host. -/
def userinfoText (u : Url) : String :=
  if u.username.isEmpty && u.password.isNone then ""
  else u.username ++ ((u.password.map (":" ++ ·)).getD "") ++ "@"

def hostText (u : Url) : String :=
  match u.host with
  | none => if u.scheme == "file" then "//" else ""
  | some host =>
    "//" ++ u.userinfoText ++ host ++ ((u.port.map fun n => ":" ++ toString n).getD "")

/-- The written form of a URL. -/
def text (u : Url) : String :=
  u.scheme ++ ":" ++ u.hostText ++ u.path.text ++ ((u.query.map ("?" ++ ·)).getD "") ++
    ((u.fragment.map ("#" ++ ·)).getD "")

/-- The URL without the name and password. -/
def withoutUserinfo (u : Url) : Url := { u with username := "", password := none }

/-! ## Encoding -/

def hexDigit (n : Nat) : Char := Char.ofNat (if n < 10 then 48 + n else 55 + n)

/-- The bytes of a character, each as a percent sign and two digits. -/
def percentEncoded (c : Char) : List Char :=
  (String.singleton c).toUTF8.toList.flatMap fun b =>
    ['%', hexDigit (b.toNat / 16), hexDigit (b.toNat % 16)]

/-- Encodes control characters, characters past ASCII and those of a set. -/
def encode (set : List Char) (cs : List Char) : List Char :=
  cs.flatMap fun c =>
    if c.toNat < 0x20 || 0x7e < c.toNat || set.contains c then percentEncoded c else [c]

def encoded (set : List Char) (s : String) : String := String.ofList (encode set s.toList)

def fragmentSet : List Char := [' ', '"', '<', '>', Char.ofNat 0x60]

def querySet : List Char := [' ', '"', '#', '<', '>']

def specialQuerySet : List Char := '\'' :: querySet

def pathSet : List Char := ['#', '?', '{', '}'] ++ fragmentSet

def userinfoSet : List Char := ['/', ':', ';', '=', '@', '[', '\\', ']', '^', '|'] ++ pathSet

/-! ## Paths -/

/-- A part of a path that stands for the place itself. -/
def isDot (part : String) : Bool := [".", "%2e", "%2E"].contains part

/-- A part of a path that leads back to the place above. -/
def isDoubleDot (part : String) : Bool :=
  ["..", ".%2e", ".%2E", "%2e.", "%2E.", "%2e%2e", "%2e%2E", "%2E%2e", "%2E%2E"].contains part

/-- The parts of a path with the dots followed: the last part of the text always leaves one part. -/
def resolveDots (done : List String) : List String → List String
  | [] => done
  | [part] =>
    if isDoubleDot part then done.dropLast ++ [""]
    else if isDot part then done ++ [""]
    else done ++ [part]
  | part :: rest =>
    if isDoubleDot part then resolveDots done.dropLast rest
    else if isDot part then resolveDots done rest
    else resolveDots (done ++ [part]) rest

/-- Splits at the characters that satisfy a test. -/
def splitBy (p : Char → Bool) (cs : List Char) : List (List Char) :=
  cs.foldr (fun c parts =>
    if p c then [] :: parts
    else match parts with
      | [] => [[c]]
      | part :: rest => (c :: part) :: rest) [[]]

/-- The parts of a path that starts behind its first slash. -/
def pathParts (special : Bool) (cs : List Char) : List String :=
  resolveDots [] <| (splitBy (fun c => c == '/' || (special && c == '\\')) cs).map fun part =>
    String.ofList (encode pathSet part)

/-- Whether a character is passed over wherever it stands in a URL. -/
def isIgnored (c : Char) : Bool := c == '\t' || c == '\n' || c == '\r'

/-- Gives a URL with a hierarchy another path. Question marks and number signs belong to the path. -/
def setPath (u : Url) (path : String) : Url :=
  let cs := path.toList.filter (!isIgnored ·)
  let behindSlash := match cs with
    | '/' :: rest => rest
    | '\\' :: rest => if u.isSpecial then rest else cs
    | cs => cs
  { u with path := .segments (pathParts u.isSpecial behindSlash) }

/-- Gives a URL another query, or none. -/
def setQuery (u : Url) (query : Option String) : Url :=
  let set := if u.isSpecial then specialQuerySet else querySet
  { u with query := query.map fun q => String.ofList (encode set (q.toList.filter (!isIgnored ·))) }

end Url

end Scripting
