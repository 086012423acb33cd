/-
URLs from text. Blanks around the text and line breaks inside it do not count; the scheme decides how
the slashes behind it are taken.
-/
import Scripting.Url.Host

namespace Scripting.Url

abbrev Parsed (α : Type) := Except ParseError α

/-- The scheme of a text, in small letters, and what stands behind its colon. -/
def scheme? (cs : List Char) : Option (String × List Char) :=
  let name := cs.takeWhile fun c => c.isAlphanum || c == '+' || c == '-' || c == '.'
  match name, cs.drop name.length with
  | first :: _, ':' :: rest =>
    if first.isAlpha then some (String.ofList (name.map Char.toLower), rest) else none
  | _, _ => none

/-- The query and fragment behind a path. -/
def tailParts (special : Bool) (cs : List Char) : Option String × Option String :=
  let set := if special then specialQuerySet else querySet
  let fragment (cs : List Char) := String.ofList (encode fragmentSet cs)
  match cs with
  | '?' :: rest =>
    let q := rest.takeWhile (· != '#')
    (some (String.ofList (encode set q)),
      match rest.drop q.length with
      | _ :: f => some (fragment f)
      | [] => none)
  | '#' :: rest => (none, some (fragment rest))
  | _ => (none, none)

/-- A text up to the query or fragment, and the rest. -/
def spanPath (cs : List Char) : List Char × List Char :=
  let path := cs.takeWhile fun c => c != '?' && c != '#'
  (path, cs.drop path.length)

/-- The authority in front of a path, and the rest. -/
def spanAuthority (special : Bool) (cs : List Char) : List Char × List Char :=
  let a := cs.takeWhile fun c => c != '/' && c != '?' && c != '#' && !(special && c == '\\')
  (a, cs.drop a.length)

/-- The name, the password and the host with its port. -/
def splitUserinfo (authority : List Char) : Option (List Char) × List Char :=
  let behind := (authority.reverse.takeWhile (· != '@')).reverse
  if behind.length = authority.length then (none, authority)
  else (some (authority.take (authority.length - behind.length - 1)), behind)

/-- Splits at the colon of the port, which stands behind any brackets. -/
def splitPort (cs : List Char) : List Char × Option (List Char) :=
  let host := go false cs
  match cs.drop host.length with
  | _ :: port => (host, some port)
  | [] => (host, none)
where
  go (inside : Bool) : List Char → List Char
    | [] => []
    | c :: rest =>
      if c == ':' && !inside then []
      else c :: go (c == '[' || (inside && c != ']')) rest

/-- The port of its digits, unless it is the one of the scheme. -/
def port? (scheme : String) (digits : List Char) : Parsed (Option Nat) :=
  if digits.isEmpty then .ok none
  else if !digits.all Char.isDigit then .error .invalidPort
  else
    match numberIn? 10 digits with
    | some n =>
      if 65535 < n then .error .invalidPort
      else .ok (if defaultPort? scheme = some n then none else some n)
    | none => .error .invalidPort

/-- The path, query and fragment behind an authority. -/
def withTail (u : Url) (cs : List Char) : Url :=
  let (path, rest) := spanPath cs
  let (query, fragment) := tailParts u.isSpecial rest
  let behindSlash := match path with
    | '/' :: p => p
    | '\\' :: p => if u.isSpecial then p else path
    | p => p
  let segments := if path.isEmpty && !u.isSpecial then [] else pathParts u.isSpecial behindSlash
  { u with path := .segments segments, query, fragment }

/-- A URL from the text behind the two slashes. -/
def parseAuthority (scheme : String) (cs : List Char) : Parsed Url := do
  let special := isSpecialScheme scheme
  let (authority, rest) := spanAuthority special cs
  let (userinfo, hostPort) := splitUserinfo authority
  let (hostChars, portChars) := splitPort hostPort
  if hostChars.isEmpty && (special || userinfo.isSome || portChars.isSome) then throw .emptyHost
  let host ← if special then parseHost hostChars else parseOpaqueHost hostChars
  let port ← port? scheme (portChars.getD [])
  let userinfo := userinfo.getD []
  let name := userinfo.takeWhile (· != ':')
  let password := match userinfo.drop name.length with
    | _ :: p => if p.isEmpty then none else some (String.ofList (encode userinfoSet p))
    | [] => none
  let u : Url := {
    scheme, username := String.ofList (encode userinfoSet name), password
    host := some host, port, path := .segments [] }
  return withTail u rest

/-- A `file` URL from the text behind the colon. -/
def parseFile (cs : List Char) : Parsed Url := do
  let isSlash (c : Char) : Bool := c == '/' || c == '\\'
  let bare : Url := { scheme := "file", path := .segments [] }
  match cs with
  | a :: b :: rest =>
    if isSlash a && isSlash b then
      let (authority, rest) := spanAuthority true rest
      if authority.isEmpty then return withTail bare rest
      else
        let host ← parseHost authority
        return withTail { bare with host := if host = "localhost" then none else some host } rest
    else return withTail bare cs
  | cs => return withTail bare cs

/-- A URL that is neither of a special scheme nor has an authority. -/
def parseBare (scheme : String) (cs : List Char) : Url :=
  match cs with
  | '/' :: _ => withTail { scheme, path := .segments [] } cs
  | cs =>
    let (path, rest) := spanPath cs
    let (query, fragment) := tailParts false rest
    { scheme, path := .whole (String.ofList (encode [] path)), query, fragment }

/-- Whether a character does not count at the ends of a URL. -/
def isOuterBlank (c : Char) : Bool := c.toNat ≤ 0x20

/-- The URL of a text. -/
def parse (s : String) : Parsed Url :=
  let trimmed := ((s.toList.dropWhile isOuterBlank).reverse.dropWhile isOuterBlank).reverse
  match scheme? (trimmed.filter (!isIgnored ·)) with
  | none => .error .relativeWithoutBase
  | some (scheme, rest) =>
    if scheme = "file" then parseFile rest
    else if isSpecialScheme scheme then
      parseAuthority scheme (rest.dropWhile fun c => c == '/' || c == '\\')
    else
      match rest with
      | '/' :: '/' :: rest => parseAuthority scheme rest
      | rest => .ok (parseBare scheme rest)

end Scripting.Url
