/-
Hosts of URLs: names, IPv4 addresses in any notation and IPv6 addresses, each in one written form. A
name is in small letters, with every label past ASCII in its ASCII form.
-/
import Scripting.Url.Basic

namespace Scripting.Url

/-- Why a text is no URL. -/
inductive ParseError where
  | relativeWithoutBase
  | emptyHost
  | invalidDomain
  | invalidDomainCharacter
  | invalidPort
  | invalidIpv4
  | invalidIpv6
  deriving DecidableEq, Inhabited

def ParseError.message : ParseError → String
  | .relativeWithoutBase => "relative URL without a base"
  | .emptyHost => "empty host"
  | .invalidDomain => "invalid international domain name"
  | .invalidDomainCharacter => "invalid domain character"
  | .invalidPort => "invalid port number"
  | .invalidIpv4 => "invalid IPv4 address"
  | .invalidIpv6 => "invalid IPv6 address"

/-- The value of a digit in a base up to sixteen. -/
def digitIn? (base : Nat) (c : Char) : Option Nat :=
  let n :=
    if c.isDigit then c.toNat - 48
    else if 'a' ≤ c ∧ c ≤ 'f' then c.toNat - 87
    else if 'A' ≤ c ∧ c ≤ 'F' then c.toNat - 55
    else 16
  if n < base then some n else none

/-- The number of a text of digits in a base; the empty text is zero. -/
def numberIn? (base : Nat) (cs : List Char) : Option Nat :=
  cs.foldlM (fun n c => (digitIn? base c).map (n * base + ·)) 0

/-! ## IPv4 -/

/-- A part of an address: hexadecimal behind `0x`, octal behind `0`, else decimal. -/
def ipv4Part? (cs : List Char) : Option Nat :=
  match cs with
  | [] => none
  | '0' :: 'x' :: rest => numberIn? 16 rest
  | '0' :: 'X' :: rest => numberIn? 16 rest
  | '0' :: c :: rest => numberIn? 8 (c :: rest)
  | cs => numberIn? 10 cs

/-- The labels of a name, without the empty one behind a dot at the end. -/
def hostLabels (cs : List Char) : List (List Char) :=
  let labels := splitBy (· == '.') cs
  if 1 < labels.length && labels.getLast? == some [] then labels.dropLast else labels

/-- Whether a name has to be an address because its last label is a number. -/
def endsInNumber (cs : List Char) : Bool :=
  match (hostLabels cs).getLast? with
  | none => false
  | some [] => false
  | some label => label.all Char.isDigit ||
      (match label with
        | '0' :: 'x' :: _ => (ipv4Part? label).isSome
        | '0' :: 'X' :: _ => (ipv4Part? label).isSome
        | _ => false)

/-- The address of a list of numbers: the last fills all the bytes that are left. -/
def ipv4Value? (parts : List Nat) : Option Nat :=
  match parts.reverse with
  | [] => none
  | last :: others =>
    if 4 < parts.length || others.any (255 < ·) || 1 <<< (8 * (5 - parts.length)) ≤ last then none
    else some (others.reverse.zipIdx.foldl (fun n (p, i) => n + p <<< (8 * (3 - i))) last)

def ipv4Text (n : Nat) : String :=
  s!"{n / 16777216}.{n / 65536 % 256}.{n / 256 % 256}.{n % 256}"

def parseIpv4 (cs : List Char) : Except ParseError String :=
  match (hostLabels cs).mapM ipv4Part? >>= ipv4Value? with
  | some n => .ok (ipv4Text n)
  | none => .error .invalidIpv4

/-! ## IPv6 -/

/-- A group of up to four hexadecimal digits. -/
def ipv6Group? (cs : List Char) : Option Nat :=
  if cs.isEmpty || 4 < cs.length then none else numberIn? 16 cs

/-- Four decimal bytes without needless zeros, as two groups. -/
def ipv6Tail? (cs : List Char) : Option (List Nat) :=
  match (splitBy (· == '.') cs).mapM fun part =>
      if part.isEmpty || (1 < part.length && part.head? == some '0') then none
      else (numberIn? 10 part).filter (· < 256) with
  | some [a, b, c, d] => some [a * 256 + b, c * 256 + d]
  | _ => none

/-- The groups between colons; four bytes may stand at the end. -/
def ipv6Groups? (cs : List Char) : Option (List Nat) :=
  if cs.isEmpty then some []
  else
    let parts := splitBy (· == ':') cs
    match parts.getLast? with
    | some last =>
      if last.contains '.' then do
        return (← parts.dropLast.mapM ipv6Group?) ++ (← ipv6Tail? last)
      else parts.mapM ipv6Group?
    | none => none

/-- Splits at the first pair of colons. -/
def splitPair : List Char → Option (List Char × List Char)
  | ':' :: ':' :: rest => some ([], rest)
  | c :: rest => (splitPair rest).map fun (a, b) => (c :: a, b)
  | [] => none

/-- The eight groups of an address; a pair of colons stands for one zero group or more. -/
def ipv6Value? (cs : List Char) : Option (List Nat) :=
  match splitPair cs with
  | none => (ipv6Groups? cs).filter (·.length == 8)
  | some (front, back) => do
    let front ← if front.contains '.' then none else ipv6Groups? front
    let back ← ipv6Groups? back
    if front.length + back.length ≤ 7 then
      some (front ++ List.replicate (8 - front.length - back.length) 0 ++ back)
    else none

/-- The start and length of the longest run of zeros of two or more, the first of those of one
length. -/
def longestZeros (groups : List Nat) : Option (Nat × Nat) :=
  let runs := (List.range groups.length).map fun i => (i, ((groups.drop i).takeWhile (· == 0)).length)
  runs.foldl (fun best r =>
    if 2 ≤ r.2 && best.all (fun b => b.2 < r.2) then some r else best) none

def ipv6Text (groups : List Nat) : String :=
  let written (l : List Nat) := String.intercalate ":" (l.map fun n => String.ofList (Nat.toDigits 16 n))
  match longestZeros groups with
  | none => "[" ++ written groups ++ "]"
  | some (start, n) => "[" ++ written (groups.take start) ++ "::" ++ written (groups.drop (start + n)) ++ "]"

def parseIpv6 (cs : List Char) : Except ParseError String :=
  match ipv6Value? cs with
  | some groups => .ok (ipv6Text groups)
  | none => .error .invalidIpv6

/-! ## Names -/

/-- How fast the weights of a label's ASCII form grow. -/
def adapt (delta points : Nat) (first : Bool) : Nat :=
  let delta := if first then delta / 700 else delta / 2
  go 64 (delta + delta / points) 0
where
  go : Nat → Nat → Nat → Nat
    | 0, _, k => k
    | n + 1, delta, k => if 455 < delta then go n (delta / 35) (k + 36) else k + 36 * delta / (delta + 38)

/-- A variable-length integer of a label's ASCII form. -/
def variableLength (q bias : Nat) : List Char :=
  go 64 q 36
where
  digit (n : Nat) : Char := Char.ofNat (if n < 26 then 97 + n else 22 + n)
  go : Nat → Nat → Nat → List Char
    | 0, q, _ => [digit q]
    | fuel + 1, q, k =>
      let t := if k ≤ bias then 1 else if bias + 26 ≤ k then 26 else k - bias
      if q < t then [digit q]
      else digit (t + (q - t) % (36 - t)) :: go fuel ((q - t) / (36 - t)) (k + 36)

/-- The state of the encoder between two characters. -/
structure LabelEncoder where
  delta : Nat
  bias : Nat
  handled : Nat
  out : List Char

/-- Adds all the characters of one code to the encoding. -/
def LabelEncoder.add (codes : List Nat) (basic : Nat) (s : LabelEncoder) (n m : Nat) : LabelEncoder :=
  let s := { s with delta := s.delta + (m - n) * (s.handled + 1) }
  let s := codes.foldl (fun s c =>
    if c < m then { s with delta := s.delta + 1 }
    else if c = m then
      { delta := 0
        bias := adapt s.delta (s.handled + 1) (s.handled == basic)
        handled := s.handled + 1
        out := s.out ++ variableLength s.delta s.bias }
    else s) s
  { s with delta := s.delta + 1 }

/-- A label past ASCII in its ASCII form: the ASCII characters, then the places and codes of the
others as variable-length integers. -/
def asciiLabel (label : List Char) : List Char :=
  if label.all (·.toNat < 0x80) then label
  else
    let codes := label.map Char.toNat
    let basic := label.filter (·.toNat < 0x80)
    let front := if basic.isEmpty then [] else basic ++ ['-']
    let others := (codes.filter (0x80 ≤ ·)).mergeSort.eraseDups
    let start : LabelEncoder := ⟨0, 72, basic.length, front⟩
    let (s, _) := others.foldl (fun (s, n) m => (s.add codes basic.length n m, m + 1)) (start, 128)
    "xn--".toList ++ s.out

/-- The small letter of a capital of the Latin, Greek or Cyrillic alphabet. -/
def smallLetter (c : Char) : Char :=
  let n := c.toNat
  if (0x41 ≤ n && n ≤ 0x5a) || (0xc0 ≤ n && n ≤ 0xde && n != 0xd7) || (0x391 ≤ n && n ≤ 0x3a9) ||
      (0x410 ≤ n && n ≤ 0x42f) then Char.ofNat (n + 0x20)
  else if 0x400 ≤ n && n ≤ 0x40f then Char.ofNat (n + 0x50)
  else if n == 0x3002 then '.'
  else c

/-- Characters that no name may have. -/
def isForbidden (c : Char) : Bool :=
  c.toNat ≤ 0x20 || c.toNat == 0x7f || "%#/:<>?@[\\]^|".toList.contains c

/-- The bytes of a text with its percent signs followed. -/
def percentDecoded : List Char → List UInt8
  | [] => []
  | '%' :: a :: b :: rest =>
    match digitIn? 16 a, digitIn? 16 b with
    | some x, some y => (x * 16 + y).toUInt8 :: percentDecoded rest
    | _, _ => '%'.toNat.toUInt8 :: percentDecoded (a :: b :: rest)
  | c :: rest => (String.singleton c).toUTF8.toList ++ percentDecoded rest

/-- The host of a URL whose scheme has a port of its own. -/
def parseHost (cs : List Char) : Except ParseError String :=
  match cs with
  | '[' :: rest =>
    if rest.getLast? == some ']' then parseIpv6 rest.dropLast else .error .invalidIpv6
  | cs =>
    match String.fromUTF8? ⟨(percentDecoded cs).toArray⟩ with
    | none => .error .invalidDomain
    | some decoded =>
      let name := decoded.toList.map smallLetter
      if name.any isForbidden then .error .invalidDomain
      else
        let labels := (splitBy (· == '.') name).map asciiLabel
        let name := List.intercalate ['.'] labels
        if name.isEmpty then .error .emptyHost
        else if endsInNumber name then parseIpv4 name
        else .ok (String.ofList name)

/-- The host of any other URL, which is taken as it stands. -/
def parseOpaqueHost (cs : List Char) : Except ParseError String :=
  match cs with
  | '[' :: rest =>
    if rest.getLast? == some ']' then parseIpv6 rest.dropLast else .error .invalidIpv6
  | cs =>
    if cs.any fun c => c.toNat == 0 || "\t\n\r #/:<>?@[\\]^|".toList.contains c then
      .error .invalidDomainCharacter
    else .ok (String.ofList (encode [] cs))

end Scripting.Url
