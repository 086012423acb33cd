/-
Text from bytes that may not be valid UTF-8: what is no character becomes the replacement character,
once for every longest beginning of a character that is broken off.
-/

namespace Scripting.Text

/-- How a byte begins a character: how many bytes follow, the bits it gives, and what the next byte
may be. -/
def leadByte? (b : UInt8) : Option (Nat × Nat × UInt8 × UInt8) :=
  let n := b.toNat
  if n < 0x80 then some (0, n, 0x80, 0xbf)
  else if 0xc2 ≤ n ∧ n ≤ 0xdf then some (1, n % 0x20, 0x80, 0xbf)
  else if n = 0xe0 then some (2, 0, 0xa0, 0xbf)
  else if n = 0xed then some (2, 0xd, 0x80, 0x9f)
  else if 0xe1 ≤ n ∧ n ≤ 0xef then some (2, n % 0x10, 0x80, 0xbf)
  else if n = 0xf0 then some (3, 0, 0x90, 0xbf)
  else if n = 0xf4 then some (3, 4, 0x80, 0x8f)
  else if 0xf1 ≤ n ∧ n ≤ 0xf3 then some (3, n % 8, 0x80, 0xbf)
  else none

/-- A character in the making: the bytes still to come, the bits so far and the range of the next
byte. -/
structure PartialChar where
  missing : Nat
  value : Nat
  low : UInt8
  high : UInt8

def replacement : Char := Char.ofNat 0xfffd

/-- A byte that begins something new. -/
def beginByte (out : List Char) (b : UInt8) : Option PartialChar × List Char :=
  match leadByte? b with
  | some (0, value, _, _) => (none, Char.ofNat value :: out)
  | some (missing, value, low, high) => (some ⟨missing, value, low, high⟩, out)
  | none => (none, replacement :: out)

/-- One byte further; the characters so far are last first. -/
def utf8Step (s : Option PartialChar × List Char) (b : UInt8) : Option PartialChar × List Char :=
  match s with
  | (none, out) => beginByte out b
  | (some p, out) =>
    if p.low ≤ b ∧ b ≤ p.high then
      let value := p.value * 64 + b.toNat % 64
      if p.missing ≤ 1 then (none, Char.ofNat value :: out)
      else (some ⟨p.missing - 1, value, 0x80, 0xbf⟩, out)
    else beginByte (replacement :: out) b

/-- The text of bytes. -/
def ofBytes (bytes : List UInt8) : String :=
  let (open?, out) := bytes.foldl utf8Step (none, [])
  String.ofList (if open?.isSome then replacement :: out else out).reverse

end Scripting.Text
