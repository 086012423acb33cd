/-
Association lists in ascending order of their keys, each key once. Whatever is answered by name and
listed in order is kept in one: members of an object, entries of a map, channels, executions,
preferences.
-/

namespace Scripting

/-- Entries in ascending order of their keys. -/
abbrev Assoc (κ α : Type) := List (κ × α)

namespace Assoc

variable {κ α β : Type} [Ord κ]

/-- Stores a value under a key, in place of the value that the key had. -/
def insert (k : κ) (a : α) : Assoc κ α → Assoc κ α
  | [] => [(k, a)]
  | (k', a') :: rest =>
    match compare k k' with
    | .lt => (k, a) :: (k', a') :: rest
    | .eq => (k, a) :: rest
    | .gt => (k', a') :: insert k a rest

/-- The value under a key. -/
def find? (k : κ) : Assoc κ α → Option α
  | [] => none
  | (k', a') :: rest => if compare k k' == .eq then some a' else find? k rest

def contains (k : κ) (m : Assoc κ α) : Bool := (find? k m).isSome

/-- Removes a key and its value. -/
def erase (k : κ) (m : Assoc κ α) : Assoc κ α := m.filter fun e => compare k e.1 != .eq

/-- The entries of a list stored one by one; of two with one key the later wins. -/
def ofList (l : List (κ × α)) : Assoc κ α := l.foldl (fun m e => insert e.1 e.2 m) []

def keys (m : Assoc κ α) : List κ := m.map Prod.fst

end Assoc

end Scripting
