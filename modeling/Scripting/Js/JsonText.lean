/-
The JSON of a script's values, as the script itself asks for it.
-/
import Scripting.Js.Conversion
import Scripting.Json.Printer

namespace Scripting.Js.Run

/-- A text in which halves of characters stand alone: these are escaped. -/
def brokenJson (t : Text.Broken) : String :=
  let parts := (Text.decoded t.units).map fun
    | .ok c => Json.escapedChar c
    | .error n => "\\u" ++ Text.hexPadded 4 n
  "\"" ++ String.join parts ++ "\""

/-- The parts of an array or an object between its brackets: side by side, or one to a line where
there is a text to indent with. -/
def enclosed (left right gap indent : String) (parts : List String) : String :=
  if parts.isEmpty then left ++ right
  else if gap.isEmpty then left ++ String.intercalate "," parts ++ right
  else
    let inner := "\n" ++ indent ++ gap
    left ++ inner ++ String.intercalate ("," ++ inner) parts ++ "\n" ++ indent ++ right

/-- The JSON of a value inside some objects, none for a value that has none. The fuel is the number of
objects. -/
def jsonWithin (ev : Evaluator) (gap : String) :
    Nat → List ObjectId → String → Value → Run (Option String)
  | 0, _, _, _ => fail .typeError "circular reference"
  | n + 1, around, indent, v => do
    match v with
    | .undefined => return none
    | .number m => return some (if m.toBinary64.isFinite then m.text else "null")
    | .string s => return some (Json.stringText s)
    | .broken t => return some (brokenJson t)
    | .object id =>
      if around.contains id then fail .typeError "circular reference"
      else
        let h ← heap
        let inner := jsonWithin ev gap n (id :: around) (indent ++ gap)
        match (h.object id).sort with
        | .function _ => return none
        | .array items =>
          let parts ← items.toList.mapM fun item => do
            return ((← inner (item.getD .undefined)).getD "null")
          return some (enclosed "[" "]" gap indent parts)
        | _ =>
          let parts ← (h.ownNames id).mapM fun name => do
            let text ← inner (← getNamed ev v name)
            let colon := if gap.isEmpty then ":" else ": "
            return text.map fun t => Json.stringText name ++ colon ++ t
          return some (enclosed "\x7b" "\x7d" gap indent (parts.filterMap fun p => p))
    | v => return some v.plainText

/-- The text to indent with that a value stands for; half of a character that stands alone in it is
replaced. -/
def gapOf : Value → String
  | .number (.int n) => String.ofList (List.replicate (min n.toInt.toNat 10) ' ')
  | v => (Value.ofUnits ((v.units?.getD []).take 10)).plainText

def jsonText (ev : Evaluator) (v gap : Value) : Run Value := do
  match ← jsonWithin ev (gapOf gap) ((← heap).objects.size + 1) [] "" v with
  | some s => return .string s
  | none => return .undefined

end Scripting.Js.Run
