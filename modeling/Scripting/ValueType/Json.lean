/-
Types as JSON trees: an object whose member `kind` names the type and whose other members are its
parts. A part that is not there is left out.
-/
import Scripting.ValueType.Basic
import Scripting.Json.Basic

namespace Scripting

def Location.toJson (l : Location) : Json :=
  .object [("column", .int l.column.toNat), ("file", .string l.file), ("line", .int l.line.toNat)]

/-- The members of a provenance, the places that are known. -/
def Provenance.members (p : Provenance) : List (String × Json) :=
  (p.definition.map fun l => ("definition", l.toJson)).toList ++
    (p.location.map fun l => ("location", l.toJson)).toList

namespace ValueType

/-- An object of a kind with other members. -/
def tagged (kind : String) (members : List (String × Json)) : Json :=
  Json.ofMembers (("kind", .string kind) :: members)

def toJson : ValueType → Json
  | .void => tagged "void" []
  | .boolean => tagged "boolean" []
  | .int => tagged "int" []
  | .float => tagged "float" []
  | .string => tagged "string" []
  | .record name => tagged "record" [("name", .string name)]
  | .aggregate index data size place =>
    tagged "aggregate" <| [("index", index.toJson), ("data", data.toJson)] ++
      (size.map fun n => ("size", Json.int n.toNat)).toList ++ place.members
  | .plural element place => tagged "plural" <| ("element", element.toJson) :: place.members
  | .handle target => tagged "handle" [("target_type", .string target)]
  | .any => tagged "any" []

end ValueType

end Scripting
