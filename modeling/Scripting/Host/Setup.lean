/-
Setting up a host: the scripts that it runs, what they find, and how its parts are configured.
-/
import Scripting.Host.Schedule
import Scripting.Engine.Unit
import Scripting.Library.Basic
import Scripting.Config.Basic

namespace Scripting

/-- The surroundings of a host whose scripts find these native functions and shapes. -/
def Environment.ofLibrary (natives : Natives) (shapes : Shapes) (resolve : Resolver) : Environment :=
  { resolve, compile := ScriptUnit.compiler natives, shapes }

/-- The host of a configuration, whose scripts find the host library. -/
def Host.ofConfig (c : Config) (resolve : Resolver) : Host :=
  { environment := Environment.ofLibrary Library.natives Library.shapes resolve
    bus := { capacity := c.channelCapacity }
    client := { preferences := c.startPreferences } }

end Scripting
