import TeamPlanning.Json.Syntax
import TeamPlanning.Settings.Basic

/-! # Settings as JSON

Settings are written as an object with one truth value per switch. They are read from such an
object, in which switches may be missing and unknown members do not count, or from a list of the
truth values of the first switches. A switch that is missing is as in the standard settings. -/

set_option autoImplicit false

namespace TeamPlanning.Settings

/-- One member of the object per line, indented by two blanks. -/
def toJson (settings : Settings) : String :=
  let members := Switch.all.map fun switch =>
    "  \"" ++ switch.key ++ "\": " ++ toString (settings.get switch)
  "\x7b\n" ++ ",\n".intercalate members ++ "\n\x7d"

/-- Reads members onto settings. The switches in `seen` have been set and may not come again. -/
def ofMembers? : List Switch → Settings → List (List Char × Json) → Option Settings
  | _, settings, [] => some settings
  | seen, settings, (written, value) :: members => do
      let key ← Json.decodeText written
      match Switch.all.find? (·.key.toList == key) with
      | none => ofMembers? seen settings members
      | some switch =>
          if switch ∈ seen then none
          match value with
          | .bool state => ofMembers? (switch :: seen) (settings.set switch state) members
          | _ => none

def ofItems? : List Switch → Settings → List Json → Option Settings
  | _, settings, [] => some settings
  | switch :: switches, settings, .bool state :: items =>
      ofItems? switches (settings.set switch state) items
  | _, _, _ => none

def ofJson? : Json → Option Settings
  | .object members => ofMembers? [] standard members
  | .list items => ofItems? Switch.all standard items
  | _ => none

def parse (text : String) : Except Fault Settings := do
  match (Json.parse? text).bind ofJson? with
  | none => throw .unreadable
  | some settings =>
      settings.validate
      return settings

example : (parse "\x7b \"joint_beliefs\": true \x7d").toOption = some .everything := by
  decide +kernel
example : (parse "[true, true, false]").toOption =
    some { standard with individual := ⟨true, true, false⟩ } := by decide +kernel
example : (parse "[0]" matches .error .unreadable) := by decide +kernel

end TeamPlanning.Settings
