import DialogueScript.Json.Record
import DialogueScript.Settings
/-!
# Settings in JSON

Settings are a record in which every field has a default. A schema of flags is an object with the name of the
type of each flag.
-/
namespace DialogueScript
open Json

def Check.Schema.toJson (s : Check.Schema) : Json := ofDictionary (fun t : Check.FlagType => .string t.name) s

def Check.Schema.ofJson? (j : Json) : Option Check.Schema :=
  dictionary? (named? .untagged Check.FlagType.ofName?) j

namespace Settings

def toJson (s : Settings) : Json :=
  record [always "strictConditions" (.bool s.strictConditions), always "strictReferences" (.bool s.strictReferences),
    always "emitPositions" (.bool s.emitPositions), always "emitBanner" (.bool s.emitBanner),
    whenSome "flagSchema" Check.Schema.toJson s.flagSchema]

def ofJson? (j : Json) : Option Settings :=
  match fields? ["strictConditions", "strictReferences", "emitPositions", "emitBanner", "flagSchema"] j with
  | some [conditions, references, positions, banner, schema] => do
    return ⟨← withDefault standard.strictConditions bool? conditions,
      ← withDefault standard.strictReferences bool? references,
      ← withDefault standard.emitPositions bool? positions, ← withDefault standard.emitBanner bool? banner,
      ← optional Check.Schema.ofJson? schema⟩
  | _ => none

end Settings
end DialogueScript
