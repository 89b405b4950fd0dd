import DialogueScript.Check.Finding
import DialogueScript.Node.Reading
/-!
# Failures

All the ways in which reading, writing or converting a dialogue can fail, with what each is reported as.
-/
namespace DialogueScript

inductive Failure
  /-- The text has no outline. -/
  | script (fault : Outline.Fault)
  /-- A block is not a node. -/
  | node (node : Text) (fault : NodeFault)
  /-- A clause states no condition. -/
  | condition (clause : Condition.Unreadable)
  /-- The tag of a node in a document is not that of a kind. -/
  | unknownKind (node tag : Text)
  /-- A speaker could not be read back. -/
  | badSpeaker (speaker : Text)
  /-- A graph has problems that would make its script unreadable. -/
  | notWritable (problems : List Check.Problem)
  /-- A JSON text or value is not of the form that is asked for. -/
  | json
  deriving DecidableEq, Repr

namespace Failure

/-- Texts with a semicolon between each two. -/
def listed : List String → String
  | [] => ""
  | [s] => s
  | s :: ss => s ++ "; " ++ listed ss

/-- What a failure is reported as. What is wrong with a JSON text is not told. -/
def message : Failure → String
  | script fault => fault.message
  | node id fault =>
    "failed to import node '" ++ String.ofList id ++ "' (line " ++ toString fault.line ++ "): " ++ fault.cause.message
  | condition clause => clause.message
  | unknownKind id tag => "node '" ++ String.ofList id ++ "' has unknown kind '" ++ String.ofList tag ++ "'"
  | badSpeaker speaker => "invalid " ++ Check.Role.name .speaker ++ ": '" ++ String.ofList speaker ++ "'"
  | notWritable problems => "graph is not exportable: " ++ listed (problems.map Check.Problem.message)
  | json => "graph document JSON error"

/-- The node that a failure is about, if it is about one. -/
def node? : Failure → Option Text
  | node id _ => some id
  | unknownKind id _ => some id
  | _ => none

end Failure
end DialogueScript
