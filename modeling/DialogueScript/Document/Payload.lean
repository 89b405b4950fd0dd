import DialogueScript.Document.Condition
import DialogueScript.Graph.Payload
/-!
# What a node holds, in JSON

The payload of a node is a record with the tag of its kind under `type`, in front of its own fields. Where the
dialogue goes on, flags and attributes are left out when there are none.

* `Payload.toJson`, `Payload.read`: payloads of all kinds.
* `Payload.tags`: the tags that payloads are read under.
-/
namespace DialogueScript
open Json

/-! ## Speeches and menus -/

def Speech.jsonFields (s : Speech) : List (List (Text × Json)) :=
  [always "speaker" (.string s.speaker), always "content" (.string s.content), whenSome "nextNodeId" .string s.next,
    whenFull "setFlags" .string s.setFlags]

def Speech.ofJson? (j : Json) : Option Speech :=
  match fields? ["speaker", "content", "nextNodeId", "setFlags"] j with
  | some [speaker, content, next, setFlags] => do
    return ⟨← required string? speaker, ← required string? content, ← optional string? next,
      ← withDefault [] (list? string?) setFlags⟩
  | _ => none

def Choice.toJson (c : Choice) : Json :=
  record [always "id" (.string c.id), always "text" (.string c.text), whenSome "nextNodeId" .string c.next,
    whenFull "conditions" Condition.toJson c.conditions, whenFull "setFlags" .string c.setFlags]

def Choice.ofJson? (place : Place) (j : Json) : Option Choice :=
  match fields? ["id", "text", "nextNodeId", "conditions", "setFlags"] j with
  | some [id, text, next, conditions, setFlags] => do
    return ⟨← required string? id, ← required string? text, ← optional string? next,
      ← withDefault [] (list? (Condition.ofJson? place)) conditions, ← withDefault [] (list? string?) setFlags⟩
  | _ => none

def Menu.jsonFields (m : Menu) : List (List (Text × Json)) := [always "choices" (ofList Choice.toJson m.choices)]

def Menu.ofJson? (j : Json) : Option Menu :=
  match fields? ["choices"] j with
  | some [choices] => do return ⟨← required (list? (Choice.ofJson? .tagged)) choices⟩
  | _ => none

/-! ## Branchings -/

namespace BranchKind

def name : BranchKind → Text
  | ifThen => "if".toList
  | elseIf => "elseIf".toList
  | orElse => "else".toList

def ofName? (s : Text) : Option BranchKind := [ifThen, elseIf, orElse].find? (·.name == s)

theorem ofName?_name (k : BranchKind) : ofName? k.name = some k := by cases k <;> decide

end BranchKind

def Branch.toJson (b : Branch) : Json :=
  record [always "id" (.string b.id), always "type" (.string b.kind.name),
    whenSome "condition" (ofList Condition.toJson) b.condition, always "content" (.string b.content),
    whenSome "speaker" .string b.speaker, whenSome "nextNodeId" .string b.next]

/-- Reads a branch. Whether its condition suits its place is not looked at. -/
def Branch.ofJson? (j : Json) : Option Branch :=
  match fields? ["id", "type", "condition", "content", "speaker", "nextNodeId"] j with
  | some [id, kind, condition, content, speaker, next] => do
    return ⟨← required string? id, ← required (named? .tagged BranchKind.ofName?) kind,
      ← optional (list? (Condition.ofJson? .tagged)) condition, ← withDefault [] string? content,
      ← optional string? speaker, ← optional string? next⟩
  | _ => none

def Branching.jsonFields (b : Branching) : List (List (Text × Json)) :=
  [always "blocks" (ofList Branch.toJson b.branches)]

def Branching.ofJson? (j : Json) : Option Branching :=
  match fields? ["blocks"] j with
  | some [branches] => do return ⟨← required (list? Branch.ofJson?) branches⟩
  | _ => none

/-! ## Storylets and pools -/

/-- The member with attributes, when there are any. -/
def attributesMember (d : Dictionary Text) : List (Text × Json) :=
  if d.isEmpty then [] else always "attributes" (ofDictionary .string d)

def Storylet.jsonFields (s : Storylet) : List (List (Text × Json)) :=
  [always "templateId" (.string s.template), always "entryPolicy" (.string s.entry.name),
    whenSome "entryNodeId" .string s.entryNode, always "returnPolicy" (.string s.exit.name),
    whenSome "returnNodeId" .string s.exitNode, attributesMember s.attributes]

/-- A call starts at the start of the storylet and comes back, unless it says otherwise. -/
def Storylet.ofJson? (j : Json) : Option Storylet :=
  match fields? ["templateId", "entryPolicy", "entryNodeId", "returnPolicy", "returnNodeId", "attributes"] j with
  | some [template, entry, entryNode, exit, exitNode, attributes] => do
    return ⟨← required string? template, ← withDefault .start (named? .tagged Entry.ofName?) entry,
      ← optional string? entryNode, ← withDefault .node (named? .tagged Exit.ofName?) exit, ← optional string? exitNode,
      ← withDefault .empty (dictionary? string?) attributes⟩
  | _ => none

/-- Reads a weight: an integer of at most 32 bits. -/
def weight? : Json → Option UInt32
  | .int i => if 0 ≤ i ∧ i < 2 ^ 32 then some (.ofNat i.toNat) else none
  | _ => none

def PoolMember.toJson (m : PoolMember) : Json :=
  record [always "templateId" (.string m.template), always "weight" (.int m.weight.toNat)]

def PoolMember.ofJson? (j : Json) : Option PoolMember :=
  match fields? ["templateId", "weight"] j with
  | some [template, weight] => do return ⟨← required string? template, ← withDefault 1 weight? weight⟩
  | _ => none

def Pool.jsonFields (p : Pool) : List (List (Text × Json)) :=
  [always "poolId" (.string p.pool), always "selectionMode" (.string p.selection.name),
    always "members" (ofList PoolMember.toJson p.members), whenSome "nextNodeId" .string p.next,
    attributesMember p.attributes]

def Pool.ofJson? (j : Json) : Option Pool :=
  match fields? ["poolId", "selectionMode", "members", "nextNodeId", "attributes"] j with
  | some [pool, selection, members, next, attributes] => do
    return ⟨← required string? pool, ← withDefault .random (named? .tagged Selection.ofName?) selection,
      ← withDefault [] (list? PoolMember.ofJson?) members, ← optional string? next,
      ← withDefault .empty (dictionary? string?) attributes⟩
  | _ => none

/-! ## Payloads -/

namespace Payload

/-- The fields of a payload, its tag apart. -/
def jsonFields : Payload → List (List (Text × Json))
  | speech s => s.jsonFields
  | menu m => m.jsonFields
  | branching b => b.jsonFields
  | storylet s => s.jsonFields
  | pool p => p.jsonFields

/-- Writes a payload, its tag first. -/
def toJson (p : Payload) : Json := record (always "type" (.string p.kind.tag) :: p.jsonFields)

/-- Each kind has fields of its own; the tag is not looked at again. -/
def ofRecord? (j : Json) : Kind → Option Payload
  | .speech => (Speech.ofJson? j).map .speech
  | .menu => (Menu.ofJson? j).map .menu
  | .branching => (Branching.ofJson? j).map .branching
  | .storylet => (Storylet.ofJson? j).map .storylet
  | .pool => (Pool.ofJson? j).map .pool

/-- The tag and the fields of a payload. An array has its tag first. -/
def tagged? : Json → Option (Text × Json)
  | .object members => match field? members "type".toList with
    | some (some (.string tag)) => some (tag, .object members)
    | _ => none
  | .array (.string tag :: items) => some (tag, .array items)
  | _ => none

/-- The tags that payloads are read under. A speech has a second tag, which is never written. -/
def tags : List (Text × Kind) :=
  [("npc".toList, .speech), ("character".toList, .speech), ("player".toList, .menu),
    ("conditional".toList, .branching), ("storylet".toList, .storylet), ("storyletPool".toList, .pool)]

def kindUnder? (tag : Text) : Option Kind := (tags.find? (·.1 == tag)).map (·.2)

/-- Why data are no payload. -/
inductive Fault
  /-- Part of the data stands for no value. -/
  | unreadable
  /-- The data have no tag. -/
  | untagged
  /-- No payload is read under the tag. -/
  | unknownTag (tag : Text)
  /-- The fields are not those of a payload of the kind. -/
  | badFields (kind : Kind)
  deriving DecidableEq, Repr

/-- Reads a payload, with a reason for what is none. -/
def read (j : Json) : Except Fault Payload :=
  -- the tag may stand anywhere, so all of the data are gone through first, unknown fields too
  if j.isReadable then
    match tagged? j with
    | none => .error .untagged
    | some (tag, record) => match kindUnder? tag with
      | none => .error (.unknownTag tag)
      | some kind => match ofRecord? record kind with
        | none => .error (.badFields kind)
        | some p => .ok p
  else .error .unreadable

def ofJson? (j : Json) : Option Payload := (read j).toOption

end Payload
end DialogueScript
