import DialogueScript.Json.Basic
/-!
# Records in JSON

A record is an object with a member for each field, or an array of its fields in order. Members that are no
fields are passed over; a field twice is none. A field may be required, or optional (`null` and a missing
field are the same), or have a default (which stands for a missing field only).

* `fields?`: the fields of a record.
* `required`, `optional`, `withDefault`: what a field may be.
* `Place`, `named?`: one of several names, whose written forms depend on where it stands.
* `record`: writes a record.
-/
namespace DialogueScript.Json

/-- The member with a name, of which there may be at most one. -/
def field? (members : List (Text × Json)) (name : Text) : Option (Option Json) :=
  match members.filter (·.1 == name) with
  | [] => some none
  | [(_, j)] => some (some j)
  | _ => none

/-- Values in order, and then nothing, for so many fields. -/
def padded : Nat → List Json → List (Option Json)
  | 0, _ => []
  | n + 1, [] => none :: padded n []
  | n + 1, j :: js => some j :: padded n js

/-- The fields with names, in order. -/
def fields? (names : List String) : Json → Option (List (Option Json))
  | .object members => names.mapM fun n => field? members n.toList
  -- an array may leave out its last fields
  | .array items => if items.length ≤ names.length then some (padded names.length items) else none
  | _ => none

/-- A field that has to be there. -/
def required {α : Type} (decode : Json → Option α) (j : Option Json) : Option α := j.bind decode

/-- A field that may be missing or `null`. -/
def optional {α : Type} (decode : Json → Option α) : Option Json → Option (Option α)
  | none | some .null => some none
  | some j => (decode j).map some

def withDefault {α : Type} (default : α) (decode : Json → Option α) : Option Json → Option α
  | none => some default
  | some j => decode j

def bool? : Json → Option Bool
  | .bool b => some b
  | _ => none

/-- A number, integer or not. What is no finite number is no value. -/
def float? : Json → Option Binary64
  | .int i => (some (.ofInt i)).filter Binary64.isFinite
  | .float x => (some x).filter Binary64.isFinite
  | _ => none

def list? {α : Type} (decode : Json → Option α) (j : Json) : Option (List α) := j.items?.bind (·.mapM decode)

/-- Where a value stands: inside a record that is told from others by a tag, or not. -/
inductive Place where
  | untagged
  | tagged
deriving DecidableEq, Repr

/-- Nothing is `null`, and inside a tagged record also an object without members. -/
def Place.isNothing : Place → Json → Bool
  | _, .null => true
  | tagged, .object [] => true
  | _, _ => false

/-- One of several names, alone or with nothing as the only member of an object. -/
def named? {α : Type} (place : Place) (ofName? : Text → Option α) : Json → Option α
  | .string s => ofName? s
  | .object [(s, j)] => if place.isNothing j then ofName? s else none
  | _ => none

/-- Values under names; of two under one name the later one. -/
def dictionary? {α : Type} (decode : Json → Option α) : Json → Option (Dictionary α)
  | .object members => (members.mapM fun m : Text × Json => (decode m.2).map (m.1, ·)).map .ofList
  | _ => none

/-! ## Writing -/

/-- A number. What is no finite number is written as nothing. -/
def ofFloat (x : Binary64) : Json := if x.isFinite then .float x else .null

def always (name : String) (j : Json) : List (Text × Json) := [(name.toList, j)]

/-- A member that is written when there is a value. -/
def whenSome {α : Type} (name : String) (encode : α → Json) : Option α → List (Text × Json)
  | some a => [(name.toList, encode a)]
  | none => []

/-- A member that is written when the list is not empty. -/
def whenFull {α : Type} (name : String) (encode : α → Json) : List α → List (Text × Json)
  | [] => []
  | as => [(name.toList, .array (as.map encode))]

def ofList {α : Type} (encode : α → Json) (as : List α) : Json := .array (as.map encode)

def ofDictionary {α : Type} (encode : α → Json) (d : Dictionary α) : Json :=
  .object (d.entries.map fun (k, a) => (k, encode a))

/-- A record of its members in order. -/
def record (members : List (List (Text × Json))) : Json := .object members.flatten

end DialogueScript.Json
