import DialogueScript.Condition.Basic
import DialogueScript.Json.Record
/-!
# Conditions in JSON

A condition is a record of its flag, the name of its operator and, if there is one, its literal. A literal is
a JSON value of its own type; a number is read from an integer as well and never written as one.
-/
namespace DialogueScript
open Json

namespace Operator

def name : Operator → Text
  | isSet => "is_set".toList
  | isNotSet => "is_not_set".toList
  | equals => "equals".toList
  | notEquals => "not_equals".toList
  | greaterThan => "greater_than".toList
  | lessThan => "less_than".toList
  | greaterEqual => "greater_equal".toList
  | lessEqual => "less_equal".toList

def all : List Operator :=
  [isSet, isNotSet, equals, notEquals, greaterThan, lessThan, greaterEqual, lessEqual]

def ofName? (s : Text) : Option Operator := all.find? (·.name == s)

theorem ofName?_name (o : Operator) : ofName? o.name = some o := by cases o <;> decide

end Operator

def Literal.toJson : Literal → Json
  | bool b => .bool b
  | number x => ofFloat x -- an integer gets a point
  | text t => .string t

/-- An integer is read as a number. -/
def Literal.ofJson? : Json → Option Literal
  | .bool b => some (.bool b)
  | .string t => some (.text t)
  | j => (float? j).map .number

def Condition.toJson (c : Condition) : Json :=
  record [always "flag" (.string c.flag), always "operator" (.string c.operator.name),
    whenSome "value" Literal.toJson c.literal?]

def Condition.ofJson? (place : Place) (j : Json) : Option Condition :=
  match fields? ["flag", "operator", "value"] j with
  | some [flag, operator, literal] => do
    return ⟨← required string? flag, ← required (named? place Operator.ofName?) operator,
      ← optional Literal.ofJson? literal⟩
  | _ => none

end DialogueScript
