import DialogueScript.Decimal.Numeral
import DialogueScript.Text.Quoted
/-!
# Conditions

A condition tests one flag of the game: whether it is set, or how its value compares with a literal. Several
conditions on one choice or branch hold together.

* `Operator`, with its symbol and its spellings.
* `Literal`, with its type and its written form.
* `Condition.text`, `Condition.joined`: the canonical written forms.
-/
namespace DialogueScript

inductive Operator
  | isSet
  | isNotSet
  | equals
  | notEquals
  | greaterThan
  | lessThan
  | greaterEqual
  | lessEqual
  deriving DecidableEq, Repr

namespace Operator

/-- The symbol between the flag and the literal. -/
def symbol? : Operator → Option Text
  | isSet | isNotSet => none
  | equals => some ['=', '=']
  | notEquals => some ['!', '=']
  | greaterThan => some ['>']
  | lessThan => some ['<']
  | greaterEqual => some ['>', '=']
  | lessEqual => some ['<', '=']

def ofSymbol? (s : Text) : Option Operator :=
  if s = ['=', '='] then some equals
  else if s = ['!', '='] then some notEquals
  else if s = ['>', '='] then some greaterEqual
  else if s = ['<', '='] then some lessEqual
  else if s = ['>'] then some greaterThan
  else if s = ['<'] then some lessThan
  else none

/-- The operator with a name, in any case. -/
def ofWord? (s : Text) : Option Operator :=
  let w := Text.lower s
  if w = "is".toList ∨ w = "eq".toList then some equals
  else if w = "neq".toList then some notEquals
  else if w = "gte".toList then some greaterEqual
  else if w = "lte".toList then some lessEqual
  else if w = "gt".toList then some greaterThan
  else if w = "lt".toList then some lessThan
  else none

/-- The operator that a symbol or a name spells. -/
def ofToken? (s : Text) : Option Operator := (ofSymbol? s).or (ofWord? s)

def takesLiteral (o : Operator) : Bool := o.symbol?.isSome

/-- The operator asks for more or less, which only numbers are. -/
def isOrdering : Operator → Bool
  | greaterThan | lessThan | greaterEqual | lessEqual => true
  | _ => false

end Operator

inductive Literal
  | bool (value : Bool)
  | number (value : Binary64)
  | text (value : Text)
  deriving DecidableEq, Repr

namespace Literal

/-- The written form: a truth value by its name, a number by its numeral, a text always in double quotes, so
that it is never read as one of the others. -/
def written : Literal → Text
  | bool true => "true".toList
  | bool false => "false".toList
  | number x => x.text
  | text t => t.quote

/-- The literal that a word other than a number stands for. -/
def ofWord (s : Text) : Literal :=
  if s = "true".toList then .bool true
  else if s = "false".toList then .bool false
  else .text (Text.unquote s)

/-- The literal that an operand stands for: a finite number, else a truth value, else a text without one
pair of quotes around it. -/
def ofOperand (operand : Text) : Literal :=
  let s := Text.trim operand
  match Binary64.read? s with
  -- `inf` and `nan` are numerals, and texts here
  | some x => if x.isFinite then .number x else ofWord s
  | none => ofWord s

/-- Both zeros compare as one number. -/
def plainZero : Literal → Literal
  | number x => number x.plainZero
  | l => l

def isFinite : Literal → Bool
  | number x => x.isFinite
  | _ => true

end Literal

/-- Whether the literal suits the operator is left to a check. -/
structure Condition where
  flag : Text
  operator : Operator
  literal? : Option Literal -- what the flag is compared with
  deriving DecidableEq, Repr

namespace Condition

def isSet (flag : Text) : Condition := ⟨flag, .isSet, none⟩

def isNotSet (flag : Text) : Condition := ⟨flag, .isNotSet, none⟩

def compare (flag : Text) (operator : Operator) (literal : Literal) : Condition := ⟨flag, operator, some literal⟩

/-- There is a literal exactly when the operator compares with one. -/
def isWellFormed (c : Condition) : Bool := c.operator.takesLiteral == c.literal?.isSome

/-- The written form. A comparison without a literal compares with the empty text. -/
def text (c : Condition) : Text :=
  match c.operator.symbol? with
  | none => if c.operator = .isNotSet then "not $".toList ++ c.flag else '$' :: c.flag
  | some symbol =>
    let operand := match c.literal? with
      | some l => l.written
      | none => ['"', '"']
    '$' :: (c.flag ++ ' ' :: (symbol ++ ' ' :: operand))

/-- The written form of conditions that hold together. -/
def joined : List Condition → Text
  | [] => []
  | [c] => c.text
  | c :: cs => c.text ++ " and ".toList ++ joined cs

def plainZero (c : Condition) : Condition := { c with literal? := c.literal?.map Literal.plainZero }

end Condition
end DialogueScript
