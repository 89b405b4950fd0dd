import DialogueScript.Decimal.Shortest
import DialogueScript.Json.Basic
/-!
# Writing JSON

A text is written as it is but for quotes, backslashes and control characters. A floating point number has
its shortest digits, of two equally near numerals the even one, and always a point or an exponent: an
exponent where a positional numeral would have more than sixteen digits in front of the point or more than
four zeros behind it. What is no finite number is written `null`.

* `Json.compact`: without any spaces.
* `Json.pretty`: one item or member on a line, indented by two spaces.
-/
namespace DialogueScript.Json

def hexDigit (n : Nat) : Char := Nat.digitChar (n % 16)

/-- The written form of a character of a string. -/
def writtenChar (c : Char) : Text :=
  if c = '"' then ['\\', '"']
  else if c = '\\' then ['\\', '\\']
  else if c = '\x08' then ['\\', 'b']
  else if c = '\x0c' then ['\\', 'f']
  else if c = '\n' then ['\\', 'n']
  else if c = '\r' then ['\\', 'r']
  else if c = '\t' then ['\\', 't']
  -- the control characters without a name
  else if c.toNat < 0x20 then ['\\', 'u', '0', '0', hexDigit (c.toNat / 16), hexDigit c.toNat]
  else [c]

def stringText (s : Text) : Text := '"' :: (s.flatMap writtenChar ++ ['"'])

def intText (i : Int) : Text := (if i < 0 then ['-'] else []) ++ Decimal.digits i.natAbs

/-- Digits with a point behind the first `n` of them. -/
def pointAfter (n : Nat) (ds : Text) : Text := ds.take n ++ '.' :: ds.drop n

/-- Zeros are written out as long as there are few of them, else there is an exponent. -/
def decimalText (x : Decimal) : Text :=
  let ds := Decimal.digits x.coefficient
  let point : Int := ds.length + x.exponent -- how many digits stand in front of the point
  if 0 ≤ x.exponent ∧ point ≤ 16 then ds ++ List.replicate x.exponent.toNat '0' ++ ['.', '0']
  else if 0 < point ∧ point ≤ 16 then pointAfter point.toNat ds
  else if -5 < point ∧ point ≤ 0 then '0' :: '.' :: (List.replicate (-point).toNat '0' ++ ds)
  else (if ds.length = 1 then ds else pointAfter 1 ds) ++ 'e' :: intText (point - 1)

def floatText : Binary64 → Text
  | .finite negative m => (if negative then ['-'] else []) ++ decimalText (m.shortest .even)
  | .infinite _ | .nan => "null".toList

/-- The written form of a value that is neither an array nor an object. -/
def scalarText : Json → Text
  | .bool true => "true".toList
  | .bool false => "false".toList
  | .int i => intText i
  | .float x => floatText x
  | .string s => stringText s
  | .null | .unreadable | .array _ | .object _ => "null".toList

mutual

/-- The value without any spaces. -/
def compact : Json → Text
  | .array items => '[' :: (compactItems items ++ [']'])
  | .object members => '\x7b' :: (compactMembers members ++ ['\x7d'])
  | j => scalarText j

def compactItems : List Json → Text
  | [] => []
  | [j] => compact j
  | j :: js => compact j ++ ',' :: compactItems js

def compactMembers : List (Text × Json) → Text
  | [] => []
  | [(k, j)] => stringText k ++ ':' :: compact j
  | (k, j) :: ms => stringText k ++ ':' :: (compact j ++ ',' :: compactMembers ms)

end

/-- A new line, indented so many times. -/
def newLine (depth : Nat) : Text := '\n' :: List.replicate (2 * depth) ' '

mutual

/-- The value with each item and member on a line of its own, inside of `depth` others. -/
def prettyAt (depth : Nat) : Json → Text
  | .array [] => ['[', ']']
  | .array items => '[' :: (prettyItems (depth + 1) items ++ newLine depth ++ [']'])
  | .object [] => ['\x7b', '\x7d']
  | .object members => '\x7b' :: (prettyMembers (depth + 1) members ++ newLine depth ++ ['\x7d'])
  | j => scalarText j

def prettyItems (depth : Nat) : List Json → Text
  | [] => []
  | [j] => newLine depth ++ prettyAt depth j
  | j :: js => newLine depth ++ prettyAt depth j ++ ',' :: prettyItems depth js

def prettyMembers (depth : Nat) : List (Text × Json) → Text
  | [] => []
  | [(k, j)] => newLine depth ++ stringText k ++ ':' :: ' ' :: prettyAt depth j
  | (k, j) :: ms => newLine depth ++ stringText k ++ ':' :: ' ' :: (prettyAt depth j ++ ',' :: prettyMembers depth ms)

end

/-- The value with each item and member on a line of its own. -/
def pretty (j : Json) : Text := prettyAt 0 j

end DialogueScript.Json
