import DialogueScript.Text.Blank
import DialogueScript.Text.Name
/-!
# Commands

A command stands between `<<` and `>>`: a keyword and, behind blank characters, its argument.

* `command?`: reads a command line.
* `jump`, `set`: the written forms of the two commands that nodes of every kind can hold.
-/
namespace DialogueScript.Line

/-- A command line. What is between the brackets of a line that is none of the known commands is kept. -/
inductive Command
  | jump (target : Text)
  | set (flag value : Text)
  | ifThen (condition : Text)
  | elseIf (condition : Text)
  | orElse
  | endIf
  | other (inner : Text)
  deriving DecidableEq, Repr

/-- The value of an assignment: what stands behind `=` or, in any case, behind `to`. -/
def assignment? (s : Text) : Option Text :=
  match Text.trimStart s with
  | '=' :: r => Text.remainder? r
  | t :: o :: r => if t.toLower = 't' ∧ o.toLower = 'o' then Text.remainder? r else none
  | _ => none

/-- Splits a text into flag characters and an assignment, with as many flag characters as leave one. -/
def flagAssignment? : Text → Option (Text × Text)
  | [] => none
  | c :: r =>
    let here := (assignment? (c :: r)).map fun v => ([], v)
    -- a longer flag is tried first, so the `to` of an assignment may be taken off the flag itself
    if Text.isFlagChar c then
      match flagAssignment? r with
      | some (flag, v) => some (c :: flag, v)
      | none => here
    else here

/-- The flag and the value of `$flag = value` or `$flag to value`. -/
def setting? : Text → Option (Text × Text)
  | '$' :: c :: r =>
    if Text.isWordStart c then (flagAssignment? r).map fun (flag, v) => (c :: flag, Text.trim v) else none
  | _ => none

/-- The command that a keyword and its argument make. -/
def Command.ofParts (inner keyword argument : Text) : Command :=
  if keyword = "jump".toList then .jump argument
  else if keyword = "if".toList then .ifThen argument
  else if keyword = "elseif".toList then .elseIf argument
  else if keyword = "else".toList ∧ argument = [] then .orElse
  else if keyword = "endif".toList ∧ argument = [] then .endIf
  else if keyword = "set".toList then
    match setting? argument with
    | some (flag, value) => .set flag value
    | none => .other inner -- what is set is not `$flag`, or no value follows
  else .other inner

/-- What stands between `<<` and `>>`, trimmed. -/
def bracketed? (line : Text) : Option Text :=
  ((Text.after? ['<', '<'] line).bind (Text.before? ['>', '>'])).map Text.trim

/-- Reads a command line; `none` when the line is not between `<<` and `>>`. -/
def command? (line : Text) : Option Command :=
  (bracketed? line).map fun inner =>
    .ofParts inner (inner.takeWhile (!Text.isBlank ·)) (Text.trim (inner.dropWhile (!Text.isBlank ·)))

/-- The line that continues at `target`. -/
def jump (target : Text) : Text := "<<jump ".toList ++ target ++ ">>".toList

def set (flag : Text) : Text := "<<set $".toList ++ flag ++ " = true>>".toList

end DialogueScript.Line
