import DialogueScript.Text.Escape
import DialogueScript.Text.Name
/-!
# Lines of dialogue, narration and comments

A spoken line is a speaker, a colon and the escaped text. A narrated line has no speaker and is written so
that it can be read as nothing else: not as dialogue, a choice, a comment, a delimiter or a blank line.

* `spoken`, `narrated`: the written forms.
* `dialogue?`: the speaker and the text of a spoken line.
-/
namespace DialogueScript.Line

/-- A line that starts with two slashes. -/
def isComment (line : Text) : Bool := (Text.after? ['/', '/'] line).isSome

/-- The speaker in front of the first colon and all that follows the colon, which has to be one line. -/
def speaker? (line : Text) : Option (Text × Text) :=
  match Text.name? Text.isWordStart Text.isIdChar line with
  | some (who, ':' :: rest) => if rest.contains '\n' then none else some (who, rest)
  | _ => none

/-- Drops the one space that separates a colon from the text behind it. -/
def afterSpace : Text → Text
  | ' ' :: r => r
  | r => r

def dialogue? (line : Text) : Option (Text × Text) :=
  (speaker? line).map fun (who, rest) => (who, Text.unescape (afterSpace rest))

/-- A line spoken by `who`. -/
def spoken (who line : Text) : Text :=
  match Text.escape line with
  | [] => who ++ [':'] -- a space at the end would be trimmed away
  | c :: r => who ++ ':' :: ' ' :: c :: r

/-- A line spoken by nobody. An empty one is a lone backslash; a backslash takes their meaning away from a
first `-`, `/` or `=` and from a colon behind what would be a speaker. -/
def narrated (line : Text) : Text :=
  match Text.escape line with
  | [] => ['\\']
  | c :: r =>
    if c = '-' ∨ c = '/' ∨ c = '=' then '\\' :: c :: r
    else match speaker? (c :: r) with
      -- a backslash cannot belong to the name of a speaker
      | some (who, rest) => who ++ '\\' :: ':' :: rest
      | none => c :: r

end DialogueScript.Line
