import DialogueScript.Text.Blank
/-!
# Names

Four kinds of names appear in a script. Each is a first character of one class followed by any number
of characters of another; all classes are ASCII.

| kind          | first                  | later                       |
|---------------|------------------------|-----------------------------|
| node id       | letter, digit, `_`     | letter, digit, `_`, `.`, `-`|
| speaker       | letter, `_`            | letter, digit, `_`, `.`, `-`|
| flag          | letter, `_`            | letter, digit, `_`, `.`     |
| attribute key | lower-case letter, `_` | lower-case letter, digit, `_`|

A header key is read by its own rule, `letter` or `_` first and `letter`, `digit` or `_` later.
-/
namespace DialogueScript.Text

/-- A first character of one class, then characters of another. -/
def shaped (first later : Char → Bool) : Text → Bool
  | [] => false
  | c :: r => first c && r.all later

/-- A letter or `_`. -/
def isWordStart (c : Char) : Bool := c.isAlpha || c == '_'

/-- A letter, a digit or `_`. -/
def isWordChar (c : Char) : Bool := c.isAlphanum || c == '_'

/-- A letter, a digit, `_` or a point. -/
def isFlagChar (c : Char) : Bool := isWordChar c || c == '.'

/-- A letter, a digit, `_`, a point or a hyphen. -/
def isIdChar (c : Char) : Bool := isFlagChar c || c == '-'

/-- The id of a node, a choice or a branch. -/
def isNodeId (s : Text) : Bool := shaped isWordChar isIdChar s

/-- The name in front of a line of dialogue. -/
def isSpeaker (s : Text) : Bool := shaped isWordStart isIdChar s

/-- A flag, written after `$` in scripts. -/
def isFlag (s : Text) : Bool := shaped isWordStart isFlagChar s

/-- The name of a directive or the key of one of its attributes. -/
def isAttributeKey (s : Text) : Bool :=
  shaped (fun c => c.isLower || c == '_') (fun c => c.isLower || c.isDigit || c == '_') s

/-- The longest name at the start of a text, and what follows it; `none` when the text starts with no name. -/
def name? (first later : Char → Bool) : Text → Option (Text × Text)
  | [] => none
  | c :: r => if first c then some (c :: r.takeWhile later, r.dropWhile later) else none

theorem append_of_name? {first later : Char → Bool} {s n r : Text} (h : name? first later s = some (n, r)) :
    s = n ++ r := by
  cases s with
  | nil => simp [name?] at h
  | cons c s =>
    by_cases hc : first c
    · simp only [name?, hc, if_true, Option.some.injEq, Prod.mk.injEq] at h
      rw [← h.1, ← h.2]; simp
    · simp [name?, hc] at h

theorem shaped_of_name? {first later : Char → Bool} {s n r : Text} (h : name? first later s = some (n, r)) :
    shaped first later n := by
  cases s with
  | nil => simp [name?] at h
  | cons c s =>
    by_cases hc : first c
    · simp only [name?, hc, if_true, Option.some.injEq, Prod.mk.injEq] at h
      rw [← h.1]; simp [shaped, hc]
    · simp [name?, hc] at h

end DialogueScript.Text
