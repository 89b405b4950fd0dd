import DialogueScript.Text.Blank
/-!
# Escaped text

Inside a line of a script a backslash takes its meaning away from the next character. Writing puts a
backslash before each character the script gives a meaning to, and guards the ends of the text, since
lines are trimmed when they are read: a blank first character gets a backslash in front, and a blank last
character gets one behind, which means nothing once it is alone at the end.

Results:
* `unescape_escape`: unescaping inverts escaping.
-/
namespace DialogueScript.Text

/-- The characters with a meaning inside a line. -/
def isMark (c : Char) : Bool :=
  c == '\\' || c == '#' || c == '<' || c == '>' || c == '{' || c == '}'

/-- The written form of a character inside a line. -/
def escapedChar (c : Char) : Text := if isMark c then ['\\', c] else [c]

/-- The written form of the first character of a line. -/
def escapedFirst (c : Char) : Text := if isMark c || isBlank c then ['\\', c] else [c]

/-- A backslash when the text ends with a blank character, which it guards. -/
def endGuard (s : Text) : Text :=
  match s.getLast? with
  | some c => if isBlank c then ['\\'] else []
  | none => []

/-- The written form of a text inside a line. -/
def escape : Text → Text
  | [] => []
  | c :: r => escapedFirst c ++ r.flatMap escapedChar ++ endGuard (c :: r)

/-- Drops each backslash and keeps the character after it. -/
def unescape : Text → Text
  | [] => []
  | ['\\'] => [] -- the guard of a last blank
  | '\\' :: c :: r => c :: unescape r
  | c :: r => c :: unescape r

/-! ## Laws -/

theorem unescape_cons_of_ne {c : Char} (h : c ≠ '\\') (r : Text) : unescape (c :: r) = c :: unescape r := by
  rw [unescape]
  · intro h' _; exact h h'
  · intro d r' h' _; exact h h'

theorem ne_backslash_of_not_isMark {c : Char} (h : isMark c = false) : c ≠ '\\' := by
  intro he; subst he; simp [isMark] at h

theorem unescape_escapedChar (c : Char) (r : Text) : unescape (escapedChar c ++ r) = c :: unescape r := by
  unfold escapedChar
  by_cases h : isMark c
  · rw [if_pos h]; rfl
  · rw [if_neg h]; exact unescape_cons_of_ne (ne_backslash_of_not_isMark (by simpa using h)) r

theorem unescape_escapedFirst (c : Char) (r : Text) : unescape (escapedFirst c ++ r) = c :: unescape r := by
  unfold escapedFirst
  by_cases h : isMark c || isBlank c
  · rw [if_pos h]; rfl
  · rw [if_neg h]
    have h' : isMark c = false := by simp_all
    exact unescape_cons_of_ne (ne_backslash_of_not_isMark h') r

theorem unescape_flatMap (s r : Text) : unescape (s.flatMap escapedChar ++ r) = s ++ unescape r := by
  induction s with
  | nil => rfl
  | cons c s ih => rw [List.flatMap_cons, List.append_assoc, unescape_escapedChar, ih]; rfl

theorem unescape_endGuard (s : Text) : unescape (endGuard s) = [] := by
  unfold endGuard
  split
  · split <;> rfl
  · rfl

theorem unescape_escape (s : Text) : unescape (escape s) = s := by
  cases s with
  | nil => rfl
  | cons c r =>
    rw [escape, List.append_assoc, unescape_escapedFirst, unescape_flatMap, unescape_endGuard, List.append_nil]

end DialogueScript.Text
