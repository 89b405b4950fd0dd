/-!
# Text and blank characters

A script is read as a list of characters. A character is *blank* when Unicode gives it the property
`White_Space`; the same set decides what is trimmed, what separates words and what ends a word.

* `isBlank`: the table of the property.
* `trim`: a text without its blank ends.
* `words`: the maximal runs of characters that are not blank.
-/
namespace DialogueScript

/-- A run of Unicode scalar values. -/
abbrev Text := List Char

namespace Text

/-- The code points with the property `White_Space`: nine in the Latin-1 range, the rest in the general
punctuation block and beside it. -/
def isBlank (c : Char) : Bool :=
  let n := c.val.toNat
  (9 ≤ n && n ≤ 13) || n == 0x20 || n == 0x85 || n == 0xA0 || n == 0x1680 || (0x2000 ≤ n && n ≤ 0x200A) ||
    n == 0x2028 || n == 0x2029 || n == 0x202F || n == 0x205F || n == 0x3000

/-- The text from its first character that is not blank. -/
def trimStart (s : Text) : Text := s.dropWhile isBlank

/-- The text up to its last character that is not blank. -/
def trimEnd : Text → Text
  | [] => []
  | c :: r => match trimEnd r with
    | [] => if isBlank c then [] else [c]
    | d :: t => c :: d :: t

/-- The text without blank characters at either end. -/
def trim (s : Text) : Text := trimEnd (trimStart s)

/-- The text is empty or has blank characters only. -/
def isBlankText (s : Text) : Bool := s.all isBlank

/-- The first run of characters that are not blank, and what follows it. -/
def word (s : Text) : Text × Text := s.span (!isBlank ·)

/-- The maximal runs of characters that are not blank, given the run being collected. -/
def wordsFrom (run : Text) : Text → List Text
  | [] => if run.isEmpty then [] else [run.reverse]
  | c :: r => match isBlank c, run with
    | true, [] => wordsFrom [] r
    | true, _ :: _ => run.reverse :: wordsFrom [] r
    | false, _ => wordsFrom (c :: run) r

/-- The maximal runs of characters that are not blank, in order. -/
def words (s : Text) : List Text := wordsFrom [] s

/-- What follows `p` at the start of `s`. -/
def after? : (p s : Text) → Option Text
  | [], s => some s
  | a :: p, b :: s => if a = b then after? p s else none
  | _ :: _, [] => none

/-- What precedes `e` at the end of `s`. -/
def before? (e s : Text) : Option Text := (after? e.reverse s.reverse).map List.reverse

/-- What follows the blank characters in front, when it is not empty and holds no newline. -/
def remainder? (s : Text) : Option Text :=
  let r := trimStart s
  if r.isEmpty || r.contains '\n' then none else some r

/-- The text with ASCII letters in lower case and all other characters as they are. -/
def lower (s : Text) : Text := s.map Char.toLower

/-! ## Laws -/

theorem trimEnd_cons (c : Char) (r : Text) :
    trimEnd (c :: r) = if trimEnd r = [] ∧ isBlank c then [] else c :: trimEnd r := by
  rw [trimEnd]
  cases trimEnd r with
  | nil => by_cases h : isBlank c <;> simp [h]
  | cons d t => simp

theorem after?_append (p s : Text) : after? p (p ++ s) = some s := by
  induction p with
  | nil => rfl
  | cons c p ih => simp [after?, ih]

theorem eq_append_of_after? {p s r : Text} (h : after? p s = some r) : s = p ++ r := by
  induction p generalizing s with
  | nil => simpa [after?] using h
  | cons a p ih =>
    cases s with
    | nil => simp [after?] at h
    | cons b s =>
      by_cases hab : a = b
      · subst hab; simp only [after?, if_true] at h; rw [ih h]; rfl
      · simp [after?, hab] at h

theorem after?_eq_some_iff {p s r : Text} : after? p s = some r ↔ s = p ++ r :=
  ⟨eq_append_of_after?, fun h => h ▸ after?_append p r⟩

theorem before?_eq_some_iff {e s r : Text} : before? e s = some r ↔ s = r ++ e := by
  simp only [before?, Option.map_eq_some_iff, after?_eq_some_iff]
  constructor
  · rintro ⟨q, hq, rfl⟩
    have := congrArg List.reverse hq
    simpa using this
  · rintro rfl; exact ⟨r.reverse, by simp, by simp⟩

end Text
end DialogueScript
