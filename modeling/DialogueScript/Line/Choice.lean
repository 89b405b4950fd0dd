import DialogueScript.Text.Escape
/-!
# Choice lines

A choice line is an arrow, the escaped text of the choice and, behind the first `#` that no backslash
precedes, tags. The tag `#line:` carries the id of the choice.
-/
namespace DialogueScript.Line

/-- The text in front of the first `#` that no backslash precedes, and the text from that `#` on. -/
def cutTags : Text → Text × Text
  | [] => ([], [])
  | ['\\'] => (['\\'], [])
  | '\\' :: c :: r => let (text, tags) := cutTags r; ('\\' :: c :: text, tags)
  | '#' :: r => ([], '#' :: r)
  | c :: r => let (text, tags) := cutTags r; (c :: text, tags)

/-- The first id, not empty, that a tag carries. -/
def tagId? (tags : Text) : Option Text :=
  -- the shape of the id is left to a check of the graph
  ((Text.words tags).filterMap (Text.after? "#line:".toList)).find? (!List.isEmpty ·)

/-- The text and the id of a choice line; `none` when the line does not start with an arrow. -/
def choice? (line : Text) : Option (Text × Option Text) :=
  (Text.after? ['-', '>'] line).map fun rest =>
    let (text, tags) := cutTags rest
    -- trimmed before it is unescaped, so an escaped blank stays
    (Text.unescape (Text.trim text), tagId? tags)

def choice (text id : Text) : Text := "-> ".toList ++ Text.escape text ++ " #line:".toList ++ id

end DialogueScript.Line
