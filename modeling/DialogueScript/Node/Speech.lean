import DialogueScript.Node.Layout
import DialogueScript.Node.Reading
/-!
# Speeches

The body of a speech is lines of dialogue by one speaker, commands that set flags, and at most one jump, in
any order; it is written in this one.
-/
namespace DialogueScript.Speech

/-- What is said, then the flags, then the jump. -/
def lines (s : Speech) : List Text :=
  Layout.spokenLines (some s.speaker) s.content ++ Layout.setLines s.setFlags ++ Layout.jumpLines s.next

/-- The speaker is known from the first line of dialogue on. -/
structure Progress where
  speaker : Option Text
  content : List Text
  next : Option Text
  setFlags : List Text
  deriving DecidableEq, Repr

def Progress.start : Progress := ⟨none, [], none, []⟩

/-- Adds a line of dialogue; all of them have one speaker. -/
def Progress.addDialogue (p : Progress) (line : Nat) (who text : Text) : Except NodeFault Progress :=
  match p.speaker with
  | some speaker =>
    if speaker = who then .ok { p with content := p.content ++ [text] }
    else .error ⟨line, .speechSpeaker speaker who⟩
  | none => .ok { p with speaker := some who, content := p.content ++ [text] }

/-- A line that is no comment is a jump, sets a flag or is dialogue. -/
def Progress.step (p : Progress) (l : SourceLine) : Except NodeFault Progress :=
  -- directives are among the comments
  if Line.isComment l.text then .ok p
  else match Line.command? l.text with
  | some (.jump target) =>
    if p.next.isSome then .error ⟨l.number, .speechSecondJump⟩
    else (Node.readTarget l.number target).map fun t => { p with next := some t }
  | some (.set flag value) =>
    (Node.readFlag l.number flag value).map fun f => { p with setFlags := p.setFlags ++ [f] }
  | some _ => .error ⟨l.number, .speechCommand l.text⟩
  | none => match Line.dialogue? l.text with
    | some (who, text) => p.addDialogue l.number who text
    | none => .error ⟨l.number, .speechLine l.text⟩

/-- The end of the body: somebody has to have spoken. -/
def Progress.finish (p : Progress) (titleLine : Nat) : Except NodeFault Speech :=
  match p.speaker with
  -- a speaker comes with a line of dialogue, so there is content, if only an empty line
  | some speaker => .ok ⟨speaker, Text.joinLines p.content, p.next, p.setFlags⟩
  | none => .error ⟨titleLine, .speechNoSpeaker⟩

def read (b : Block) : Except NodeFault Speech :=
  (b.meaningful.foldlM Progress.step .start).bind (·.finish b.titleLine)

end DialogueScript.Speech
