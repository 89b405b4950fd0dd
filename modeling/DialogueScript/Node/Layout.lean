import DialogueScript.Condition.Basic
import DialogueScript.Graph.Payload
import DialogueScript.Line.Choice
import DialogueScript.Line.Command
import DialogueScript.Line.Dialogue
import DialogueScript.Line.Directive
import DialogueScript.Script.Outline
import DialogueScript.Text.Lines
/-!
# Laying out a block

The body of a block is a list of lines; what stands inside something else is indented by four spaces more.

* `spokenLines`, `jumpLines`, `setLines`, `choiceLines`: the lines of the parts of a body.
* `BlockDraft`: a block that is being written line by line.
-/
namespace DialogueScript.Layout

/-- One step of indentation. -/
def indent : Text := [' ', ' ', ' ', ' ']

/-- The lines, indented once. -/
def indented (lines : List Text) : List Text := lines.map (indent ++ ·)

/-- The lines of a text that somebody says. Narration without a text has no lines. -/
def spokenLines (speaker : Option Text) (content : Text) : List Text :=
  match speaker with
  | some who => (Text.pieces content).map (Line.spoken who)
  | none => if content.isEmpty then [] else (Text.pieces content).map Line.narrated

/-- The line of a jump, if there is one. -/
def jumpLines (target : Option Text) : List Text := (target.map Line.jump).toList

def setLines (flags : List Text) : List Text := flags.map Line.set

/-- The line that opens a branch which holds under conditions. -/
def guardLine (keyword : Text) (conditions : List Condition) : Text :=
  "<<".toList ++ keyword ++ ' ' :: (Condition.joined conditions ++ ">>".toList)

def endIfLine : Text := "<<endif>>".toList

/-- A choice, what it sets and where it goes on. -/
def plainChoiceLines (c : Choice) : List Text :=
  Line.choice c.text c.id :: indented (setLines c.setFlags ++ jumpLines c.next)

/-- A choice, inside its conditions if it has any. -/
def choiceLines (c : Choice) : List Text :=
  match c.conditions with
  | [] => plainChoiceLines c
  | cs => guardLine "if".toList cs :: (indented (plainChoiceLines c) ++ [endIfLine])

/-- A block that is being written: its headers, its lines, and how far the next line is indented. -/
structure BlockDraft where
  title : Text
  headers : List (Text × Text)
  body : List Text
  depth : Nat
  deriving DecidableEq, Repr

namespace BlockDraft

def start (title : Text) : BlockDraft := ⟨title, [], [], 0⟩

def addHeader (d : BlockDraft) (key value : Text) : BlockDraft := { d with headers := d.headers ++ [(key, value)] }

/-- Adds lines at the present indentation. -/
def addLines (d : BlockDraft) (lines : List Text) : BlockDraft :=
  { d with body := d.body ++ lines.map ((List.replicate d.depth indent).flatten ++ ·) }

/-- Indents later lines once more. -/
def deepen (d : BlockDraft) : BlockDraft := { d with depth := d.depth + 1 }

/-- Indents later lines once less, if they are indented at all. -/
def raise (d : BlockDraft) : BlockDraft := { d with depth := d.depth - 1 }

def headerText : Text × Text → Text
  | (key, value) => key ++ ':' :: ' ' :: value

def lines (d : BlockDraft) : List Text :=
  headerText ("title".toList, d.title) :: (d.headers.map headerText ++
    Outline.bodyMark :: (d.body ++ [Outline.endMark]))

def text (d : BlockDraft) : Text := Text.joinLines d.lines

end BlockDraft
end DialogueScript.Layout
