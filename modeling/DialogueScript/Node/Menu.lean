import DialogueScript.Node.Layout
import DialogueScript.Node.Reading
/-!
# Menus

The body of a menu is a row of choices. A choice is open until the next choice or bracket: commands that set
flags and one jump go to the choice that is open. Choices between `<<if …>>` and `<<endif>>` hold under the
conditions of the bracket; brackets do not nest.

* `Menu.Event`: a line of the body, with its text put aside.
* `Menu.Progress.step`: what an event does to the choices read so far.
* `Menu.read`: reads a body as a row of events.
-/
namespace DialogueScript.Menu

def lines (m : Menu) : List Text := m.choices.flatMap Layout.choiceLines

inductive Event
  | choice (text : Text) (id : Option Text)
  | jump (target : Text)
  | set (flag : Text)
  | ifThen (conditions : List Condition)
  | endIf
  deriving DecidableEq, Repr

/-- The choices that are closed, the one that is open, and the conditions of the bracket around it. -/
structure Progress where
  closed : List Choice
  current : Option Choice
  guard : Option (List Condition)
  deriving DecidableEq, Repr

namespace Progress

/-- No choices, outside of brackets. -/
def start : Progress := ⟨[], none, none⟩

def choices (p : Progress) : List Choice := p.closed ++ p.current.toList

/-- The id of the next choice of a node, when its line names none. -/
def defaultId (node : Text) (p : Progress) : Text :=
  node ++ "-choice-".toList ++ Decimal.digits (p.choices.length + 1)

/-- Opens a choice, inside the conditions of the bracket. -/
def openChoice (node : Text) (p : Progress) (text : Text) (id : Option Text) : Except MenuFault Progress :=
  if text.isEmpty then .error .noText
  else .ok { p with
    closed := p.choices
    -- an id that is made up is not compared with the ids that are written
    current := some ⟨id.getD (p.defaultId node), text, none, p.guard.getD [], []⟩ }

/-- A jump and a flag go to the open choice; a bracket closes the choice in front of it. -/
def step (node : Text) (p : Progress) : Event → Except MenuFault Progress
  | .choice text id => p.openChoice node text id
  | .jump target => match p.current with
    | none => .error .noChoiceOpen
    | some c =>
      if c.next.isSome then .error (.secondJump c.id) else .ok { p with current := some { c with next := some target } }
  | .set flag => match p.current with
    | none => .error .noChoiceOpen
    | some c => .ok { p with current := some { c with setFlags := c.setFlags ++ [flag] } }
  | .ifThen conditions => match p.guard with
    | some _ => .error .nestedIf
    | none => if conditions.isEmpty then .error .noCondition else .ok ⟨p.choices, none, some conditions⟩
  | .endIf => match p.guard with
    | some _ => .ok ⟨p.choices, none, none⟩
    | none => .error .endWithoutIf

end Progress

/-- The event of a line, and the line of the bracket that is open after it. -/
def event (ctx : Node.Context) (ifLine : Nat) (l : SourceLine) : Reading NodeFault (Event × Nat) :=
  match Line.choice? l.text with
  | some (text, id) => .ok (.choice text id, ifLine)
  | none => match Line.command? l.text with
    | some (.jump target) => .ofExcept ((Node.readTarget l.number target).map fun t => (.jump t, ifLine))
    | some (.set flag value) => .ofExcept ((Node.readFlag l.number flag value).map fun f => (.set f, ifLine))
    | some (.ifThen condition) =>
      (Node.readConditions ctx l.number condition).andThen fun cs => .ok (.ifThen cs, l.number)
    | some .endIf => .ok (.endIf, ifLine)
    | _ => .fail ⟨l.number, .menuLine l.text⟩

/-- Reads one line, given the choices so far and the line of the last bracket. -/
def readLine (ctx : Node.Context) (s : Progress × Nat) (l : SourceLine) : Reading NodeFault (Progress × Nat) :=
  -- a directive is a comment too
  if Line.isComment l.text then .ok s
  else (event ctx s.2 l).andThen fun (e, ifLine) =>
    .ofExcept (((s.1.step ctx.node e).mapError fun f => ⟨l.number, .menu f⟩).map (·, ifLine))

/-- The end of the body: no bracket may be open, and there has to be a choice. -/
def finish (titleLine : Nat) (s : Progress × Nat) : Except NodeFault Menu :=
  -- reported at the line that opened the bracket
  if s.1.guard.isSome then .error ⟨s.2, .notEnded⟩
  else if s.1.choices.isEmpty then .error ⟨titleLine, .menuNoChoices⟩
  else .ok ⟨s.1.choices⟩

def read (ctx : Node.Context) (b : Block) : Reading NodeFault Menu :=
  (b.meaningful.foldlM (readLine ctx) (.start, b.titleLine)).andThen fun s => .ofExcept (finish b.titleLine s)

end DialogueScript.Menu
