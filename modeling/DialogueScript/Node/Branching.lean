import DialogueScript.Node.Layout
import DialogueScript.Node.Reading
/-!
# Branchings

The body of a branching is one chain: `<<if …>>`, any number of `<<elseif …>>`, at most one `<<else>>`, and
`<<endif>>`. A branch may start with a directive that names it; then comes what it says, all of it dialogue
of one speaker or all of it narration, and at most one jump at its end.

* `Branching.lines`: the written form.
* `Branching.read`: reads a chain.
-/
namespace DialogueScript.Branching

def blockName : Text := "block".toList

def openingLine (b : Branch) : Text :=
  match b.kind with
  | .orElse => "<<else>>".toList
  | kind => Layout.guardLine kind.keyword b.conditions

/-- The id of a branch is always written. -/
def branchLines (b : Branch) : List Text :=
  openingLine b :: Layout.indented
    (Directive.line ⟨blockName, [("id".toList, b.id)]⟩ ::
      (Layout.spokenLines b.speaker b.content ++ Layout.jumpLines b.next))

/-- A branching without branches has no lines, not even the last one. -/
def lines (b : Branching) : List Text :=
  if b.branches.isEmpty then [] else b.branches.flatMap branchLines ++ [Layout.endIfLine]

/-! ## Reading -/

/-- A branch that is being read, with the line that opened it. -/
structure OpenBranch where
  line : Nat
  id : Option Text
  kind : BranchKind
  condition : Option (List Condition)
  speaker : Option Text
  isNarrated : Bool
  content : List Text
  next : Option Text
  deriving DecidableEq, Repr

namespace OpenBranch

/-- A branch of which nothing but its opening line was read. -/
def start (line : Nat) (kind : BranchKind) (condition : Option (List Condition)) : OpenBranch :=
  ⟨line, none, kind, condition, none, false, [], none⟩

/-- Nothing but the opening line was read. -/
def isUntouched (b : OpenBranch) : Bool := b.id.isNone && b.content.isEmpty && b.next.isNone

/-- The finished branch, which is the one behind `count` others. -/
def finish (node : Text) (count : Nat) (b : OpenBranch) : Except NodeFault Branch :=
  let id := b.id.getD (node ++ "-block-".toList ++ Decimal.digits (count + 1))
  match Branch.make id b.kind b.condition (Text.joinLines b.content) with
  | .ok r => .ok { r with speaker := b.speaker, next := b.next }
  | .error f => .error ⟨b.line, .branch f⟩

/-- Adds a line of what the branch says. -/
def addContent (b : OpenBranch) (l : SourceLine) : Except NodeFault OpenBranch :=
  match Line.dialogue? l.text with
  | some (who, text) =>
    if b.isNarrated then .error ⟨l.number, .mixed⟩
    else match b.speaker with
    | some speaker =>
      if speaker = who then .ok { b with content := b.content ++ [text] }
      else .error ⟨l.number, .branchSpeaker speaker who⟩
    | none => .ok { b with speaker := some who, content := b.content ++ [text] }
  | none =>
    -- what is no dialogue, choice or command is narration
    if b.speaker.isSome then .error ⟨l.number, .mixed⟩
    else .ok { b with isNarrated := true, content := b.content ++ [Text.unescape l.text] }

end OpenBranch

/-- The branches that are finished and the one that is open; whether the chain was begun, and ended. -/
structure Progress where
  done : List Branch
  current : Option OpenBranch
  isBegun : Bool
  isEnded : Bool
  deriving DecidableEq, Repr

namespace Progress

def start : Progress := ⟨[], none, false, false⟩

/-- The branch that is open, for a line that belongs to one. -/
def openBranch (p : Progress) (line : Nat) : Except NodeFault OpenBranch :=
  match p.current with
  | some b => .ok b
  | none => .error ⟨line, .branchOutside⟩

/-- Finishes the branch that is open, for a line with a keyword. Only the end follows the last branch. -/
def closeBranch (node : Text) (p : Progress) (line : Nat) (keyword : Text) : Except NodeFault Progress :=
  match p.current with
  | none => .error ⟨line, .withoutIf keyword⟩
  | some b =>
    if b.kind = .orElse ∧ keyword ≠ "endif".toList then .error ⟨line, .afterElse keyword⟩
    -- `endif` leaves no branch open, the other two open the next one
    else (b.finish node p.done.length).map fun r => { p with done := p.done ++ [r], current := none }

/-- Reads a directive: it names the open branch, at its start. -/
def readDirective (p : Progress) (line : Nat) (d : Except Directive.Fault Directive) : Except NodeFault Progress :=
  match d with
  | .error f => .error ⟨line, .directive f⟩
  | .ok d => match p.current with
    | some b =>
      if d.name = blockName ∧ b.isUntouched then
        -- an empty id is none
        match d.get? "id".toList with
        | some (c :: id) => .ok { p with current := some { b with id := some (c :: id) } }
        | _ => .error ⟨line, .branchWithoutId⟩
      else .error ⟨line, .branchingDirective d.name⟩
    | none => .error ⟨line, .branchingDirective d.name⟩

/-- Reads a jump, which ends the open branch. -/
def readJump (p : Progress) (line : Nat) (target : Text) : Except NodeFault Progress := do
  let t ← Node.readTarget line target
  let b ← p.openBranch line
  if b.next.isSome then .error ⟨line, .branchSecondJump⟩
  else .ok { p with current := some { b with next := some t } }

/-- Reads a line of what the open branch says. -/
def readContent (p : Progress) (l : SourceLine) : Except NodeFault Progress := do
  let b ← p.openBranch l.number
  if b.next.isSome then .error ⟨l.number, .afterJump⟩
  else (b.addContent l).map fun b => { p with current := some b }

/-- Opens a branch that holds under conditions. -/
def openGuarded (ctx : Node.Context) (p : Progress) (line : Nat) (kind : BranchKind) (condition : Text) :
    Reading NodeFault Progress :=
  (Node.readConditions ctx line condition).andThen fun cs =>
    .ok { p with current := some (.start line kind (some cs)), isBegun := true }

/-- A chain is begun once; each keyword but the first closes the branch in front of it. -/
def readCommand (ctx : Node.Context) (p : Progress) (l : SourceLine) : Line.Command → Reading NodeFault Progress
  | .ifThen condition =>
    if p.isBegun then .fail ⟨l.number, .branchingNestedIf⟩ else p.openGuarded ctx l.number .ifThen condition
  | .elseIf condition =>
    (Reading.ofExcept (p.closeBranch ctx.node l.number "elseif".toList)).andThen fun q =>
      q.openGuarded ctx l.number .elseIf condition
  | .orElse =>
    .ofExcept ((p.closeBranch ctx.node l.number "else".toList).map fun q =>
      { q with current := some (.start l.number .orElse none) })
  | .endIf => .ofExcept ((p.closeBranch ctx.node l.number "endif".toList).map fun q => { q with isEnded := true })
  | .jump target => .ofExcept (p.readJump l.number target)
  | .set .. | .other _ => .fail ⟨l.number, .branchingCommand l.text⟩

/-- Behind the end of the chain only mere comments may stand. -/
def step (ctx : Node.Context) (p : Progress) (l : SourceLine) : Reading NodeFault Progress :=
  if p.isEnded then .fail ⟨l.number, .afterEnd l.text⟩
  else match Line.directive? l.text, Line.command? l.text with
  -- directives are comments, so they are looked for first
  | some d, _ => .ofExcept (p.readDirective l.number d)
  | none, some c => p.readCommand ctx l c
  | none, none =>
    if Line.isComment l.text then .ok p
    else if (Line.choice? l.text).isSome then .fail ⟨l.number, .branchingChoice⟩
    else .ofExcept (p.readContent l)

/-- The end of the body: the chain has to be closed, and there has to be one. -/
def finish (p : Progress) (titleLine : Nat) : Except NodeFault Branching :=
  match p.current with
  | some b => .error ⟨b.line, .notEnded⟩
  | none => if p.done.isEmpty then .error ⟨titleLine, .noBranches⟩ else .ok ⟨p.done⟩

end Progress

def read (ctx : Node.Context) (b : Block) : Reading NodeFault Branching :=
  (b.meaningful.foldlM (Progress.step ctx) .start).andThen fun p => .ofExcept (p.finish b.titleLine)

end DialogueScript.Branching
