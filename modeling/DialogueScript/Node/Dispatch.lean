import DialogueScript.Graph.Basic
import DialogueScript.Node.Branching
import DialogueScript.Node.Menu
import DialogueScript.Node.Speech
import DialogueScript.Node.Storylet
/-!
# Blocks and nodes

A block does not say which kind of node it is: its lines show it. A directive of a storylet or a pool decides
first, then a choice line anywhere, then the first line that is neither a comment nor a directive.

* `Block.kind`: the kind of node that a block is.
* `Block.payload`, `Payload.lines`: reading and writing what a node holds.
* `Block.node`, `Node.block`: reading and writing the node with its position.
-/
namespace DialogueScript

/-- The well-formed directive on a line. -/
def SourceLine.directive? (l : SourceLine) : Option Directive :=
  match Line.directive? l.text with
  | some (.ok d) => some d
  | _ => none

/-- The kind of node that has a directive of its own. -/
def Directive.kind? (d : Directive) : Option Kind :=
  if d.name = Pool.directiveName then some .pool
  else if d.name = Storylet.directiveName then some .storylet
  else none

namespace Block

/-- The first line that is neither a comment nor a directive. -/
def firstLine? (b : Block) : Option SourceLine := b.meaningful.find? (·.directive?.isNone)

/-- The kind of node whose first line is `l`. -/
def kindOfLine (b : Block) (l : SourceLine) : Except NodeFault Kind :=
  -- a choice may stand inside a bracket, so the first line does not show it
  if b.body.any fun l => (Line.choice? l.text).isSome then .ok .menu
  -- the letters alone: neither a blank behind the keyword nor the closing brackets are asked for
  else if (Text.after? "<<if".toList l.text).isSome then .ok .branching
  else if (Line.dialogue? l.text).isSome then .ok .speech
  else .error ⟨l.number, .unknownKind l.text⟩

def kind (b : Block) : Except NodeFault Kind :=
  match b.meaningful.findSome? fun l => l.directive?.bind Directive.kind? with
  | some k => .ok k
  | none => match b.firstLine? with
    | some l => b.kindOfLine l
    | none => .error ⟨b.titleLine, .emptyBody⟩

/-- Only menus and branchings have conditions, so only their readers ask for the context. -/
def payload (b : Block) (ctx : Node.Context) : Kind → Reading NodeFault Payload
  | .speech => .ofExcept ((Speech.read b).map .speech)
  | .menu => (Menu.read ctx b).andThen fun m => .ok (.menu m)
  | .branching => (Branching.read ctx b).andThen fun c => .ok (.branching c)
  | .storylet => .ofExcept ((Storylet.read b).map .storylet)
  | .pool => .ofExcept ((Pool.read b).map .pool)

end Block

/-! ## Positions -/

namespace Position

def headerKey : Text := "position".toList

/-- The written form: both coordinates with a comma between them. -/
def text (p : Position) : Text := p.x.text ++ ',' :: p.y.text

/-- Reads a finite number, with blank characters around it. -/
def coordinate? (s : Text) : Option Binary64 :=
  (Binary64.read? (Text.trim s)).filter Binary64.isFinite

/-- Reads a position: the first comma is between the coordinates. -/
def read? (s : Text) : Option Position :=
  match s.dropWhile (· != ',') with
  | _ :: r => match coordinate? (s.takeWhile (· != ',')), coordinate? r with
    | some x, some y => some ⟨x, y⟩
    | _, _ => none
  | [] => none

end Position

/-! ## Nodes -/

/-- Reads one header of a block: a position, or something of which notice is given. -/
def Block.readHeader (b : Block) (position : Option Position) (header : Text × Text) :
    Reading NodeFault (Option Position) :=
  let (key, value) := header
  if key = Position.headerKey then
    match Position.read? value with
    | some p => .ok (some p) -- of several positions the last one counts
    | none => .fail ⟨b.titleLine, .badPosition value⟩
  else ⟨[.ignoredHeader b.title key], .ok position⟩

/-- Notices of headers come in front of those of the body. -/
def Block.node (b : Block) (strict : Bool) : Reading NodeFault Node := do
  let kind ← .ofExcept b.kind
  -- headers in front of the body, as they stand in the text
  let position ← b.headers.foldlM b.readHeader none
  let payload ← b.payload ⟨b.title, strict⟩ kind
  return ⟨b.title, position, payload⟩

/-- The speakers that a payload names, in order. -/
def Payload.speakers : Payload → List Text
  | speech s => [s.speaker]
  | branching b => b.branches.filterMap (·.speaker)
  | menu _ | storylet _ | pool _ => []

def Payload.lines : Payload → List Text
  | speech s => s.lines
  | menu m => m.lines
  | branching b => b.lines
  | storylet s => s.lines
  | pool p => p.lines

/-- The block of a node, with or without its position. A speaker that could not be read back keeps the node
from being written. -/
def Node.block (n : Node) (withPosition : Bool) : Except Text Layout.BlockDraft :=
  match n.payload.speakers.find? (!Text.isSpeaker ·) with
  | some who => .error who
  | none =>
    let d := Layout.BlockDraft.start n.id
    let d := match withPosition, n.position with
      | true, some p => d.addHeader Position.headerKey p.text
      | _, _ => d
    .ok (d.addLines n.payload.lines)

end DialogueScript
