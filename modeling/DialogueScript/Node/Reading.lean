import DialogueScript.Condition.Conjunction
import DialogueScript.Graph.Payload
import DialogueScript.Script.Outline
/-!
# Reading with notices

Reading a block either gives a result or fails at a line; in both cases it may have passed over something
on the way, of which it gives notice. Notices come in the order in which the text was read.

* `Notice`: what was passed over.
* `NodeFault`: where and why a block is not a node.
* `Reading`: a result or a fault, with notices.
-/
namespace DialogueScript

/-- Something that was passed over without failing. -/
inductive Notice
  | droppedCondition (node : Text) (line : Nat) (clause : Text)
  | ignoredHeader (node key : Text)
  | ignoredDirective (line : Nat) (name : Text)
  deriving DecidableEq, Repr

def Notice.message : Notice → String
  | droppedCondition node line clause =>
    "node '" ++ String.ofList node ++ "' line " ++ toString line ++ ": dropped unreadable condition '" ++
      String.ofList clause ++ "'"
  | ignoredHeader node key => "node '" ++ String.ofList node ++ "': ignored header '" ++ String.ofList key ++ "'"
  | ignoredDirective line name => "line " ++ toString line ++ ": ignored @" ++ String.ofList name ++ " directive"

/-- Why an event cannot follow in a menu. -/
inductive MenuFault
  | noText
  | noChoiceOpen
  | secondJump (choice : Text)
  | noCondition
  | nestedIf
  | endWithoutIf
  deriving DecidableEq, Repr

def MenuFault.message : MenuFault → String
  | noText => "choice has no text"
  | noChoiceOpen => "command does not follow a '->' choice"
  | secondJump choice => "choice '" ++ String.ofList choice ++ "' has more than one jump"
  | noCondition => "<<if>> guarding a choice has no condition"
  | nestedIf => "nested <<if>> inside a player node"
  | endWithoutIf => "<<endif>> without <<if>>"

/-- Why a block is not a node. -/
inductive NodeCause
  | emptyBody
  | unknownKind (line : Text)
  | badPosition (value : Text)
  | missingTarget (target : Text)
  | badTarget (target : Text)
  | badValue (flag value : Text)
  | condition (clause : Condition.Unreadable)
  | directive (fault : Directive.Fault)
  -- speeches
  | speechSecondJump
  | speechCommand (line : Text)
  | speechLine (line : Text)
  | speechSpeaker (first second : Text)
  | speechNoSpeaker
  -- menus
  | menuLine (line : Text)
  | menu (fault : MenuFault)
  | notEnded
  | menuNoChoices
  -- branchings
  | afterEnd (line : Text)
  | branchingDirective (name : Text)
  | branchWithoutId
  | branchingNestedIf
  | withoutIf (keyword : Text)
  | afterElse (keyword : Text)
  | branch (fault : Branch.Fault)
  | branchSecondJump
  | branchOutside
  | branchingCommand (line : Text)
  | branchingChoice
  | afterJump
  | mixed
  | branchSpeaker (first second : Text)
  | noBranches
  -- storylets and pools
  | storyletLine (line : Text)
  | secondStorylet
  | noStorylet
  | missingKey (name key : Text)
  | unknownValue (key value : Text)
  | poolSecondJump
  | poolAfterJump
  | poolLine (line : Text)
  | secondPool
  | memberKey (key : Text)
  | badWeight (weight : Text)
  | poolDirective (name : Text)
  | noPool
  deriving DecidableEq, Repr

def NodeCause.message : NodeCause → String
  | emptyBody => "node body is empty"
  | unknownKind line => "cannot infer node kind from '" ++ String.ofList line ++ "'"
  | badPosition value => "malformed position header '" ++ String.ofList value ++ "'"
  | missingTarget target => "jump target '" ++ String.ofList target ++ "' is not a node in this script"
  | badTarget target => "malformed jump target '" ++ String.ofList target ++ "'"
  | badValue flag value =>
    "unsupported value '" ++ String.ofList value ++ "' for <<set $" ++ String.ofList flag ++ ">>, only true is allowed"
  | condition clause => "invalid condition: " ++ clause.message
  | directive fault => fault.message
  | speechSecondJump => "character node has more than one jump"
  | speechCommand line => "unexpected command '" ++ String.ofList line ++ "' in character node"
  | speechLine line => "expected 'Speaker: line', found '" ++ String.ofList line ++ "'"
  | speechSpeaker first second =>
    "speaker changes from '" ++ String.ofList first ++ "' to '" ++ String.ofList second ++ "' inside one node"
  | speechNoSpeaker => "character node has no speaker line"
  | menuLine line => "unexpected line '" ++ String.ofList line ++ "' in player node"
  | menu fault => fault.message
  | notEnded => "<<if>> is never closed with <<endif>>"
  | menuNoChoices => "player node has no choices"
  | afterEnd line => "unexpected line '" ++ String.ofList line ++ "' after <<endif>>"
  | branchingDirective name => "unexpected @" ++ String.ofList name ++ " directive in conditional node"
  | branchWithoutId => "@block directive needs an id"
  | branchingNestedIf => "nested <<if>> inside a conditional node"
  | withoutIf keyword => "<<" ++ String.ofList keyword ++ ">> without <<if>>"
  | afterElse keyword => "<<" ++ String.ofList keyword ++ ">> after <<else>>"
  | branch fault => fault.message
  | branchSecondJump => "branch has more than one jump"
  | branchOutside => "conditional content outside <<if>> ... <<endif>>"
  | branchingCommand line => "unexpected command '" ++ String.ofList line ++ "' in conditional node"
  | branchingChoice => "choice line inside a conditional node"
  | afterJump => "content after <<jump>> in branch"
  | mixed => "branch mixes narration and dialogue"
  | branchSpeaker first second =>
    "speaker changes from '" ++ String.ofList first ++ "' to '" ++ String.ofList second ++ "' inside one branch"
  | noBranches => "conditional node has no branches"
  | storyletLine line => "unexpected line '" ++ String.ofList line ++ "' in storylet node"
  | secondStorylet => "storylet node has more than one @storylet"
  | noStorylet => "storylet node has no @storylet directive"
  | missingKey name key => "@" ++ String.ofList name ++ " directive needs '" ++ String.ofList key ++ "'"
  | unknownValue key value => "unknown " ++ String.ofList key ++ " value '" ++ String.ofList value ++ "'"
  | poolSecondJump => "storylet pool has more than one jump"
  | poolAfterJump => "storylet pool continues after its jump"
  | poolLine line => "unexpected line '" ++ String.ofList line ++ "' in storylet pool"
  | secondPool => "storylet pool has more than one @storylet_pool"
  | memberKey key => "unknown @member key '" ++ String.ofList key ++ "'"
  | badWeight weight => "invalid member weight '" ++ String.ofList weight ++ "'"
  | poolDirective name => "unexpected @" ++ String.ofList name ++ " directive in storylet pool"
  | noPool => "storylet pool has no @storylet_pool directive"

structure NodeFault where
  line : Nat
  cause : NodeCause
  deriving DecidableEq, Repr

/-- A result or a fault, with the notices that were given on the way. -/
structure Reading (ε α : Type) where
  notices : List Notice
  result : Except ε α

namespace Reading

variable {ε α β : Type}

/-- A result, without notices. -/
def ok (a : α) : Reading ε α := ⟨[], .ok a⟩

/-- A failure, without notices. -/
def fail (e : ε) : Reading ε α := ⟨[], .error e⟩

/-- A result or a failure, without notices. -/
def ofExcept (x : Except ε α) : Reading ε α := ⟨[], x⟩

/-- Reads on after a result; a failure ends the reading. -/
def andThen (x : Reading ε α) (f : α → Reading ε β) : Reading ε β :=
  match x.result with
  | .ok a => ⟨x.notices ++ (f a).notices, (f a).result⟩
  -- the notices that were given before stay
  | .error e => ⟨x.notices, .error e⟩

instance : Monad (Reading ε) where
  pure := ok
  bind := andThen

/-- The reading with its faults put in other words. -/
def mapError {ε' : Type} (f : ε → ε') (x : Reading ε α) : Reading ε' α := ⟨x.notices, x.result.mapError f⟩

def note (n : Notice) : Reading ε Unit := ⟨[n], .ok ()⟩

end Reading

namespace Node

/-- What reading a block has to know: the id of its node, and whether conditions are read strictly. -/
structure Context where
  node : Text
  strict : Bool
  deriving DecidableEq, Repr

/-- Reads the conditions of a command, with a notice for each clause that is dropped. -/
def readConditions (ctx : Context) (line : Nat) (text : Text) : Reading NodeFault (List Condition) :=
  match Condition.read ctx.strict text with
  | .ok (kept, dropped) => ⟨dropped.map (.droppedCondition ctx.node line ·), .ok kept⟩
  | .error u => .fail ⟨line, .condition u⟩

/-- The target of a jump has to be a node id. -/
def readTarget (line : Nat) (target : Text) : Except NodeFault Text :=
  if Text.isNodeId target then .ok target else .error ⟨line, .badTarget target⟩

/-- A flag can only be set to `true`. -/
def readFlag (line : Nat) (flag value : Text) : Except NodeFault Text :=
  if value = "true".toList then .ok flag else .error ⟨line, .badValue flag value⟩

end Node
end DialogueScript
