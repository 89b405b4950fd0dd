import DialogueScript.Condition.Basic
import DialogueScript.Text.Dictionary
/-!
# What a node holds

A node is one of five kinds: a speech of a character, a menu of choices for the player, a branching on
conditions, a call of a storylet, or a pool of storylets of which one is picked. A node refers to other
nodes by their ids only.

* `Payload` and its five parts.
* `Kind`, with the tags that documents use.
* `Branch.make`: the rule on which branches carry conditions.
-/
namespace DialogueScript

/-- A speech of one character, line by line; then flags are set, and the dialogue may go on. -/
structure Speech where
  speaker : Text
  content : Text -- each line of it is a line of dialogue
  next : Option Text
  setFlags : List Text
  deriving DecidableEq, Repr

/-- One choice of the player. Without a next node it ends the dialogue. -/
structure Choice where
  id : Text
  text : Text
  next : Option Text
  conditions : List Condition
  setFlags : List Text
  deriving DecidableEq, Repr

/-- A choice that only has a text. -/
def Choice.plain (id text : Text) : Choice := ⟨id, text, none, [], []⟩

structure Menu where
  choices : List Choice
  deriving DecidableEq, Repr

/-- The place of a branch in its chain. -/
inductive BranchKind
  | ifThen
  | elseIf
  | orElse
  deriving DecidableEq, Repr

/-- The word that opens a branch in a script. -/
def BranchKind.keyword : BranchKind → Text
  | ifThen => "if".toList
  | elseIf => "elseif".toList
  | orElse => "else".toList

/-- One branch of a branching: what it says, by whom, and where it goes on. -/
structure Branch where
  id : Text
  kind : BranchKind
  condition : Option (List Condition) -- `none` where the branch holds always
  content : Text
  speaker : Option Text -- `none` for narration
  next : Option Text
  deriving DecidableEq, Repr

namespace Branch

/-- Why a branch cannot be made. -/
inductive Fault
  /-- The last branch holds always. -/
  | needless (id : Text)
  /-- Any other branch needs a condition. -/
  | unconditional (kind : BranchKind) (id : Text)
  deriving DecidableEq, Repr

def Fault.message : Fault → String
  | .needless id => "else block '" ++ String.ofList id ++ "' cannot carry a condition"
  | .unconditional kind id => String.ofList kind.keyword ++ " block '" ++ String.ofList id ++ "' needs a condition"

/-- The branch with a condition that suits its kind: none for the last branch, at least one test for any other. -/
def make (id : Text) (kind : BranchKind) (condition : Option (List Condition)) (content : Text) :
    Except Fault Branch :=
  match kind, condition with
  | .orElse, some _ => .error (.needless id)
  | .orElse, none => .ok ⟨id, .orElse, none, content, none, none⟩
  | kind, some (c :: cs) => .ok ⟨id, kind, some (c :: cs), content, none, none⟩
  | kind, _ => .error (.unconditional kind id)

def conditions (b : Branch) : List Condition := b.condition.getD []

end Branch

/-- A chain of branches of which the first that holds is taken. -/
structure Branching where
  branches : List Branch
  deriving DecidableEq, Repr

inductive Entry
  /-- At its own start. -/
  | start
  /-- At a named node inside of it. -/
  | node
  deriving DecidableEq, Repr

def Entry.name : Entry → Text
  | start => "start".toList
  | node => "node".toList

def Entry.ofName? (s : Text) : Option Entry :=
  if s = "start".toList then some start else if s = "node".toList then some node else none

inductive Exit
  /-- The dialogue goes on at a named node. -/
  | node
  /-- The dialogue ends. -/
  | finish
  deriving DecidableEq, Repr

def Exit.name : Exit → Text
  | node => "node".toList
  | finish => "end".toList

def Exit.ofName? (s : Text) : Option Exit :=
  if s = "node".toList then some node else if s = "end".toList then some finish else none

inductive Selection
  | random
  | weighted
  | sequential
  | firstAvailable
  deriving DecidableEq, Repr

def Selection.name : Selection → Text
  | random => "random".toList
  | weighted => "weighted".toList
  | sequential => "sequential".toList
  | firstAvailable => "first_available".toList

def Selection.ofName? (s : Text) : Option Selection :=
  if s = "random".toList then some random
  else if s = "weighted".toList then some weighted
  else if s = "sequential".toList then some sequential
  else if s = "first_available".toList then some firstAvailable
  else none

/-- A call of a storylet. Attributes that are not known are carried along. -/
structure Storylet where
  template : Text
  entry : Entry
  entryNode : Option Text -- inside of the storylet
  exit : Exit
  exitNode : Option Text -- where the dialogue goes on
  attributes : Dictionary Text
  deriving DecidableEq, Repr

structure PoolMember where
  template : Text
  weight : UInt32 -- only looked at when weights decide
  deriving DecidableEq, Repr

/-- Storylets of which one is picked; then the dialogue may go on. -/
structure Pool where
  pool : Text
  selection : Selection
  members : List PoolMember
  next : Option Text
  attributes : Dictionary Text
  deriving DecidableEq, Repr

inductive Kind
  | speech
  | menu
  | branching
  | storylet
  | pool
  deriving DecidableEq, Repr

namespace Kind

def tag : Kind → Text
  | speech => "npc".toList
  | menu => "player".toList
  | branching => "conditional".toList
  | storylet => "storylet".toList
  | pool => "storyletPool".toList

/-- The kind with a tag. A speech has a second tag, which is read and never written. -/
def ofTag? (s : Text) : Option Kind :=
  if s = "npc".toList ∨ s = "character".toList then some speech
  else if s = "player".toList then some menu
  else if s = "conditional".toList then some branching
  else if s = "storylet".toList then some storylet
  else if s = "storyletPool".toList then some pool
  else none

def all : List Kind := [speech, menu, branching, storylet, pool]

theorem ofTag?_tag (k : Kind) : ofTag? k.tag = some k := by cases k <;> decide

end Kind

inductive Payload
  | speech (speech : Speech)
  | menu (menu : Menu)
  | branching (branching : Branching)
  | storylet (storylet : Storylet)
  | pool (pool : Pool)
  deriving DecidableEq, Repr

def Payload.kind : Payload → Kind
  | speech _ => .speech
  | menu _ => .menu
  | branching _ => .branching
  | storylet _ => .storylet
  | pool _ => .pool

end DialogueScript
