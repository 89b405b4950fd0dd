import DialogueScript.Graph.Payload
/-!
# What a check can find

A problem is something that is broken in a graph. Those that would make a script unreadable are
*structural*: they keep the graph from being written. A warning is something that is only suspicious.
-/
namespace DialogueScript.Check

inductive FlagType
  | boolean
  | number
  | text
  deriving DecidableEq, Repr

def FlagType.name : FlagType → Text
  | boolean => "boolean".toList
  | number => "number".toList
  | text => "string".toList

def FlagType.ofName? (s : Text) : Option FlagType :=
  if s = "boolean".toList then some boolean
  else if s = "number".toList then some number
  else if s = "string".toList then some text
  else none

def FlagType.ofLiteral : Literal → FlagType
  | .bool _ => boolean
  | .number _ => number
  | .text _ => text

/-- The flags that are known, with their types. -/
abbrev Schema := Dictionary FlagType

/-- What a name that is not well formed stands for. -/
inductive Role
  | start
  | ending
  | node
  | target
  | speaker
  | choice
  | branch
  | entryNode
  | attributeKey
  | flag
  deriving DecidableEq, Repr

def Role.name : Role → String
  | start => "start node id"
  | ending => "end node id"
  | node => "node id"
  | target => "jump target"
  | speaker => "speaker"
  | choice => "choice id"
  | branch => "block id"
  | entryNode => "entry node id"
  | attributeKey => "directive attribute"
  | flag => "flag"

/-- How a node is broken, names apart. -/
inductive Defect
  | wrongKey (key id : Text)
  | noChoices
  | repeatedChoice (id : Text)
  | emptyChoice (id : Text)
  | longChoice (id : Text)
  | noBranches
  | repeatedBranch (id : Text)
  | notIfFirst (kind : BranchKind)
  | secondIf (id : Text)
  | elseNotLast (id : Text)
  | conditionOnElse (id : Text)
  | noCondition (id : Text)
  | emptyCondition (id : Text)
  | noTemplate
  | noEntryNode
  | noExitNode
  | noPool
  | noMembers
  | noMemberTemplate
  | zeroWeight (template : Text)
  | illFormed (flag : Text) -- a literal is missing, or there is one too many
  deriving DecidableEq, Repr

def Defect.message : Defect → String
  | wrongKey key id => "stored under key '" ++ String.ofList key ++ "' but has id '" ++ String.ofList id ++ "'"
  | noChoices => "player node has no choices"
  | repeatedChoice id => "duplicate choice id '" ++ String.ofList id ++ "'"
  | emptyChoice id => "choice '" ++ String.ofList id ++ "' has no text"
  | longChoice id => "choice '" ++ String.ofList id ++ "' text spans several lines"
  | noBranches => "conditional node has no blocks"
  | repeatedBranch id => "duplicate block id '" ++ String.ofList id ++ "'"
  | notIfFirst kind => "first block must be 'if', found '" ++ String.ofList kind.keyword ++ "'"
  | secondIf id => "block '" ++ String.ofList id ++ "' opens a second 'if'"
  | elseNotLast id => "else block '" ++ String.ofList id ++ "' must be last"
  | conditionOnElse id => "else block '" ++ String.ofList id ++ "' carries a condition"
  | noCondition id => "block '" ++ String.ofList id ++ "' has no condition"
  | emptyCondition id => "block '" ++ String.ofList id ++ "' has an empty condition"
  | noTemplate => "storylet has no template id"
  | noEntryNode => "entry policy 'node' needs an entry node id"
  | noExitNode => "return policy 'node' needs a return node id"
  | noPool => "storylet pool has no pool id"
  | noMembers => "storylet pool has no members"
  | noMemberTemplate => "pool member has no template id"
  | zeroWeight template => "pool member '" ++ String.ofList template ++ "' has zero weight"
  | illFormed flag => "condition on '$" ++ String.ofList flag ++ "' does not match its operator"

inductive Problem
  | missingStart (node : Text)
  | missingEnd (node : Text)
  | danglingEdge (edge node : Text)
  | danglingReference (source target : Text)
  | repeatedNode (node : Text)
  | badName (node : Text) (role : Role) (value : Text)
  | defect (node : Text) (defect : Defect)
  deriving DecidableEq, Repr

namespace Problem

/-- The problem keeps a graph from being written. -/
def isStructural : Problem → Bool
  | repeatedNode _ | badName .. | defect .. => true
  -- a script can name nodes that are not there
  | _ => false

def message : Problem → String
  | missingStart node => "start node '" ++ String.ofList node ++ "' does not exist"
  | missingEnd node => "end node '" ++ String.ofList node ++ "' does not exist"
  | danglingEdge edge node =>
    "edge '" ++ String.ofList edge ++ "' references missing node '" ++ String.ofList node ++ "'"
  | danglingReference source target =>
    "node '" ++ String.ofList source ++ "' references missing node '" ++ String.ofList target ++ "'"
  | repeatedNode node => "duplicate node id '" ++ String.ofList node ++ "'"
  | badName node role value =>
    "node '" ++ String.ofList node ++ "' has invalid " ++ role.name ++ " '" ++ String.ofList value ++ "'"
  | defect node d => "node '" ++ String.ofList node ++ "': " ++ d.message

end Problem

inductive Warning
  | unknownFlag (node flag : Text)
  | typeMismatch (node flag : Text) (expected found : FlagType) -- the type in the schema, the type in the use
  | unreachable (node : Text)
  deriving DecidableEq, Repr

def Warning.message : Warning → String
  | unknownFlag node flag =>
    "node '" ++ String.ofList node ++ "' uses flag '$" ++ String.ofList flag ++ "' which is not in the flag schema"
  | typeMismatch node flag expected found =>
    "node '" ++ String.ofList node ++ "' uses flag '$" ++ String.ofList flag ++ "' as " ++ String.ofList found.name ++
      ", but the schema declares " ++ String.ofList expected.name
  | unreachable node => "node '" ++ String.ofList node ++ "' is not reachable from the start node"

/-- What a check found, in the order in which the graph was gone through. -/
structure Report where
  problems : List Problem
  warnings : List Warning
  deriving DecidableEq, Repr

namespace Report

def isValid (r : Report) : Bool := r.problems.isEmpty

/-- The problems that keep a graph from being written. -/
def structural (r : Report) : List Problem := r.problems.filter Problem.isStructural

/-- The references to missing nodes, each with the node that refers. -/
def dangling (r : Report) : List (Text × Text) :=
  r.problems.filterMap fun
    | .danglingReference source target => some (source, target)
    | _ => none

end Report
end DialogueScript.Check
