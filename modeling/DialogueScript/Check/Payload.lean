import DialogueScript.Check.Finding
import DialogueScript.Text.Name
/-!
# Checking what a node holds

Each part of a payload is checked on its own, in the order in which it is written. Problems depend on the
payload alone; warnings compare the flags it uses with a schema.

* `payloadProblems`, `payloadWarnings`: what is wrong with a payload, and what is doubtful about its flags.
-/
namespace DialogueScript.Check

/-- The keys of attributes that a storylet call uses for itself. -/
def storyletKeys : List Text :=
  ["template".toList, "entry".toList, "entry_node".toList, "return".toList, "return_node".toList]

/-- The keys of attributes that a storylet pool uses for itself. -/
def poolKeys : List Text := ["pool".toList, "selection".toList]

/-! ## Problems -/

/-- A demand that is not met is a problem. -/
def demand (ok : Bool) (p : Problem) : List Problem := if ok then [] else [p]

/-- A condition needs a well-formed flag and a literal exactly when its operator takes one. -/
def conditionProblems (node : Text) (c : Condition) : List Problem :=
  if Text.isFlag c.flag then demand c.isWellFormed (.defect node (.illFormed c.flag))
  else [.badName node .flag c.flag]

def flagProblems (node flag : Text) : List Problem := demand (Text.isFlag flag) (.badName node .flag flag)

/-- An id has to be well formed and different from those seen before. -/
def idProblems (node : Text) (role : Role) (repeated : Defect) (seen : List Text) (id : Text) : List Problem :=
  if !Text.isNodeId id then [.badName node role id] else demand (!seen.contains id) (.defect node repeated)

/-- A choice needs a text, on one line. -/
def choiceTextProblems (node : Text) (c : Choice) : List Problem :=
  if (Text.trim c.text).isEmpty then [.defect node (.emptyChoice c.id)]
  else demand (!c.text.contains '\n') (.defect node (.longChoice c.id))

/-- The problems of choices behind choices with the ids `seen`. -/
def choicesProblems (node : Text) (seen : List Text) : List Choice → List Problem
  | [] => []
  | c :: cs =>
    idProblems node .choice (.repeatedChoice c.id) seen c.id ++ choiceTextProblems node c ++
      c.conditions.flatMap (conditionProblems node) ++ c.setFlags.flatMap (flagProblems node) ++
      choicesProblems node (c.id :: seen) cs

/-- The first branch opens the chain, no other does, and only the last one may hold always. -/
def placeProblems (node : Text) (isFirst isLast : Bool) (b : Branch) : List Problem :=
  match isFirst, b.kind with
  | true, .ifThen => []
  | true, kind => [.defect node (.notIfFirst kind)]
  | false, .ifThen => [.defect node (.secondIf b.id)]
  | false, .orElse => demand isLast (.defect node (.elseNotLast b.id))
  | false, .elseIf => []

/-- The branch that holds always has no condition, every other one has at least one test. -/
def guardProblems (node : Text) (b : Branch) : List Problem :=
  match b.kind, b.condition with
  | .orElse, some _ => [.defect node (.conditionOnElse b.id)]
  | .orElse, none => []
  | _, none => [.defect node (.noCondition b.id)]
  | _, some [] => [.defect node (.emptyCondition b.id)]
  | _, some (_ :: _) => []

def speakerProblems (node speaker : Text) : List Problem :=
  demand (Text.isSpeaker speaker) (.badName node .speaker speaker)

/-- The problems of branches behind branches with the ids `seen`. -/
def branchesProblems (node : Text) (isFirst : Bool) (seen : List Text) : List Branch → List Problem
  | [] => []
  | b :: bs =>
    idProblems node .branch (.repeatedBranch b.id) seen b.id ++ placeProblems node isFirst bs.isEmpty b ++
      guardProblems node b ++ b.speaker.toList.flatMap (speakerProblems node) ++
      b.conditions.flatMap (conditionProblems node) ++ branchesProblems node false (b.id :: seen) bs

/-- A key has to be well formed and not one that the directive uses for itself. -/
def attributeProblems (node : Text) (reserved : List Text) (attributes : Dictionary Text) : List Problem :=
  attributes.keys.flatMap fun key =>
    demand (Text.isAttributeKey key && !reserved.contains key) (.badName node .attributeKey key)

/-- A storylet call needs a template, and a node where its policies ask for one. -/
def storyletProblems (node : Text) (s : Storylet) : List Problem :=
  demand (!(Text.trim s.template).isEmpty) (.defect node .noTemplate) ++
    demand (!(s.entry == .node && s.entryNode.isNone)) (.defect node .noEntryNode) ++
    s.entryNode.toList.flatMap (fun e => demand (Text.isNodeId e) (.badName node .entryNode e)) ++
    -- the name of the node to come back to is checked as the target of a reference
    demand (!(s.exit == .node && s.exitNode.isNone)) (.defect node .noExitNode) ++
    attributeProblems node storyletKeys s.attributes

/-- A member of a pool needs a template, and a weight when weights decide. -/
def memberProblems (node : Text) (selection : Selection) (m : PoolMember) : List Problem :=
  demand (!(Text.trim m.template).isEmpty) (.defect node .noMemberTemplate) ++
    demand (!(selection == .weighted && m.weight == 0)) (.defect node (.zeroWeight m.template))

/-- A pool needs a name and members. -/
def poolProblems (node : Text) (p : Pool) : List Problem :=
  demand (!(Text.trim p.pool).isEmpty) (.defect node .noPool) ++
    demand (!p.members.isEmpty) (.defect node .noMembers) ++
    p.members.flatMap (memberProblems node p.selection) ++ attributeProblems node poolKeys p.attributes

def payloadProblems (node : Text) : Payload → List Problem
  | .speech s => speakerProblems node s.speaker ++ s.setFlags.flatMap (flagProblems node)
  | .menu m => demand (!m.choices.isEmpty) (.defect node .noChoices) ++ choicesProblems node [] m.choices
  | .branching b => demand (!b.branches.isEmpty) (.defect node .noBranches) ++ branchesProblems node true [] b.branches
  | .storylet s => storyletProblems node s
  | .pool p => poolProblems node p

/-! ## Warnings -/

/-- The type that a condition takes its flag to have; asking whether a flag is set suits every type. -/
def usedAs? (c : Condition) : Option FlagType :=
  -- whatever the literal is
  if c.operator.isOrdering then some .number
  else c.literal?.map .ofLiteral

/-- A flag that is used as a type, against a schema. -/
def flagWarnings (schema : Schema) (node flag : Text) (found : Option FlagType) : List Warning :=
  match schema.get? flag, found with
  | none, _ => [.unknownFlag node flag]
  | some _, none => []
  | some expected, some found => if found = expected then [] else [.typeMismatch node flag expected found]

/-- The warnings on a condition; one on a name that is no flag is passed over. -/
def conditionWarnings (schema : Schema) (node : Text) (c : Condition) : List Warning :=
  if Text.isFlag c.flag then flagWarnings schema node c.flag (usedAs? c) else []

def setWarnings (schema : Schema) (node flag : Text) : List Warning :=
  -- a flag is only ever set to `true`
  if Text.isFlag flag then flagWarnings schema node flag (some .boolean) else []

def payloadWarnings (schema : Schema) (node : Text) : Payload → List Warning
  | .speech s => s.setFlags.flatMap (setWarnings schema node)
  | .menu m => m.choices.flatMap fun c =>
      c.conditions.flatMap (conditionWarnings schema node) ++ c.setFlags.flatMap (setWarnings schema node)
  | .branching b => b.branches.flatMap fun b => b.conditions.flatMap (conditionWarnings schema node)
  | .storylet _ | .pool _ => []

end DialogueScript.Check
