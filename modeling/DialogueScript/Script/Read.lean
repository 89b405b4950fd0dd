import DialogueScript.Check.Graph
import DialogueScript.Failure
import DialogueScript.Node.Dispatch
import DialogueScript.Settings
/-!
# Reading a script

A script is read in three steps: its outline, its preamble, then each block on its own. The graph that comes
out has the edges its references say, and it is checked.

* `Script.read`: the graph of a script, with notices and the report of the check.
-/
namespace DialogueScript.Script

def graphName : Text := "graph".toList

def endName : Text := "end".toList

/-- The id of a graph whose script does not name it. -/
def defaultId : Text := "dialogue".toList

/-- What the directives of a preamble say: the description of the graph, and ends. -/
structure Preamble where
  graph : Option Directive
  ends : List End
  deriving DecidableEq, Repr

def Preamble.empty : Preamble := ⟨none, []⟩

def endOf? (d : Directive) : Option End :=
  ((d.get? "node".toList).filter Text.isNodeId).map fun node => ⟨node, d.get? "exit".toList⟩

/-- Reads one directive of a preamble; an unknown one is passed over with a notice. -/
def Preamble.step (p : Preamble) (entry : Nat × Directive) : Reading Outline.Fault Preamble :=
  let (line, d) := entry
  if d.name = graphName then
    if p.graph.isSome then .fail ⟨line, .secondGraph⟩ else .ok { p with graph := some d }
  else if d.name = endName then
    match endOf? d with
    | some e => .ok { p with ends := p.ends ++ [e] }
    | none => .fail ⟨line, .endWithoutNode⟩
  else ⟨[.ignoredDirective line d.name], .ok p⟩

def Preamble.read (entries : List (Nat × Directive)) : Reading Outline.Fault Preamble :=
  entries.foldlM Preamble.step .empty

/-- The graph of nodes under a preamble, without edges. Without a description, the dialogue starts at the
first node, and ends on the nodes without references as well as on the ends that are marked. -/
def assemble (p : Preamble) (nodes : List Node) : Graph :=
  let table := NodeTable.ofList (nodes.map fun n => (n.id, n))
  let first := ((nodes.head?).map (·.id)).getD []
  match p.graph with
  | some d => ⟨(d.get? "id".toList).getD defaultId, (d.get? "title".toList).getD [],
      (d.get? "start".toList).getD first, table, [], p.ends⟩
  | none =>
    let g : Graph := ⟨defaultId, [], first, table, [], []⟩
    -- a terminal node that is marked as well stands here twice
    { g with ends := g.terminals.map End.plain ++ p.ends }

def titleLine (blocks : List Block) (node : Text) : Nat :=
  ((blocks.find? (·.title == node)).map (·.titleLine)).getD 0

/-- A graph, what was passed over while reading it, and what a check found in it. -/
structure Outcome where
  graph : Graph
  notices : List Notice
  report : Check.Report
  deriving Repr

/-- Reads the blocks of an outline, one node from each. -/
def readBlocks (strict : Bool) : List Block → Reading Failure (List Node)
  | [] => .ok []
  | b :: bs => ((b.node strict).mapError (.node b.title)).andThen fun n =>
      (readBlocks strict bs).andThen fun ns => .ok (n :: ns)

/-- Reads the graph of an outline, with the edges that its references say. -/
def readGraph (strict : Bool) (o : Outline) : Reading Failure Graph :=
  ((Preamble.read o.preamble).mapError .script).andThen fun p =>
    (readBlocks strict o.blocks).andThen fun nodes => .ok (assemble p nodes).withDerivedEdges

/-- Refuses the first reference to a node that is not there. -/
def refuseDangling (blocks : List Block) (report : Check.Report) : Except Failure Unit :=
  match report.dangling with
  | (source, target) :: _ => .error (.node source ⟨titleLine blocks source, .missingTarget target⟩)
  | [] => .ok ()

/-- A failure loses the notices. What a check finds is reported and, dangling references apart, not refused. -/
def read (settings : Settings) (s : Text) : Except Failure Outcome := do
  let o ← (Outline.read s).mapError .script
  let r := readGraph settings.strictConditions o
  let g ← r.result
  let report := g.check settings.flagSchema
  if settings.strictReferences then refuseDangling o.blocks report
  return ⟨g, r.notices, report⟩

def readStandard (s : Text) : Except Failure Graph := (read .standard s).map (·.graph)

end DialogueScript.Script
