import DialogueScript.Check.Payload
import DialogueScript.Graph.Reach
/-!
# Checking a graph

A check goes through the start, the ends, the edges and then the nodes in order. Only warnings depend on a
schema of flags; that a node cannot be reached is known without one.

* `Graph.problems`, `Graph.warnings`, `Graph.check`.
-/
namespace DialogueScript
open Check

namespace Graph

/-- The start has to be the id of a node; that there is none is a missing start. -/
def startProblems (g : Graph) : List Problem :=
  if !g.start.isEmpty && !Text.isNodeId g.start then [.badName g.start .start g.start]
  else demand (g.nodes.contains g.start) (.missingStart g.start)

def endProblems (g : Graph) (e : End) : List Problem :=
  if Text.isNodeId e.node then demand (g.nodes.contains e.node) (.missingEnd e.node)
  else [.badName e.node .ending e.node]

/-- A node at an end of an edge has to be there. -/
def endpointProblems (g : Graph) (edge node : Text) : List Problem :=
  demand (g.nodes.contains node) (.danglingEdge edge node)

/-- An edge says the same as a reference: its source refers to its target. -/
def restatesReference (g : Graph) (e : Edge) : Bool :=
  match g.node? e.source with
  | some n => n.references.any (·.target == e.target)
  | none => false

/-- Both ends of an edge have to be there. An edge that says the same as a reference leaves its target to the
check of the reference. -/
def edgeProblems (g : Graph) (e : Edge) : List Problem :=
  [e.source, e.target].flatMap fun node =>
    if node == e.target && g.restatesReference e then [] else g.endpointProblems e.id node

def referenceProblems (g : Graph) (node : Text) (r : Reference) : List Problem :=
  if Text.isNodeId r.target then demand (g.nodes.contains r.target) (.danglingReference node r.target)
  else [.badName node .target r.target]

/-- A node is stored under its id, has a well-formed id, refers to nodes and holds a sound payload. -/
def nodeProblems (g : Graph) (key : Text) (n : Node) : List Problem :=
  -- reported under the key, everything else under the id
  demand (key == n.id) (.defect key (.wrongKey key n.id)) ++
    demand (Text.isNodeId n.id) (.badName n.id .node n.id) ++
    n.references.flatMap (g.referenceProblems n.id) ++ payloadProblems n.id n.payload

/-- The start, the ends, the edges and the nodes, in this order. -/
def problems (g : Graph) : List Problem :=
  g.startProblems ++ g.ends.flatMap g.endProblems ++ g.edges.flatMap g.edgeProblems ++
    g.nodes.entries.flatMap fun (key, n) => g.nodeProblems key n

def flagWarnings (g : Graph) (schema : Option Schema) : List Warning :=
  match schema with
  | some s => g.nodes.nodes.flatMap fun n => payloadWarnings s n.id n.payload
  | none => []

/-- The keys that were not reached, when there is a start to reach them from. -/
def reachWarnings (g : Graph) : List Warning :=
  if g.nodes.contains g.start then
    let seen := g.reachable
    (g.nodes.keys.filter (!seen.contains ·)).map .unreachable
  else []

def warnings (g : Graph) (schema : Option Schema) : List Warning := g.flagWarnings schema ++ g.reachWarnings

/-- Checks a graph, with or without a schema of its flags. -/
def check (g : Graph) (schema : Option Schema) : Report := ⟨g.problems, g.warnings schema⟩

end Graph
end DialogueScript
