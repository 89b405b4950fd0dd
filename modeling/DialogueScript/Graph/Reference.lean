import DialogueScript.Graph.Basic
/-!
# References between nodes

A node refers to the nodes it can go on to. Edges are derived from the references, one edge for each.

* `Node.references`: the references of a node, in the order in which a script writes them.
* `Graph.derivedEdges`: the edges that say the same.
* `Graph.terminals`: the ids of the nodes without references.
-/
namespace DialogueScript

/-- A reference: what it stands for, the choice or branch it belongs to, the node it names. -/
structure Reference where
  kind : EdgeKind
  handle : Text -- the id of the choice or branch, else a fixed word
  target : Text
  label : Option Text
  deriving DecidableEq, Repr

/-- The reference of a node that goes on at one other node. -/
def Reference.next (target : Text) : Reference := ⟨.next, "next".toList, target, none⟩

def Choice.reference? (c : Choice) : Option Reference := c.next.map fun t => ⟨.choice, c.id, t, some c.text⟩

def Branch.reference? (b : Branch) : Option Reference :=
  b.next.map fun t => ⟨.branch, b.id, t, some b.kind.keyword⟩

/-- The references of a node that holds a payload. A storylet that ends the dialogue does not come back. -/
def Payload.references : Payload → List Reference
  | speech s => (s.next.map Reference.next).toList
  | menu m => m.choices.filterMap Choice.reference?
  | branching b => b.branches.filterMap Branch.reference?
  | storylet s =>
    if s.exit = .node then (s.exitNode.map fun t => ⟨.comeBack, "return".toList, t, none⟩).toList else []
  | pool p => (p.next.map Reference.next).toList

def Node.references (n : Node) : List Reference := n.payload.references

/-- The data of the edge of a reference: the choice or the branch it belongs to. -/
def Reference.data (r : Reference) : Option Json :=
  match r.kind with
  | .choice => some (.object [("choiceId".toList, .string r.handle)])
  | .branch => some (.object [("blockId".toList, .string r.handle)])
  | .next | .comeBack => none

/-- The edge of a reference of the node `source`. -/
def Reference.edge (source : Text) (r : Reference) : Edge where
  -- the three parts may have hyphens of their own
  id := "e-".toList ++ source ++ '-' :: (r.handle ++ '-' :: r.target)
  source := source
  target := r.target
  kind := r.kind
  label := r.label
  data := r.data

def Node.edges (n : Node) : List Edge := n.references.map (·.edge n.id)

namespace Graph

/-- One edge for each reference of each node. -/
def derivedEdges (g : Graph) : List Edge := g.nodes.nodes.flatMap Node.edges

/-- The graph with the edges that its references say. -/
def withDerivedEdges (g : Graph) : Graph := { g with edges := g.derivedEdges }

/-- The ids of the nodes without references. -/
def terminals (g : Graph) : List Text := (g.nodes.nodes.filter (·.references.isEmpty)).map (·.id)

end Graph
end DialogueScript
