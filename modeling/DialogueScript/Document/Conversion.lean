import DialogueScript.Document.Basic
import DialogueScript.Script.Write
/-!
# Documents and graphs

A document is turned into a graph node by node, and the first node that cannot be turned decides the failure.
An edge whose shape is none of the names of `EdgeKind` becomes an edge that leads to the next node. A graph
can always be turned into a document; a node without a position is put at the origin of the canvas.

* `Document.toGraph`: the graph of a document.
* `Graph.toDocument`: the document of a graph.
* `Document.script`: the script of a document.
-/
namespace DialogueScript

namespace Document

/-- The tag of what a node says; a node without one has an empty tag. -/
def Node.tag (n : Node) : Text := ((n.data.member? "type".toList).bind Json.string?).getD []

/-- What a node says: its tag has to be known, and its data a payload. -/
def Node.payload (n : Node) : Except Failure Payload :=
  match Kind.ofTag? n.tag with
  | none => .error (.unknownKind n.id n.tag)
  -- the kind is not handed on: the data are read by the tag they have
  | some _ => match Payload.ofJson? n.data with
    | some p => .ok p
    | none => .error .json

/-- Adds a node to those that were turned before; ids may not repeat. -/
def addNode (t : NodeTable) (n : Node) : Except Failure NodeTable :=
  match n.payload with
  | .error e => .error e
  | .ok p =>
    -- refused in the words of a check, although the graph is not checked
    if t.contains n.id then .error (.notWritable [.repeatedNode n.id])
    else .ok (t.insert n.id ⟨n.id, some n.position, p⟩)

/-- What an edge stands for. -/
def Edge.kind (e : Edge) : EdgeKind := (e.shape.bind EdgeKind.ofName?).getD .next

def Edge.toEdge (e : Edge) : DialogueScript.Edge := ⟨e.id, e.source, e.target, e.kind, e.label, e.data⟩

/-- Edges and ends are taken over as they are; whether their nodes are there is left to a check. -/
def toGraph (d : Document) : Except Failure Graph :=
  match d.nodes.foldlM addNode .empty with
  | .error e => .error e
  | .ok nodes => .ok ⟨d.id, d.title, d.start, nodes, d.edges.map Edge.toEdge, d.ends⟩

def script (d : Document) : Except Failure Text := d.toGraph.bind Script.writeStandard

end Document

def Node.toDocument (n : Node) : Document.Node :=
  -- data are kept as a JSON value, and such a value is canonical
  ⟨n.id, n.payload.kind.tag, n.position.getD .origin, n.payload.toJson.canonical⟩

/-- The kind of an edge is its shape. -/
def Edge.toDocument (e : Edge) : Document.Edge := ⟨e.id, e.source, e.target, some e.kind.name, e.label, e.data⟩

def Graph.toDocument (g : Graph) : Document :=
  ⟨g.id, g.title, g.start, g.ends, g.nodes.nodes.map Node.toDocument, g.edges.map Edge.toDocument⟩

end DialogueScript
