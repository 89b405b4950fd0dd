import DialogueScript.Document.Payload
import DialogueScript.Graph.Basic
/-!
# Graphs in JSON

The JSON form of a graph is a record in which the nodes are an object: each node is a member under its key,
in the order of the graph.

* `Graph.toJson`, `Graph.ofJson?`: graphs.
* `Position`, `Node`, `Edge`, `End`: the same for the parts of a graph.
-/
namespace DialogueScript
open Json

def Position.toJson (p : Position) : Json := record [always "x" (ofFloat p.x), always "y" (ofFloat p.y)]

def Position.ofJson? (j : Json) : Option Position :=
  match fields? ["x", "y"] j with
  | some [x, y] => do return ⟨← required float? x, ← required float? y⟩
  | _ => none

def Node.toJson (n : Node) : Json :=
  record [always "id" (.string n.id), whenSome "position" Position.toJson n.position, always "data" n.payload.toJson]

def Node.ofJson? (j : Json) : Option Node :=
  match fields? ["id", "position", "data"] j with
  | some [id, position, payload] => do
    return ⟨← required string? id, ← optional Position.ofJson? position, ← required Payload.ofJson? payload⟩
  | _ => none

def Edge.toJson (e : Edge) : Json :=
  record [always "id" (.string e.id), always "source" (.string e.source), always "target" (.string e.target),
    always "kind" (.string e.kind.name), whenSome "label" .string e.label, whenSome "data" (·) e.data]

/-- An edge without a kind leads to the next node. -/
def Edge.ofJson? (j : Json) : Option Edge :=
  match fields? ["id", "source", "target", "kind", "label", "data"] j with
  | some [id, source, target, kind, label, data] => do
    return ⟨← required string? id, ← required string? source, ← required string? target,
      ← withDefault .next (named? .untagged EdgeKind.ofName?) kind, ← optional string? label, ← optional value? data⟩
  | _ => none

def End.toJson (e : End) : Json := record [always "nodeId" (.string e.node), whenSome "exitKey" .string e.exitKey]

def End.ofJson? (j : Json) : Option End :=
  match fields? ["nodeId", "exitKey"] j with
  | some [node, exitKey] => do return ⟨← required string? node, ← optional string? exitKey⟩
  | _ => none

/-- Writes the nodes under their keys. -/
def NodeTable.toJson (t : NodeTable) : Json := .object (t.entries.map fun (key, n) => (key, n.toJson))

/-- Reads the nodes under their keys. -/
def NodeTable.ofJson? : Json → Option NodeTable
  -- of two nodes under one key the later one takes the place of the first
  | .object members => (members.mapM fun m : Text × Json => (Node.ofJson? m.2).map (m.1, ·)).map .ofList
  | _ => none

def Graph.toJson (g : Graph) : Json :=
  record [always "id" (.string g.id), always "title" (.string g.title), always "startNodeId" (.string g.start),
    always "nodes" g.nodes.toJson, always "edges" (ofList Edge.toJson g.edges),
    always "endNodes" (ofList End.toJson g.ends)]

/-- The nodes have to be there, edges and ends need not. -/
def Graph.ofJson? (j : Json) : Option Graph :=
  match fields? ["id", "title", "startNodeId", "nodes", "edges", "endNodes"] j with
  | some [id, title, start, nodes, edges, ends] => do
    return ⟨← required string? id, ← required string? title, ← required string? start,
      ← required NodeTable.ofJson? nodes, ← withDefault [] (list? Edge.ofJson?) edges,
      ← withDefault [] (list? End.ofJson?) ends⟩
  | _ => none

end DialogueScript
