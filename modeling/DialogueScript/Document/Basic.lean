import DialogueScript.Document.Graph
import DialogueScript.Failure
import DialogueScript.Json.Parser
import DialogueScript.Json.Printer
/-!
# Documents

A document is a dialogue as a visual editor stores it: nodes and edges are those of a diagram, and what a node
says in the dialogue is data of which only its tag is known.

* `Document.ofJson?`, `Document.toJson`: the JSON value of a document.
* `Document.read`, `Document.text`: the JSON text of a document.
* `Document.agrees`: equality in which both floating point zeros are one number.
-/
namespace DialogueScript
open Json

/-- A node of the diagram. What it is in the dialogue stands in its data. -/
structure Document.Node where
  id : Text
  /-- How the editor shows the node. -/
  shape : Text
  position : Position
  data : Json
  deriving DecidableEq, Repr

structure Document.Edge where
  id : Text
  source : Text
  target : Text
  /-- How the editor shows the edge, or what the edge stands for. -/
  shape : Option Text
  label : Option Text
  data : Option Json
  deriving DecidableEq, Repr

structure Document where
  id : Text
  title : Text
  start : Text
  ends : List End
  nodes : List Document.Node
  edges : List Document.Edge
  deriving DecidableEq, Repr

def Position.origin : Position := ⟨.ofInt 0, .ofInt 0⟩

namespace Document

/-! ## JSON values -/

def Node.toJson (n : Node) : Json :=
  record [always "id" (.string n.id), always "type" (.string n.shape), always "position" n.position.toJson,
    always "data" n.data]

/-- Data have to be there; what they are is looked at when a graph is made. -/
def Node.ofJson? (j : Json) : Option Node :=
  match fields? ["id", "type", "position", "data"] j with
  | some [id, shape, position, data] => do
    return ⟨← required string? id, ← withDefault [] string? shape, ← withDefault .origin Position.ofJson? position,
      ← required value? data⟩
  | _ => none

def Edge.toJson (e : Edge) : Json :=
  record [always "id" (.string e.id), always "source" (.string e.source), always "target" (.string e.target),
    whenSome "type" .string e.shape, whenSome "label" .string e.label, whenSome "data" (·) e.data]

def Edge.ofJson? (j : Json) : Option Edge :=
  match fields? ["id", "source", "target", "type", "label", "data"] j with
  | some [id, source, target, shape, label, data] => do
    return ⟨← required string? id, ← required string? source, ← required string? target, ← optional string? shape,
      ← optional string? label, ← optional value? data⟩
  | _ => none

/-- Reads the nodes and edges of the diagram. -/
def flow? (j : Json) : Option (List Node × List Edge) :=
  match fields? ["nodes", "edges"] j with
  | some [nodes, edges] => do
    return (← withDefault [] (list? Node.ofJson?) nodes, ← withDefault [] (list? Edge.ofJson?) edges)
  | _ => none

def toJson (d : Document) : Json :=
  record [always "id" (.string d.id), always "title" (.string d.title), always "startNodeId" (.string d.start),
    always "endNodeIds" (ofList End.toJson d.ends),
    always "flow" (record [always "nodes" (ofList Node.toJson d.nodes), always "edges" (ofList Edge.toJson d.edges)])]

/-- A document without a diagram has no nodes and no edges. -/
def ofJson? (j : Json) : Option Document :=
  match fields? ["id", "title", "startNodeId", "endNodeIds", "flow"] j with
  | some [id, title, start, ends, flow] => do
    let (nodes, edges) ← withDefault ([], []) flow? flow
    return ⟨← required string? id, ← withDefault [] string? title, ← required string? start,
      ← withDefault [] (list? End.ofJson?) ends, nodes, edges⟩
  | _ => none

/-! ## JSON texts -/

def read (s : Text) : Except Failure Document :=
  match (Json.parse? s).bind ofJson? with
  | some d => .ok d
  | none => .error .json

def text (d : Document) : Text := d.toJson.pretty

/-! ## Agreement -/

def Node.plainZero (n : Node) : Node := { n with position := n.position.plainZero, data := n.data.plainZero }

def Edge.plainZero (e : Edge) : Edge := { e with data := e.data.map Json.plainZero }

def plainZero (d : Document) : Document :=
  { d with nodes := d.nodes.map Node.plainZero, edges := d.edges.map Edge.plainZero }

/-- The documents are equal but for the signs of zeros. -/
def agrees (d e : Document) : Bool := d.plainZero == e.plainZero

end Document
end DialogueScript
