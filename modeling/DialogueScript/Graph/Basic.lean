import DialogueScript.Graph.Payload
import DialogueScript.Json.Basic
/-!
# Dialogue graphs

A graph holds its nodes in the order in which they were put in, each under a key of its own. Edges, the
start and the ends name nodes by id; an id need not be the id of a node.

* `NodeTable`: nodes under distinct keys, in order.
* `Graph`: a dialogue.
* `Graph.agrees`: equality in which numbers compare as numbers and nodes by their keys.

Results:
* `NodeTable.keys_insertEntry`: putting a node in adds its key at the end, or leaves the keys as they are.
-/
namespace DialogueScript

/-- A place on the canvas of an editor. -/
structure Position where
  x : Binary64
  y : Binary64
  deriving DecidableEq, Repr, Inhabited

/-- Both zeros compare as one number. -/
def Position.plainZero (p : Position) : Position := ⟨p.x.plainZero, p.y.plainZero⟩

structure Node where
  id : Text
  position : Option Position
  payload : Payload
  deriving DecidableEq, Repr

/-- What a reference or an edge stands for. -/
inductive EdgeKind
  | next
  | choice
  | branch
  | comeBack
  deriving DecidableEq, Repr

namespace EdgeKind

def name : EdgeKind → Text
  | next => "next".toList
  | choice => "choice".toList
  | branch => "branch".toList
  | comeBack => "return".toList

def ofName? (s : Text) : Option EdgeKind :=
  if s = "next".toList then some next
  else if s = "choice".toList then some choice
  else if s = "branch".toList then some branch
  else if s = "return".toList then some comeBack
  else none

end EdgeKind

/-- An edge between two nodes, with a label and data for the editor. -/
structure Edge where
  id : Text
  source : Text
  target : Text
  kind : EdgeKind
  label : Option Text
  data : Option Json -- of a derived edge, the choice or branch it leaves from
  deriving DecidableEq, Repr

/-- An edge that only joins two nodes. -/
def Edge.plain (id source target : Text) : Edge := ⟨id, source, target, .next, none, none⟩

/-- A node on which the dialogue may end, with a key for the game. -/
structure End where
  node : Text
  exitKey : Option Text
  deriving DecidableEq, Repr

def End.plain (node : Text) : End := ⟨node, none⟩

/-! ## Node tables -/

/-- The key of a node need not be its id. -/
structure NodeTable where
  entries : List (Text × Node)
  distinct : (entries.map (·.1)).Nodup
  deriving DecidableEq

namespace NodeTable

instance : Repr NodeTable := ⟨fun t n => reprPrec t.entries n⟩

def empty : NodeTable := ⟨[], .nil⟩

instance : Inhabited NodeTable := ⟨empty⟩

def keys (t : NodeTable) : List Text := t.entries.map (·.1)

def nodes (t : NodeTable) : List Node := t.entries.map (·.2)

def contains (t : NodeTable) (key : Text) : Bool := t.keys.contains key

def get? (t : NodeTable) (key : Text) : Option Node := (t.entries.find? (·.1 == key)).map (·.2)

/-- Puts a node over the one under its key, or at the end. -/
def insertEntry (key : Text) (node : Node) : List (Text × Node) → List (Text × Node)
  | [] => [(key, node)]
  | (k, n) :: r => if k = key then (k, node) :: r else (k, n) :: insertEntry key node r

theorem keys_insertEntry (key : Text) (node : Node) (es : List (Text × Node)) :
    (insertEntry key node es).map (·.1) =
      if key ∈ es.map (·.1) then es.map (·.1) else es.map (·.1) ++ [key] := by
  induction es with
  | nil => rfl
  | cons e r ih =>
    obtain ⟨k, n⟩ := e
    simp only [insertEntry]
    by_cases h : k = key
    · simp [h]
    · rw [if_neg h, List.map_cons, ih]
      have h' : key ≠ k := fun e => h e.symm
      by_cases hm : key ∈ r.map (·.1)
      · rw [if_pos hm, if_pos (by rw [List.map_cons]; exact List.mem_cons_of_mem _ hm)]; rfl
      · rw [if_neg hm, if_neg (by simpa [h'] using hm)]; rfl

theorem distinct_insertEntry (key : Text) (node : Node) {es : List (Text × Node)}
    (h : (es.map (·.1)).Nodup) : ((insertEntry key node es).map (·.1)).Nodup := by
  rw [keys_insertEntry]
  split
  · exact h
  · next hm =>
    rw [List.nodup_append]
    refine ⟨h, by simp, fun a ha b hb => ?_⟩
    rw [List.mem_singleton.1 hb]
    exact fun e => hm (e ▸ ha)

/-- The table with a node under a key: in the place of the node that is there, or at the end. -/
def insert (t : NodeTable) (key : Text) (node : Node) : NodeTable :=
  ⟨insertEntry key node t.entries, distinct_insertEntry key node t.distinct⟩

/-- The nodes of a list put in one after another. -/
def ofList (es : List (Text × Node)) : NodeTable := es.foldl (fun t (k, n) => t.insert k n) empty

end NodeTable

/-! ## Graphs -/

structure Graph where
  id : Text
  title : Text
  start : Text
  nodes : NodeTable
  edges : List Edge
  ends : List End
  deriving DecidableEq, Repr

namespace Graph

def new (id title : Text) : Graph := ⟨id, title, [], .empty, [], []⟩

/-- The dialogue with a node put in under its id. The first node is where the dialogue starts, unless a start
was named before. -/
def addNode (g : Graph) (n : Node) : Graph :=
  { g with start := if g.start.isEmpty then n.id else g.start, nodes := g.nodes.insert n.id n }

def node? (g : Graph) (key : Text) : Option Node := g.nodes.get? key

end Graph

/-! ## Numbers compare as numbers

Both zeros become one wherever a number stands in a graph. -/

def Choice.plainZero (c : Choice) : Choice := { c with conditions := c.conditions.map Condition.plainZero }

def Branch.plainZero (b : Branch) : Branch :=
  { b with condition := b.condition.map (List.map Condition.plainZero) }

def Payload.plainZero : Payload → Payload
  | menu m => .menu ⟨m.choices.map Choice.plainZero⟩
  | branching b => .branching ⟨b.branches.map Branch.plainZero⟩
  | p => p

def Node.plainZero (n : Node) : Node :=
  { n with position := n.position.map Position.plainZero, payload := n.payload.plainZero }

def Edge.plainZero (e : Edge) : Edge := { e with data := e.data.map Json.plainZero }

def NodeTable.plainZero (t : NodeTable) : List (Text × Node) := t.entries.map fun (k, n) => (k, n.plainZero)

/-- The tables hold equal nodes under equal keys, in any order. -/
def NodeTable.agrees (s t : NodeTable) : Bool :=
  s.entries.length == t.entries.length && s.plainZero.all t.plainZero.contains

/-- The graphs are equal but for the order of their nodes and the signs of zeros. -/
def Graph.agrees (g h : Graph) : Bool :=
  g.id == h.id && g.title == h.title && g.start == h.start && g.nodes.agrees h.nodes &&
    g.edges.map Edge.plainZero == h.edges.map Edge.plainZero && g.ends == h.ends

end DialogueScript
