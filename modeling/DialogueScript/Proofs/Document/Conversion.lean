import DialogueScript.Document.Conversion
import DialogueScript.Proofs.Document.Payload
import DialogueScript.Proofs.Node.Reading
/-!
# Graphs survive in documents

A document shows every node somewhere, so a graph that was made into a document and back has all its positions.
Apart from that it is the same graph: each node of the document has the tag of its payload and is read as that
payload, and no id comes twice because no key does.

Results:
* `Node.payload_toDocument`: the node of a document says what the node of the graph says.
* `Document.nodes_of_toGraph`: the nodes that are made from a document stand under their ids, with a position and
  finite numbers.
* `toGraph_toDocument`: graphs are what is made of their documents.
-/
namespace DialogueScript
open Json

/-! ## Positions -/

/-- The node as a document shows it. -/
def Node.positioned (n : Node) : Node := { n with position := some (n.position.getD .origin) }

/-- The nodes as a document shows them. -/
def NodeTable.positioned (t : NodeTable) : NodeTable where
  entries := t.entries.map fun e => (e.1, e.2.positioned)
  distinct := by simpa [List.map_map, Function.comp_def] using t.distinct

/-- The graph as a document shows it: nodes without a position are at the origin. -/
def Graph.positioned (g : Graph) : Graph := { g with nodes := g.nodes.positioned }

theorem Node.positioned_eq_self {n : Node} (h : n.position.isSome) : n.positioned = n := by
  obtain ⟨id, position, payload⟩ := n
  obtain ⟨p, rfl⟩ := Option.isSome_iff_exists.1 h
  rfl

theorem Graph.positioned_eq_self {g : Graph} (h : ∀ e ∈ g.nodes.entries, e.2.position.isSome) : g.positioned = g := by
  have hentries : g.nodes.entries.map (fun e => (e.1, e.2.positioned)) = g.nodes.entries := by
    refine (List.map_congr_left fun e he => ?_).trans (List.map_id _)
    rw [Node.positioned_eq_self (h e he)]
    rfl
  have hnodes : g.nodes.positioned = g.nodes := NodeTable.ext hentries
  rw [positioned, hnodes]

/-! ## Tags -/

theorem Json.member?_of_field? {ms : List (Text × Json)} {name : Text} {j : Json} (h : field? ms name = some (some j)) :
    (Json.object ms).member? name = some j := by
  unfold field? at h
  split at h
  · cases h
  · next hf =>
    cases h
    show (ms.find? (·.1 == name)).map (·.2) = _
    rw [← List.head?_filter, hf]
    rfl
  · cases h

/-- A record that is read as a payload says of which kind it is. -/
theorem Payload.exists_tag {ms : List (Text × Json)} {p : Payload} (h : ofJson? (.object ms) = some p) :
    ∃ tag kind, (Json.object ms).member? "type".toList = some (.string tag) ∧ Kind.ofTag? tag = some kind := by
  obtain ⟨-, tag, record, kind, htagged, hkind, -⟩ := ofJson?_eq_some_iff.1 h
  rw [tagged?] at htagged
  split at htagged
  · next hfield =>
    cases htagged
    exact ⟨tag, kind, Json.member?_of_field? hfield, kindUnder?_eq_ofTag? tag ▸ hkind⟩
  · cases htagged

/-- The node of a document says what the node of the graph says. -/
theorem Node.payload_toDocument {n : Node} (h : n.payload.isFinite) : n.toDocument.payload = .ok n.payload := by
  have hread : Payload.ofJson? n.toDocument.data = some n.payload := (Payload.restores h).decode_canonical
  obtain ⟨ms, hms⟩ : ∃ ms, n.toDocument.data = .object ms := ⟨_, canonical_object _⟩
  obtain ⟨tag, kind, htype, hkind⟩ := Payload.exists_tag (hms ▸ hread)
  have htag : n.toDocument.tag = tag := by
    rw [Document.Node.tag, hms, htype]
    rfl
  rw [Document.Node.payload, htag, hkind, hread]

/-! ## Nodes and edges -/

theorem EdgeKind.ofName?_name (k : EdgeKind) : ofName? k.name = some k := by cases k <;> decide

theorem Edge.toEdge_toDocument (e : Edge) : e.toDocument.toEdge = e := by
  have hkind : e.toDocument.kind = e.kind := by
    show (EdgeKind.ofName? e.kind.name).getD .next = e.kind
    rw [EdgeKind.ofName?_name]
    rfl
  rw [Document.Edge.toEdge, hkind]
  rfl

namespace Document

theorem addNode_toDocument {t : NodeTable} {n : DialogueScript.Node} (h : n.payload.isFinite) (hnew : n.id ∉ t.keys) :
    addNode t n.toDocument = .ok (t.insert n.id n.positioned) := by
  have hcontains : t.contains n.toDocument.id = false := by
    show t.keys.contains n.id = false
    simpa using hnew
  rw [addNode, Node.payload_toDocument h]
  simp only [hcontains, Bool.false_eq_true, if_false]
  rfl

theorem foldlM_addNode {es : List (Text × DialogueScript.Node)} {t : NodeTable} (hid : ∀ e ∈ es, e.1 = e.2.id)
    (hfin : ∀ e ∈ es, e.2.payload.isFinite) (hd : ((t.entries ++ es).map (·.1)).Nodup) :
    (es.map fun e => e.2.toDocument).foldlM addNode t =
      .ok ((es.map fun e => (e.1, e.2.positioned)).foldl (fun t (k, n) => t.insert k n) t) := by
  induction es generalizing t with
  | nil => rfl
  | cons e es ih =>
    obtain ⟨key, n⟩ := e
    obtain rfl : key = n.id := hid (key, n) (by simp)
    have hnew : n.id ∉ t.keys := by
      intro hm
      rw [List.map_append] at hd
      exact (List.nodup_append.1 hd).2.2 n.id hm n.id (by simp) rfl
    have hd' : (((t.insert n.id n.positioned).entries ++ es).map (·.1)).Nodup := by
      have hentries : (t.insert n.id n.positioned).entries = t.entries ++ [(n.id, n.positioned)] :=
        NodeTable.insertEntry_new hnew n.positioned
      rw [hentries]
      simpa using hd
    rw [List.map_cons, List.foldlM_cons, addNode_toDocument (hfin (n.id, n) (by simp)) hnew]
    exact ih (fun e he => hid e (by simp [he])) (fun e he => hfin e (by simp [he])) hd'

/-- The graph of the document of a graph. -/
theorem toGraph_of_sound {g : Graph} (hid : ∀ e ∈ g.nodes.entries, e.1 = e.2.id)
    (hfin : ∀ n ∈ g.nodes.nodes, n.payload.isFinite) : g.toDocument.toGraph = .ok g.positioned := by
  have hfin' : ∀ e ∈ g.nodes.entries, e.2.payload.isFinite := fun e he => hfin e.2 (List.mem_map_of_mem he)
  have hdocument : g.toDocument.nodes = g.nodes.entries.map fun e => e.2.toDocument := List.map_map
  have hfold := foldlM_addNode hid hfin' (t := .empty) g.nodes.distinct
  have htable : NodeTable.ofList (g.nodes.entries.map fun e => (e.1, e.2.positioned)) = g.nodes.positioned :=
    NodeTable.ext (NodeTable.entries_ofList g.nodes.positioned.distinct)
  have hedges : g.toDocument.edges.map Edge.toEdge = g.edges := by
    show (g.edges.map DialogueScript.Edge.toDocument).map Edge.toEdge = g.edges
    rw [List.map_map]
    exact List.map_id'' Edge.toEdge_toDocument g.edges
  rw [toGraph, hdocument, hfold, hedges]
  show Except.ok _ = _
  rw [← NodeTable.ofList, htable]
  rfl

/-! ## What is made from a document -/

/-- A node that was added stands under its id, with a position and finite numbers. -/
theorem entries_addNode {t u : NodeTable} {n : Node} (h : addNode t n = .ok u) :
    ∃ p, p.isFinite ∧ u.entries = t.entries ++ [(n.id, ⟨n.id, some n.position, p⟩)] := by
  unfold addNode at h
  split at h
  · cases h
  · next p hp =>
    split at h
    · cases h
    · next hnew =>
      have hread : Payload.ofJson? n.data = some p := by
        unfold Node.payload at hp
        split at hp
        · cases hp
        · split at hp
          · next hread => cases hp; exact hread
          · cases hp
      have hkey : n.id ∉ t.keys := by simpa [NodeTable.contains] using hnew
      cases h
      exact ⟨p, Payload.isFinite_of_ofJson? hread, NodeTable.insertEntry_new hkey _⟩

/-- All nodes that are made from a document stand under their ids, with a position and finite numbers. -/
theorem nodes_of_toGraph {d : Document} {g : Graph} (h : d.toGraph = .ok g) :
    ∀ e ∈ g.nodes.entries, e.1 = e.2.id ∧ e.2.position.isSome ∧ e.2.payload.isFinite := by
  unfold toGraph at h
  split at h
  · cases h
  · next nodes hnodes =>
    cases h
    refine except_foldlM_invariant
      (I := fun t => ∀ e ∈ t.entries, e.1 = e.2.id ∧ e.2.position.isSome ∧ e.2.payload.isFinite) ?_
      (fun e he => absurd he List.not_mem_nil) hnodes
    intro n _ t u ht hadd e he
    obtain ⟨p, hp, hentries⟩ := entries_addNode hadd
    rw [hentries] at he
    rcases List.mem_append.1 he with he | he
    · exact ht e he
    · obtain rfl := List.mem_singleton.1 he
      exact ⟨rfl, rfl, hp⟩

end Document

/-! ## Graphs and their documents -/

/-- A graph is what is made of its document, but for the positions that were missing; so nothing is lost of a graph
that was made from a document. -/
theorem toGraph_toDocument :
    (∀ g : Graph, (∀ e ∈ g.nodes.entries, e.1 = e.2.id) → (∀ n ∈ g.nodes.nodes, n.payload.isFinite) →
      g.toDocument.toGraph = .ok g.positioned) ∧
    ∀ (d : Document) (g : Graph), d.toGraph = .ok g → g.toDocument.toGraph = .ok g := by
  refine ⟨fun g hid hfin => Document.toGraph_of_sound hid hfin, fun d g h => ?_⟩
  have hnodes := Document.nodes_of_toGraph h
  have hfin : ∀ n ∈ g.nodes.nodes, n.payload.isFinite := by
    intro n hn
    obtain ⟨e, he, rfl⟩ := List.mem_map.1 hn
    exact (hnodes e he).2.2
  rw [Document.toGraph_of_sound (fun e he => (hnodes e he).1) hfin,
    Graph.positioned_eq_self fun e he => (hnodes e he).2.1]

/-- A graph with a node of each kind, none of them placed. -/
def sketch : Graph where
  id := "sketch".toList
  title := "Sketch".toList
  start := ['a']
  nodes := ⟨[
    (['a'], ⟨['a'], none, .speech ⟨['B'], "Hi".toList, some ['b'], [['f']]⟩⟩),
    (['b'], ⟨['b'], none, .menu ⟨[⟨['1'], "Go".toList, none,
      [.compare ['f'] .greaterEqual (.number (.ofInt 3)), .compare ['g'] .equals (.text "3".toList)], []⟩]⟩⟩),
    (['c'], ⟨['c'], none, .branching ⟨[⟨['1'], .ifThen, some [.isNotSet ['f']], [], none, some ['d']⟩,
      ⟨['2'], .orElse, none, "Bye".toList, some ['B'], none⟩]⟩⟩),
    (['d'], ⟨['d'], none, .storylet ⟨['t'], .node, some ['x'], .finish, none,
      .ofList [(['z'], ['1']), (['y'], ['2'])]⟩⟩),
    (['e'], ⟨['e'], none, .pool ⟨['p'], .weighted, [⟨['t'], 3⟩], some ['a'], .empty⟩⟩)], by decide⟩
  edges := [⟨['1'], ['c'], ['d'], .branch, some "if".toList, some (.array [.null])⟩]
  ends := [⟨['b'], some ['k']⟩]

/-- A document whose node has the second tag of speeches and a field of its own, with an edge of another editor. -/
def foreignDocument : Document where
  id := ['d']
  title := []
  start := ['a']
  ends := []
  nodes := [⟨['a'], "card".toList, ⟨.ofInt 1, .ofInt 2⟩, .object [("color".toList, .int 7),
    ("type".toList, .string "character".toList), ("content".toList, .string "Hi".toList),
    ("speaker".toList, .string ['B'])]⟩]
  edges := [⟨['1'], ['a'], ['a'], some "smoothstep".toList, none, some .null⟩]

def foreignGraph : Graph where
  id := ['d']
  title := []
  start := ['a']
  nodes := ⟨[(['a'], ⟨['a'], some ⟨.ofInt 1, .ofInt 2⟩, .speech ⟨['B'], "Hi".toList, none, []⟩⟩)], by decide⟩
  edges := [⟨['1'], ['a'], ['a'], .next, none, some .null⟩]
  ends := []

theorem toGraph_toDocument_sketch : sketch.toDocument.toGraph = .ok sketch.positioned ∧
    foreignDocument.toGraph = .ok foreignGraph ∧ foreignGraph.toDocument.toGraph = .ok foreignGraph := by
  obtain ⟨hgraph, hdocument⟩ := toGraph_toDocument
  have hforeign : foreignDocument.toGraph = .ok foreignGraph := by rfl
  exact ⟨hgraph sketch (by decide) (by decide +kernel), hforeign, hdocument foreignDocument foreignGraph hforeign⟩

end DialogueScript
