import DialogueScript.Proofs.Script.Read
import Mathlib.Data.List.Nodup
/-!
# The ends of a script

A graph ends where its script marks an end, and where the script has no description of the graph, on every node that
leads nowhere as well. The second kind of end is put in front of the first kind and is not compared with it. So a node
that leads nowhere and is marked as well, say for the key it exits with, is an end twice: without the key and with it.

Results:
* `Graph.mem_terminals_iff`: the nodes that lead nowhere are those that no derived edge goes out of.
* `IsEnded`: what the ends of a graph are, and how often each node is one of them.
* `isEnded_of_read`: every graph that was read is ended by what its preamble says.
-/
namespace DialogueScript

/-! ## Nodes that lead nowhere -/

namespace Graph

/-- There is a node with this id, and no derived edge goes out of it. -/
def IsFinal (g : Graph) (id : Text) : Prop := id ∈ g.nodes.nodes.map (·.id) ∧ ∀ e ∈ g.derivedEdges, e.source ≠ id

theorem source_of_mem_edges {n : Node} {e : Edge} (h : e ∈ n.edges) : e.source = n.id := by
  obtain ⟨r, -, rfl⟩ := List.mem_map.1 h
  rfl

/-- Without references a node has no edge; another node has none for it either, since the ids differ. -/
theorem mem_terminals_iff {g : Graph} (hd : (g.nodes.nodes.map (·.id)).Nodup) {id : Text} :
    id ∈ g.terminals ↔ g.IsFinal id := by
  constructor
  · intro hid
    obtain ⟨n, hn, rfl⟩ := List.mem_map.1 hid
    obtain ⟨hmem, hempty⟩ := List.mem_filter.1 hn
    refine ⟨List.mem_map_of_mem hmem, fun e he hsource => ?_⟩
    obtain ⟨m, hm, hedge⟩ := List.mem_flatMap.1 he
    rw [source_of_mem_edges hedge] at hsource
    obtain rfl := List.inj_on_of_nodup_map hd hm hmem hsource
    rw [Node.edges, List.isEmpty_iff.1 hempty] at hedge
    cases hedge
  · rintro ⟨hid, hedges⟩
    obtain ⟨n, hn, rfl⟩ := List.mem_map.1 hid
    refine List.mem_map_of_mem (List.mem_filter.2 ⟨hn, List.isEmpty_iff.2 ?_⟩)
    refine List.eq_nil_iff_forall_not_mem.2 fun r hr => ?_
    exact hedges _ (List.mem_flatMap.2 ⟨n, hn, List.mem_map_of_mem hr⟩) rfl

theorem nodup_terminals {g : Graph} (hd : (g.nodes.nodes.map (·.id)).Nodup) : g.terminals.Nodup :=
  hd.sublist (List.filter_sublist.map _)

end Graph

namespace Script

/-! ## Ends -/

/-- How a graph is ended by the ends that its preamble marks, and by whether the preamble describes the graph. Where
no two of these ends are on one node, only a node that is an end by itself and is marked as well is an end twice. -/
structure IsEnded (g : Graph) (described : Prop) (ends : List End) : Prop where
  ids : ∀ id, id ∈ g.ends.map (·.node) ↔ (¬described ∧ g.IsFinal id) ∨ id ∈ ends.map (·.node)
  nodup : (ends.map (·.node)).Nodup → ((g.ends.map (·.node)).Nodup ↔ described ∨ ∀ e ∈ ends, ¬g.IsFinal e.node)
  single : (ends.map (·.node)).Nodup → ∀ e ∈ ends, described ∨ ¬g.IsFinal e.node →
    g.ends.filter (·.node == e.node) = [e]
  doubled : (ends.map (·.node)).Nodup → ∀ e ∈ ends, ¬described → g.IsFinal e.node →
    g.ends.filter (·.node == e.node) = [.plain e.node, e]

/-- The ends that a graph has by itself. -/
def ownEnds (p : Preamble) (g : Graph) : List End := if p.graph.isSome then [] else g.terminals.map .plain

theorem assemble_ends (p : Preamble) (ns : List Node) :
    (assemble p ns).ends = ownEnds p (assemble p ns) ++ p.ends := by
  unfold ownEnds assemble
  cases p.graph <;> rfl

theorem filter_plain {ids : List Text} (hd : ids.Nodup) {id : Text} (hid : id ∈ ids) :
    (ids.map End.plain).filter (·.node == id) = [.plain id] := by
  have hnodes : (ids.map End.plain).map (·.node) = ids := by
    rw [List.map_map]
    exact List.map_id ids
  have hd' : ((ids.map End.plain).map (·.node)).Nodup := by rwa [hnodes]
  exact filter_key hd' (List.mem_map_of_mem hid)

theorem filter_plain_of_not_mem {ids : List Text} {id : Text} (hid : id ∉ ids) :
    (ids.map End.plain).filter (·.node == id) = [] := by
  refine List.filter_eq_nil_iff.2 fun e he hnode => ?_
  obtain ⟨i, hi, rfl⟩ := List.mem_map.1 he
  exact hid (beq_iff_eq.1 hnode ▸ hi)

/-- Ends that a graph has by itself and ends that are marked make up the ends of a graph. -/
theorem isEnded_append {g : Graph} {described : Prop} {own : List Text} {ends : List End} (hown : own.Nodup)
    (hmem : ∀ id, id ∈ own ↔ ¬described ∧ g.IsFinal id) (hends : g.ends = own.map .plain ++ ends) :
    IsEnded g described ends := by
  have hids : g.ends.map (·.node) = own ++ ends.map (·.node) := by
    rw [hends, List.map_append, List.map_map]
    exact congrArg (· ++ _) (List.map_id own)
  refine ⟨?_, ?_, ?_, ?_⟩
  · intro id
    rw [hids, List.mem_append, hmem]
  · intro hd
    rw [hids, List.nodup_append]
    constructor
    · rintro ⟨-, -, hdisjoint⟩
      refine or_iff_not_imp_left.2 fun hnot e he hfinal => ?_
      exact hdisjoint _ ((hmem _).2 ⟨hnot, hfinal⟩) _ (List.mem_map_of_mem he) rfl
    · intro h
      refine ⟨hown, hd, fun id hid id' hid' heq => ?_⟩
      obtain ⟨e, he, rfl⟩ := List.mem_map.1 hid'
      obtain ⟨hnot, hfinal⟩ := (hmem _).1 (heq ▸ hid)
      exact h.elim hnot fun h => h e he hfinal
  · intro hd e he h
    have hnot : e.node ∉ own := fun hid => h.elim ((hmem _).1 hid).1 fun h => h ((hmem _).1 hid).2
    rw [hends, List.filter_append, filter_plain_of_not_mem hnot, filter_key hd he]
    rfl
  · intro hd e he hnot hfinal
    rw [hends, List.filter_append, filter_plain hown ((hmem _).2 ⟨hnot, hfinal⟩), filter_key hd he]
    rfl

theorem isEnded_assemble {ns : List Node} (hns : (ns.map (·.id)).Nodup) (p : Preamble) :
    IsEnded (assemble p ns).withDerivedEdges p.graph.isSome p.ends := by
  have hnodes : ((assemble p ns).nodes.nodes.map (·.id)).Nodup := by
    rw [nodes_assemble hns]
    exact hns
  have hends := assemble_ends p ns
  unfold ownEnds at hends
  cases hgraph : p.graph with
  | some d =>
    rw [hgraph] at hends
    exact isEnded_append .nil (fun id => by simp) hends
  | none =>
    rw [hgraph] at hends
    refine isEnded_append (Graph.nodup_terminals hnodes) (fun id => ?_) hends
    have hnot : ¬(none : Option Directive).isSome := by decide
    rw [and_iff_right hnot]
    exact Graph.mem_terminals_iff hnodes

/-- Every end directive marks an end, and the graph ends on what these directives mark and, without a description, on
the nodes that lead nowhere. -/
theorem isEnded_of_read {settings : Settings} {s : Text} {out : Outcome} (h : read settings s = .ok out) :
    ∃ o ends, Outline.read s = .ok o ∧ marked (o.preamble.map (·.2)) = ends.map some ∧
      IsEnded out.graph (graphs (o.preamble.map (·.2)) ≠ []) ends := by
  obtain ⟨o, ho, hg, -⟩ := read_eq_ok h
  obtain ⟨p, ns, hp, hns, hgraph⟩ := readGraph_eq_ok_iff.1 hg
  obtain ⟨hgraphs, hmarked⟩ := Preamble.read_eq_ok_iff.1 hp
  refine ⟨o, p.ends, ho, hmarked, ?_⟩
  have hdescribed : p.graph.isSome = (graphs (o.preamble.map (·.2)) ≠ [] : Prop) := by
    rw [hgraphs]
    cases p.graph <;> simp
  rw [← hdescribed, ← hgraph]
  exact isEnded_assemble (nodup_of_readBlocks ho hns) p

/-- A script that marks the key with which its last node exits. -/
def exitScript : Text := "// @end node=a exit=x\ntitle: a\n---\nBob: Hi\n===\n".toList

/-- The graph of that script, with an end for the node and another one for the directive. -/
def exitGraph : Graph where
  id := "dialogue".toList
  title := []
  start := ['a']
  nodes := .ofList [(['a'], ⟨['a'], none, .speech ⟨"Bob".toList, "Hi".toList, none, []⟩⟩)]
  edges := []
  ends := [⟨['a'], none⟩, ⟨['a'], some ['x']⟩]

theorem read_exitScript : read .standard exitScript = .ok ⟨exitGraph, [], exitGraph.check none⟩ := by
  with_unfolding_all rfl

theorem isEnded_of_read_exit : read .standard exitScript = .ok ⟨exitGraph, [], exitGraph.check none⟩ ∧
    ∃ o ends, Outline.read exitScript = .ok o ∧ marked (o.preamble.map (·.2)) = ends.map some ∧
      IsEnded exitGraph (graphs (o.preamble.map (·.2)) ≠ []) ends :=
  ⟨read_exitScript, isEnded_of_read read_exitScript⟩

def exitOutline : Outline where
  preamble := [(1, ⟨endName, [("node".toList, ['a']), ("exit".toList, ['x'])]⟩)]
  blocks := [⟨['a'], 2, [], [⟨4, "Bob: Hi".toList⟩]⟩]

/-- The only directive marks an end with a key on a node that leads nowhere, and the graph ends on that node twice. -/
theorem exit_twice : Outline.read exitScript = .ok exitOutline ∧
    graphs (exitOutline.preamble.map (·.2)) = [] ∧
    marked (exitOutline.preamble.map (·.2)) = [some ⟨['a'], some ['x']⟩] ∧
    read .standard exitScript = .ok ⟨exitGraph, [], exitGraph.check none⟩ ∧
    exitGraph.ends = [⟨['a'], none⟩, ⟨['a'], some ['x']⟩] ∧ ¬(exitGraph.ends.map (·.node)).Nodup :=
  ⟨by with_unfolding_all rfl, rfl, rfl, read_exitScript, rfl, by decide⟩

end Script
end DialogueScript
