import DialogueScript.Check.Graph
import DialogueScript.Proofs.Check.Payload
import DialogueScript.Proofs.Graph.Table
/-!
# Graphs that pass a check, and graphs that were read

A graph without structural problems and without infinite numbers is sound: its nodes are sound, each under its
own id, and its ends are ids. A sound graph whose edges say what its references say is what reading gives, and a
check finds little in it: edges cannot dangle, and names are well formed but for those that a storylet carries.

Results:
* `Graph.sound_of_structural`: a graph that may be written is sound.
* `Graph.not_prevented_problems`: what a check can still find in a sound graph with derived edges.
* `Graph.storylet_of_badTarget`: a jump target that is no id is that of a storylet.
-/
namespace DialogueScript
open Check

/-- The position and the payload of the node hold no infinite or undefined number. -/
def Node.isFinite (n : Node) : Bool := n.position.all Position.isFinite && n.payload.isFinite

/-- No position and no condition in the graph holds an infinite or undefined number. -/
def Graph.isFinite (g : Graph) : Bool := g.nodes.nodes.all Node.isFinite

/-- Every node is sound and stored under its id, every end is an id. -/
structure Graph.Sound (g : Graph) : Prop where
  keys : ∀ e ∈ g.nodes.entries, e.1 = e.2.id
  nodes : ∀ n ∈ g.nodes.nodes, n.Sound
  ends : ∀ e ∈ g.ends, Text.isNodeId e.node

theorem Node.isFinite_of_sound {n : Node} (h : n.Sound) : n.isFinite := by
  have hposition : n.position.all Position.isFinite := by
    cases hp : n.position with
    | none => rfl
    | some p => exact h.position p hp
  simp [isFinite, hposition, Payload.isFinite_of_sound h.payload]

namespace Graph

variable {g : Graph} {q : Problem}

theorem isFinite_of_sound (h : g.Sound) : g.isFinite :=
  List.all_eq_true.2 fun n hn => Node.isFinite_of_sound (h.nodes n hn)

/-! ## What each rule finds -/

theorem mem_problems_iff : q ∈ g.problems ↔ q ∈ g.startProblems ∨ (∃ e ∈ g.ends, q ∈ g.endProblems e) ∨
    (∃ e ∈ g.edges, q ∈ g.edgeProblems e) ∨ ∃ e ∈ g.nodes.entries, q ∈ g.nodeProblems e.1 e.2 := by
  simp only [problems, List.mem_append, List.mem_flatMap, or_assoc]

theorem mem_startProblems (hq : q ∈ g.startProblems) :
    q = .badName g.start .start g.start ∨ q = .missingStart g.start ∧ g.nodes.contains g.start = false := by
  unfold startProblems at hq
  split at hq
  · exact .inl (List.mem_singleton.1 hq)
  · exact .inr (mem_demand_iff.1 hq).symm

theorem mem_endProblems {e : End} (hq : q ∈ g.endProblems e) :
    q = .badName e.node .ending e.node ∨ q = .missingEnd e.node ∧ g.nodes.contains e.node = false := by
  unfold endProblems at hq
  split at hq
  · exact .inr (mem_demand_iff.1 hq).symm
  · exact .inl (List.mem_singleton.1 hq)

theorem mem_edgeProblems {e : Edge} (hq : q ∈ g.edgeProblems e) :
    ∃ node, (e.source = node ∨ e.target = node) ∧ q = .danglingEdge e.id node ∧ g.nodes.contains node = false := by
  obtain ⟨node, hnode, hq⟩ := List.mem_flatMap.1 hq
  split at hq
  · cases hq
  · have hend : e.source = node ∨ e.target = node := by simpa [eq_comm] using hnode
    exact ⟨node, hend, (mem_demand_iff.1 hq).symm⟩

theorem mem_referenceProblems {node : Text} {r : Reference} (hq : q ∈ g.referenceProblems node r) :
    q = .badName node .target r.target ∧ Text.isNodeId r.target = false ∨
      q = .danglingReference node r.target ∧ g.nodes.contains r.target = false := by
  unfold referenceProblems at hq
  split at hq
  · exact .inr (mem_demand_iff.1 hq).symm
  · next hid => exact .inl ⟨List.mem_singleton.1 hq, by simpa using hid⟩

theorem mem_nodeProblems {key : Text} {n : Node} (hq : q ∈ g.nodeProblems key n) :
    q = .defect key (.wrongKey key n.id) ∨ q = .badName n.id .node n.id ∨
      (∃ r ∈ n.references, q ∈ g.referenceProblems n.id r) ∨ q ∈ payloadProblems n.id n.payload := by
  simp only [nodeProblems, List.mem_append, List.mem_flatMap, or_assoc] at hq
  rcases hq with hq | hq | hq
  · exact .inl (mem_demand hq)
  · exact .inr (.inl (mem_demand hq))
  · exact .inr (.inr hq)

/-! ## Graphs that may be written -/

section Structural

variable {schema : Option Schema}

theorem not_isStructural_of_mem (h : (g.check schema).structural = []) (hq : q ∈ g.problems) :
    q.isStructural = false := by
  cases hs : q.isStructural with
  | false => rfl
  | true =>
    have hm : q ∈ (g.check schema).structural := List.mem_filter.2 ⟨hq, hs⟩
    rw [h] at hm
    cases hm

theorem isStructural_edgeProblems {e : Edge} (hq : q ∈ g.edgeProblems e) : q.isStructural = false := by
  obtain ⟨node, -, rfl, -⟩ := mem_edgeProblems hq
  rfl

/-- Edges have no part in what keeps a graph from being written, and neither has a schema. -/
theorem structural_eq (g : Graph) (schema : Option Schema) : (g.check schema).structural =
    (g.startProblems ++ g.ends.flatMap g.endProblems ++
      g.nodes.entries.flatMap fun (key, n) => g.nodeProblems key n).filter Problem.isStructural := by
  have hedges : (g.edges.flatMap g.edgeProblems).filter Problem.isStructural = [] := by
    apply List.filter_eq_nil_iff.2
    intro q hq
    obtain ⟨e, -, hq⟩ := List.mem_flatMap.1 hq
    simp [isStructural_edgeProblems hq]
  show g.problems.filter Problem.isStructural = _
  unfold problems
  simp only [List.filter_append, hedges, List.append_nil]

theorem mem_problems_of_node {e : Text × Node} (he : e ∈ g.nodes.entries) (hq : q ∈ g.nodeProblems e.1 e.2) :
    q ∈ g.problems :=
  mem_problems_iff.2 (.inr (.inr (.inr ⟨e, he, hq⟩)))

theorem mem_problems_of_end {e : End} (he : e ∈ g.ends) (hq : q ∈ g.endProblems e) : q ∈ g.problems :=
  mem_problems_iff.2 (.inr (.inl ⟨e, he, hq⟩))

/-- A demand behind which there is a structural problem is met in a graph that may be written. -/
theorem demand_met {ok : Bool} {p : Problem} (h : (g.check schema).structural = []) (hp : p.isStructural)
    (hmem : ∀ q ∈ demand ok p, q ∈ g.problems) : ok := by
  cases ok with
  | true => rfl
  | false =>
    have := not_isStructural_of_mem h (hmem p (by simp [demand]))
    rw [hp] at this
    cases this

variable {e : Text × Node}

theorem key_of_structural (h : (g.check schema).structural = []) (he : e ∈ g.nodes.entries) : e.1 = e.2.id := by
  have hok : (e.1 == e.2.id) = true := demand_met h rfl fun q hq => mem_problems_of_node he
    (List.mem_append_left _ (List.mem_append_left _ (List.mem_append_left _ hq)))
  exact beq_iff_eq.1 hok

theorem isNodeId_of_structural (h : (g.check schema).structural = []) (he : e ∈ g.nodes.entries) :
    Text.isNodeId e.2.id :=
  demand_met h rfl fun _ hq => mem_problems_of_node he
    (List.mem_append_left _ (List.mem_append_left _ (List.mem_append_right _ hq)))

theorem isNodeId_target_of_structural (h : (g.check schema).structural = []) (he : e ∈ g.nodes.entries) {r : Reference}
    (hr : r ∈ e.2.references) : Text.isNodeId r.target := by
  cases ht : Text.isNodeId r.target with
  | true => rfl
  | false =>
    have hq : Problem.badName e.2.id .target r.target ∈ g.referenceProblems e.2.id r := by simp [referenceProblems, ht]
    cases not_isStructural_of_mem h (mem_problems_of_node he
      (List.mem_append_left _ (List.mem_append_right _ (List.mem_flatMap.2 ⟨r, hr, hq⟩))))

theorem payloadProblems_of_structural (h : (g.check schema).structural = []) (he : e ∈ g.nodes.entries) :
    payloadProblems e.2.id e.2.payload = [] := by
  apply List.eq_nil_iff_forall_not_mem.2
  intro q hq
  have := not_isStructural_of_mem h (mem_problems_of_node he (List.mem_append_right _ hq))
  rw [Problem.isStructural_of_isOfPayload (isOfPayload_payloadProblems hq)] at this
  cases this

theorem speakers_of_structural (h : (g.check schema).structural = []) :
    ∀ n ∈ g.nodes.nodes, ∀ w ∈ n.payload.speakers, Text.isSpeaker w := by
  intro n hn
  obtain ⟨e, he, rfl⟩ := List.mem_map.1 hn
  exact speakers_of_payloadProblems (payloadProblems_of_structural h he)

theorem isNodeId_end_of_structural (h : (g.check schema).structural = []) {x : End} (hx : x ∈ g.ends) :
    Text.isNodeId x.node := by
  cases ht : Text.isNodeId x.node with
  | true => rfl
  | false =>
    have hq : Problem.badName x.node .ending x.node ∈ g.endProblems x := by simp [endProblems, ht]
    cases not_isStructural_of_mem h (mem_problems_of_end hx hq)

theorem sound_of_structural (h : (g.check schema).structural = []) (hfin : g.isFinite) : g.Sound := by
  refine ⟨fun e he => key_of_structural h he, ?_, fun x hx => isNodeId_end_of_structural h hx⟩
  intro n hn
  have hfinite := List.all_eq_true.1 hfin n hn
  obtain ⟨e, he, rfl⟩ := List.mem_map.1 hn
  simp only [Node.isFinite, Bool.and_eq_true] at hfinite
  refine ⟨isNodeId_of_structural h he, ?_, ?_⟩
  · exact sound_of_payloadProblems (payloadProblems_of_structural h he) hfinite.2 fun r hr =>
      isNodeId_target_of_structural h he hr
  · intro p hp
    have := hfinite.1
    rwa [show e.2.position = some p from hp] at this

end Structural

/-! ## Graphs that were read -/

theorem mem_entries_of_mem_nodes (hkeys : ∀ e ∈ g.nodes.entries, e.1 = e.2.id) {n : Node} (hn : n ∈ g.nodes.nodes) :
    (n.id, n) ∈ g.nodes.entries := by
  obtain ⟨e, he, rfl⟩ := List.mem_map.1 hn
  rw [← hkeys e he]
  exact he

/-- A derived edge leads from a node that is there along one of its references. -/
theorem edgeProblems_of_mem_derivedEdges (hkeys : ∀ e ∈ g.nodes.entries, e.1 = e.2.id) {e : Edge}
    (he : e ∈ g.derivedEdges) : g.edgeProblems e = [] := by
  obtain ⟨n, hn, he⟩ := List.mem_flatMap.1 he
  obtain ⟨r, hr, rfl⟩ := List.mem_map.1 he
  have hentry := mem_entries_of_mem_nodes hkeys hn
  have hrestates : g.restatesReference (r.edge n.id) := by
    have hfind : g.node? (r.edge n.id).source = some n := NodeTable.get?_of_mem hentry
    unfold restatesReference
    rw [hfind]
    exact List.any_eq_true.2 ⟨r, hr, beq_self_eq_true r.target⟩
  have hsource : g.endpointProblems (r.edge n.id).id (r.edge n.id).source = [] :=
    demand_eq_nil.2 (NodeTable.contains_of_mem hentry)
  -- the target is left to the check of the reference that the edge restates
  unfold edgeProblems
  rw [hrestates, List.flatMap_cons, List.flatMap_cons, hsource]
  simp

theorem not_prevented_startProblems (hq : q ∈ g.startProblems) : q.isPrevented = false := by
  unfold startProblems at hq
  split at hq
  · rw [List.mem_singleton.1 hq]; rfl
  · exact not_prevented_demand rfl hq

theorem not_prevented_endProblems {e : End} (he : Text.isNodeId e.node) (hq : q ∈ g.endProblems e) :
    q.isPrevented = false := by
  unfold endProblems at hq
  rw [if_pos he] at hq
  exact not_prevented_demand rfl hq

theorem not_prevented_referenceProblems {node : Text} {r : Reference} (hq : q ∈ g.referenceProblems node r) :
    q.isPrevented = false := by
  unfold referenceProblems at hq
  split at hq
  · exact not_prevented_demand rfl hq
  · rw [List.mem_singleton.1 hq]; rfl

theorem not_prevented_nodeProblems {n : Node} (hn : n.Sound) (hq : q ∈ g.nodeProblems n.id n) :
    q.isPrevented = false := by
  unfold nodeProblems at hq
  rw [demand_eq_nil.2 (beq_self_eq_true n.id), demand_eq_nil.2 hn.id, List.nil_append, List.nil_append] at hq
  rcases List.mem_append.1 hq with hq | hq
  · obtain ⟨r, -, hq⟩ := List.mem_flatMap.1 hq
    exact not_prevented_referenceProblems hq
  · exact not_prevented_payloadProblems hn.payload hq

theorem not_prevented_problems (h : g.Sound) (hedges : g.edges = g.derivedEdges) (hq : q ∈ g.problems) :
    q.isPrevented = false := by
  unfold problems at hq
  rw [hedges, List.flatMap_eq_nil_iff.2 fun e he => edgeProblems_of_mem_derivedEdges h.keys he, List.append_nil] at hq
  rcases List.mem_append.1 hq with hq | hq
  · rcases List.mem_append.1 hq with hq | hq
    · exact not_prevented_startProblems hq
    · obtain ⟨e, he, hq⟩ := List.mem_flatMap.1 hq
      exact not_prevented_endProblems (h.ends e he) hq
  · obtain ⟨⟨key, n⟩, he, hq⟩ := List.mem_flatMap.1 hq
    obtain rfl : key = n.id := h.keys (key, n) he
    exact not_prevented_nodeProblems (h.nodes n (List.mem_map_of_mem he)) hq

/-- A bad target can only be found among the references of a node. -/
theorem badTarget_of_mem {node value : Text} (hq : .badName node .target value ∈ g.problems) :
    ∃ e ∈ g.nodes.entries, e.2.id = node ∧ ∃ r ∈ e.2.references, r.target = value ∧ Text.isNodeId value = false := by
  rcases mem_problems_iff.1 hq with hq | ⟨e, -, hq⟩ | ⟨e, -, hq⟩ | ⟨e, he, hq⟩
  · rcases mem_startProblems hq with hq | ⟨hq, -⟩ <;> cases hq
  · rcases mem_endProblems hq with hq | ⟨hq, -⟩ <;> cases hq
  · obtain ⟨x, -, hq, -⟩ := mem_edgeProblems hq
    cases hq
  · rcases mem_nodeProblems hq with hq | hq | ⟨r, hr, hq⟩ | hq
    · cases hq
    · cases hq
    · rcases mem_referenceProblems hq with ⟨hq, hid⟩ | ⟨hq, -⟩
      · cases hq
        exact ⟨e, he, rfl, r, hr, rfl, hid⟩
      · cases hq
    · cases isOfPayload_payloadProblems hq

theorem storylet_of_badTarget (h : g.Sound) {node value : Text} (hq : .badName node .target value ∈ g.problems) :
    ∃ n, g.node? node = some n ∧ n.payload.kind = .storylet := by
  obtain ⟨⟨key, n⟩, he, rfl, r, hr, rfl, hbad⟩ := badTarget_of_mem hq
  obtain rfl : key = n.id := h.keys (key, n) he
  refine ⟨n, NodeTable.get?_of_mem he, ?_⟩
  by_cases hk : n.payload.kind = .storylet
  · exact hk
  · have := Payload.isNodeId_of_mem_references (h.nodes n (List.mem_map_of_mem he)).payload hk r hr
    rw [this] at hbad
    cases hbad

end Graph
end DialogueScript
