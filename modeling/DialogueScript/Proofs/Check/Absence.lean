import DialogueScript.Proofs.Check.Graph
/-!
# Ids without a node

A graph names nodes by their ids in four places: its start, its ends, the two ends of its edges, and the references
of its nodes. A check looks up every one of them, but an edge that says the same as a reference leaves its target to
the check of that reference. So nothing that is missing goes unseen, and an edge along a reference does not make it
be seen twice.

Results:
* `exists_problem_of_absent`: an id without a node is found wherever it is named.
* `isJustified_of_mem`: what is found missing is missing, and is named where the problem says.
* `brokenReferences_of_problems`: a reference that leads nowhere is found once.
* `absentees_of_check`: all of these for any graph, and what derived edges change about it.
-/
namespace DialogueScript
open Check

namespace Check.Problem

/-- The id for which there is no node: one that is missing where it is named, or that cannot be an id at all. -/
def absentee? : Problem → Option Text
  | missingStart node | missingEnd node | danglingEdge _ node => some node
  | danglingReference _ target => some target
  | badName _ .start value | badName _ .ending value | badName _ .target value => some value
  | badName .. | repeatedNode _ | defect .. => none

/-- The reference that leads nowhere, as the node that refers and the id that it names. -/
def reference? : Problem → Option (Text × Text)
  | danglingReference source target => some (source, target)
  | badName source .target value => some (source, value)
  | _ => none

/-- An id that a problem finds missing is missing, and is named where the problem says. -/
def IsJustified (g : Graph) : Problem → Prop
  | missingStart node => g.start = node ∧ g.nodes.contains node = false
  | missingEnd node => (∃ e ∈ g.ends, e.node = node) ∧ g.nodes.contains node = false
  | danglingEdge edge node =>
    (∃ e ∈ g.edges, e.id = edge ∧ (e.source = node ∨ e.target = node)) ∧ g.nodes.contains node = false
  | danglingReference source target =>
    (∃ n ∈ g.nodes.nodes, n.id = source ∧ ∃ r ∈ n.references, r.target = target) ∧ g.nodes.contains target = false
  | badName .. | repeatedNode _ | defect .. => True

end Check.Problem

namespace Graph

/-- The ids by which a graph names nodes, in the order in which they are checked. -/
def namedIds (g : Graph) : List Text :=
  g.start :: (g.ends.map (·.node) ++ g.edges.flatMap (fun e => [e.source, e.target]) ++
    g.nodes.nodes.flatMap fun n => n.references.map (·.target))

/-- The reference leads to a node. -/
def leadsToNode (g : Graph) (r : Reference) : Bool := Text.isNodeId r.target && g.nodes.contains r.target

/-- The references that do not lead to a node, each with the id of the node that refers. -/
def brokenReferences (g : Graph) : List (Text × Text) :=
  g.nodes.nodes.flatMap fun n => (n.references.filter (!g.leadsToNode ·)).map fun r => (n.id, r.target)

variable {g : Graph} {q : Problem}

/-! ## What is missing is found -/

theorem exists_startProblem (h : g.nodes.contains g.start = false) :
    ∃ q ∈ g.startProblems, q.absentee? = some g.start := by
  unfold startProblems
  split
  · exact ⟨_, List.mem_singleton_self _, rfl⟩
  · exact ⟨_, mem_demand_iff.2 ⟨h, rfl⟩, rfl⟩

theorem exists_endProblem {e : End} (h : g.nodes.contains e.node = false) :
    ∃ q ∈ g.endProblems e, q.absentee? = some e.node := by
  unfold endProblems
  split
  · exact ⟨_, mem_demand_iff.2 ⟨h, rfl⟩, rfl⟩
  · exact ⟨_, List.mem_singleton_self _, rfl⟩

theorem exists_referenceProblem (node : Text) {r : Reference} (h : g.nodes.contains r.target = false) :
    ∃ q ∈ g.referenceProblems node r, q.absentee? = some r.target := by
  unfold referenceProblems
  split
  · exact ⟨_, mem_demand_iff.2 ⟨h, rfl⟩, rfl⟩
  · exact ⟨_, List.mem_singleton_self _, rfl⟩

theorem exists_problem_of_reference {n : Node} (hn : n ∈ g.nodes.nodes) {r : Reference} (hr : r ∈ n.references)
    (h : g.nodes.contains r.target = false) : ∃ q ∈ g.problems, q.absentee? = some r.target := by
  obtain ⟨e, he, rfl⟩ := List.mem_map.1 hn
  obtain ⟨q, hq, hid⟩ := exists_referenceProblem e.2.id h
  have hnode : q ∈ g.nodeProblems e.1 e.2 :=
    List.mem_append_left _ (List.mem_append_right _ (List.mem_flatMap.2 ⟨r, hr, hq⟩))
  exact ⟨q, mem_problems_of_node he hnode, hid⟩

/-- An edge that says the same as a reference has a node at its source. -/
theorem of_restatesReference {e : Edge} (h : g.restatesReference e) :
    ∃ n, g.node? e.source = some n ∧ ∃ r ∈ n.references, r.target = e.target := by
  unfold restatesReference at h
  split at h
  · next n hn =>
    obtain ⟨r, hr, htarget⟩ := List.any_eq_true.1 h
    exact ⟨n, hn, r, hr, beq_iff_eq.1 htarget⟩
  · cases h

theorem exists_problem_of_endpoint {e : Edge} (he : e ∈ g.edges) {node : Text} (hnode : node ∈ [e.source, e.target])
    (h : g.nodes.contains node = false) : ∃ q ∈ g.problems, q.absentee? = some node := by
  by_cases hskip : node = e.target ∧ g.restatesReference e
  · -- the edge is passed over, and the reference that it restates is not
    obtain ⟨rfl, hrestates⟩ := hskip
    obtain ⟨n, hn, r, hr, htarget⟩ := of_restatesReference hrestates
    rw [← htarget] at h ⊢
    exact exists_problem_of_reference (mem_nodes_of_node? hn) hr h
  · have hedge : .danglingEdge e.id node ∈ g.edgeProblems e := by
      refine List.mem_flatMap.2 ⟨node, hnode, ?_⟩
      rw [if_neg (by simpa using hskip)]
      exact mem_demand_iff.2 ⟨h, rfl⟩
    exact ⟨_, mem_problems_iff.2 (.inr (.inr (.inl ⟨e, he, hedge⟩))), rfl⟩

theorem exists_problem_of_absent {id : Text} (hid : id ∈ g.namedIds) (h : g.nodes.contains id = false) :
    ∃ q ∈ g.problems, q.absentee? = some id := by
  simp only [namedIds, List.mem_cons, List.mem_append, List.mem_map, List.mem_flatMap, or_assoc] at hid
  rcases hid with rfl | ⟨e, he, rfl⟩ | ⟨e, he, hid⟩ | ⟨n, hn, r, hr, rfl⟩
  · obtain ⟨q, hq, hid⟩ := exists_startProblem h
    exact ⟨q, mem_problems_iff.2 (.inl hq), hid⟩
  · obtain ⟨q, hq, hid⟩ := exists_endProblem h
    exact ⟨q, mem_problems_of_end he hq, hid⟩
  · exact exists_problem_of_endpoint he (by simpa using hid) h
  · exact exists_problem_of_reference hn hr h

/-- In a graph without problems every id that is named is that of a node. -/
theorem contains_of_problems_eq_nil (h : g.problems = []) {id : Text} (hid : id ∈ g.namedIds) :
    g.nodes.contains id := by
  cases hc : g.nodes.contains id with
  | true => rfl
  | false =>
    obtain ⟨q, hq, -⟩ := exists_problem_of_absent hid hc
    rw [h] at hq
    cases hq

/-! ## What is found is missing -/

theorem isJustified_of_isOfPayload (h : q.isOfPayload) : q.IsJustified g := by
  cases q <;> trivial

theorem isJustified_of_mem (hq : q ∈ g.problems) : q.IsJustified g := by
  rcases mem_problems_iff.1 hq with hq | ⟨e, he, hq⟩ | ⟨e, he, hq⟩ | ⟨e, he, hq⟩
  · rcases mem_startProblems hq with rfl | ⟨rfl, habsent⟩
    · trivial
    · exact ⟨rfl, habsent⟩
  · rcases mem_endProblems hq with rfl | ⟨rfl, habsent⟩
    · trivial
    · exact ⟨⟨e, he, rfl⟩, habsent⟩
  · obtain ⟨node, hnode, rfl, habsent⟩ := mem_edgeProblems hq
    exact ⟨⟨e, he, rfl, hnode⟩, habsent⟩
  · rcases mem_nodeProblems hq with rfl | rfl | ⟨r, hr, hq⟩ | hq
    · trivial
    · trivial
    · rcases mem_referenceProblems hq with ⟨rfl, -⟩ | ⟨rfl, habsent⟩
      · trivial
      · exact ⟨⟨e.2, List.mem_map_of_mem he, rfl, r, hr, rfl⟩, habsent⟩
    · exact isJustified_of_isOfPayload (isOfPayload_payloadProblems hq)

/-! ## Each broken reference is found once -/

theorem reference?_eq_none {qs : List Problem} (h : ∀ q ∈ qs, q.reference? = none) :
    qs.filterMap Problem.reference? = [] :=
  List.filterMap_eq_nil_iff.2 h

theorem reference?_of_isOfPayload (h : q.isOfPayload) : q.reference? = none := by
  cases q with
  | badName node role value => cases role <;> first | rfl | cases h
  | danglingReference source target => cases h
  | _ => rfl

theorem brokenReferences_of_referenceProblems (node : Text) (r : Reference) :
    (g.referenceProblems node r).filterMap Problem.reference? =
      if g.leadsToNode r then [] else [(node, r.target)] := by
  unfold referenceProblems leadsToNode
  cases Text.isNodeId r.target <;> cases g.nodes.contains r.target <;> rfl

theorem brokenReferences_of_nodeProblems (key : Text) (n : Node) :
    (g.nodeProblems key n).filterMap Problem.reference? =
      (n.references.filter (!g.leadsToNode ·)).map fun r => (n.id, r.target) := by
  have hkey : (demand (key == n.id) (.defect key (.wrongKey key n.id))).filterMap Problem.reference? = [] :=
    reference?_eq_none fun q hq => by rw [mem_demand hq]; rfl
  have hid : (demand (Text.isNodeId n.id) (.badName n.id .node n.id)).filterMap Problem.reference? = [] :=
    reference?_eq_none fun q hq => by rw [mem_demand hq]; rfl
  have hpayload : (payloadProblems n.id n.payload).filterMap Problem.reference? = [] :=
    reference?_eq_none fun q hq => reference?_of_isOfPayload (isOfPayload_payloadProblems hq)
  unfold nodeProblems
  rw [List.filterMap_append, List.filterMap_append, List.filterMap_append, hkey, hid, hpayload, List.nil_append,
    List.nil_append, List.append_nil]
  induction n.references with
  | nil => rfl
  | cons r rs ih =>
    rw [List.flatMap_cons, List.filterMap_append, ih, brokenReferences_of_referenceProblems]
    cases hr : g.leadsToNode r <;> simp [hr]

theorem brokenReferences_of_problems (g : Graph) : g.problems.filterMap Problem.reference? = g.brokenReferences := by
  have hstart : g.startProblems.filterMap Problem.reference? = [] := reference?_eq_none fun q hq => by
    rcases mem_startProblems hq with rfl | ⟨rfl, -⟩ <;> rfl
  have hends : (g.ends.flatMap g.endProblems).filterMap Problem.reference? = [] := reference?_eq_none fun q hq => by
    obtain ⟨e, -, hq⟩ := List.mem_flatMap.1 hq
    rcases mem_endProblems hq with rfl | ⟨rfl, -⟩ <;> rfl
  have hedges : (g.edges.flatMap g.edgeProblems).filterMap Problem.reference? = [] := reference?_eq_none fun q hq => by
    obtain ⟨e, -, hq⟩ := List.mem_flatMap.1 hq
    obtain ⟨node, -, rfl, -⟩ := mem_edgeProblems hq
    rfl
  unfold problems brokenReferences NodeTable.nodes
  rw [List.filterMap_append, List.filterMap_append, List.filterMap_append, hstart, hends, hedges, List.nil_append,
    List.nil_append, List.nil_append, List.filterMap_flatMap, List.flatMap_map]
  simp only [brokenReferences_of_nodeProblems]

/-! ## Derived edges -/

/-- Edges that are derived add nothing to what is found without edges. -/
theorem problems_withDerivedEdges (hkeys : ∀ e ∈ g.nodes.entries, e.1 = e.2.id) :
    g.withDerivedEdges.problems = ({ g with edges := [] } : Graph).problems := by
  have hedges : g.derivedEdges.flatMap g.edgeProblems = [] :=
    List.flatMap_eq_nil_iff.2 fun e he => edgeProblems_of_mem_derivedEdges hkeys he
  show g.startProblems ++ g.ends.flatMap g.endProblems ++ g.derivedEdges.flatMap g.edgeProblems ++ _ = _
  rw [hedges]
  rfl

/-! ## The check of a graph -/

/-- A check finds exactly the ids without a node. Wherever one is named, a problem tells of it; whatever a problem
finds missing is missing, and named where the problem says; and each reference that leads nowhere is found once.
Edges that are derived from nodes under their own ids change nothing about that. -/
theorem absentees_of_check (g : Graph) (schema : Option Schema) :
    (∀ id ∈ g.namedIds, g.nodes.contains id = false → ∃ q ∈ (g.check schema).problems, q.absentee? = some id) ∧
    ((g.check schema).problems = [] → ∀ id ∈ g.namedIds, g.nodes.contains id) ∧
    (∀ q ∈ (g.check schema).problems, q.IsJustified g) ∧
    (g.check schema).problems.filterMap Problem.reference? = g.brokenReferences ∧
    ((∀ e ∈ g.nodes.entries, e.1 = e.2.id) →
      (∀ edge node, .danglingEdge edge node ∉ (g.withDerivedEdges.check schema).problems) ∧
      (g.withDerivedEdges.check schema).problems = (({ g with edges := [] } : Graph).check schema).problems) := by
  refine ⟨fun id hid h => exists_problem_of_absent hid h, fun h id hid => contains_of_problems_eq_nil h hid,
    fun q hq => isJustified_of_mem hq, brokenReferences_of_problems g, fun hkeys => ?_⟩
  have hsame := problems_withDerivedEdges hkeys
  refine ⟨fun edge node hq => ?_, hsame⟩
  -- without edges there is none to which the problem could belong
  have hedgeless : .danglingEdge edge node ∈ ({ g with edges := [] } : Graph).problems := by
    rw [← hsame]
    exact hq
  obtain ⟨⟨e, he, -⟩, -⟩ := isJustified_of_mem hedgeless
  cases he

/-- A graph that starts and ends nowhere, with a jump to a missing node, a choice of what is no id, a choice that leads
back to its menu, and edges along and beside these references. -/
def tangled : Graph where
  id := "dialogue".toList
  title := []
  start := ['q']
  nodes := .ofList [
    (['a'], ⟨['a'], none, .speech ⟨"Bob".toList, "Hi".toList, some ['z'], []⟩⟩),
    (['b'], ⟨['b'], none, .menu ⟨[⟨['1'], "Again".toList, some ['b'], [], []⟩,
      ⟨['2'], "Go".toList, some "no where".toList, [], []⟩]⟩⟩)]
  edges := [.plain ['1'] ['a'] ['z'], .plain ['2'] ['b'] ['b'], .plain ['3'] ['y'] ['y']]
  ends := [.plain ['y']]

theorem absentees_of_check_tangled :
    (['y'] ∈ tangled.namedIds ∧ tangled.nodes.contains ['y'] = false ∧
      ∃ q ∈ (tangled.check none).problems, q.absentee? = some ['y']) ∧
    (∀ e ∈ tangled.nodes.entries, e.1 = e.2.id) ∧
    (tangled.check none).problems = [.missingStart ['q'], .missingEnd ['y'], .danglingEdge ['3'] ['y'],
      .danglingEdge ['3'] ['y'], .danglingReference ['a'] ['z'], .badName ['b'] .target "no where".toList] ∧
    (tangled.withDerivedEdges.check none).problems = [.missingStart ['q'], .missingEnd ['y'],
      .danglingReference ['a'] ['z'], .badName ['b'] .target "no where".toList] := by
  obtain ⟨hfound, -, -, -, hderived⟩ := absentees_of_check tangled none
  have hnamed : ['y'] ∈ tangled.namedIds := by decide
  have hkeys : ∀ e ∈ tangled.nodes.entries, e.1 = e.2.id := by decide
  have hedgeless : (({ tangled with edges := [] } : Graph).check none).problems = [.missingStart ['q'],
      .missingEnd ['y'], .danglingReference ['a'] ['z'], .badName ['b'] .target "no where".toList] := by rfl
  exact ⟨⟨hnamed, rfl, hfound ['y'] hnamed rfl⟩, hkeys, by rfl, (hderived hkeys).2.trans hedgeless⟩

end Graph
end DialogueScript
