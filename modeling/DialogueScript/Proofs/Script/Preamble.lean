import DialogueScript.Proofs.Check.Graph
import DialogueScript.Proofs.Script.Outline
import DialogueScript.Script.Write
/-!
# Preambles

A written preamble is one directive for the graph and one for each end, in order. Reading takes them one by one:
the directive of the graph is kept as it is, and each end is found in its own directive.

Results:
* `Preamble.read_written`: the directives of a written preamble say what they were written for.
* `Preamble.read_eq_ok_iff`: which directives are read, and what for.
* `Preamble.ends_of_read`: the ends of any preamble are ids.
-/
namespace DialogueScript.Script

/-! ## Written directives -/

theorem isWritable_graphDirective (g : Graph) : (graphDirective g).isWritable := by
  have hname : Text.isAttributeKey graphName := by decide
  have hkeys : Text.isAttributeKey "id".toList ∧ Text.isAttributeKey "title".toList ∧
      Text.isAttributeKey "start".toList := by decide
  refine Directive.isWritable_iff.2 ⟨hname, ?_⟩
  intro a ha
  simp only [graphDirective, List.mem_cons, List.not_mem_nil, or_false] at ha
  rcases ha with rfl | rfl | rfl
  · exact hkeys.1
  · exact hkeys.2.1
  · exact hkeys.2.2

theorem isWritable_endDirective (e : End) : (endDirective e).isWritable := by
  have hname : Text.isAttributeKey endName := by decide
  have hkeys : Text.isAttributeKey "node".toList ∧ Text.isAttributeKey "exit".toList := by decide
  refine Directive.isWritable_iff.2 ⟨?_, ?_⟩
  · unfold endDirective
    cases e.exitKey <;> exact hname
  · intro a ha
    unfold endDirective at ha
    cases hx : e.exitKey with
    | none =>
      rw [hx] at ha
      rw [List.mem_singleton.1 ha]
      exact hkeys.1
    | some key =>
      rw [hx] at ha
      simp only [Directive.withOptional, List.cons_append, List.nil_append, List.mem_cons, List.not_mem_nil,
        or_false] at ha
      rcases ha with rfl | rfl
      · exact hkeys.1
      · exact hkeys.2

theorem isWritable_preamble (g : Graph) : ∀ d ∈ preamble g, d.isWritable := by
  intro d hd
  rcases List.mem_cons.1 hd with rfl | hd
  · exact isWritable_graphDirective g
  · obtain ⟨e, -, rfl⟩ := List.mem_map.1 hd
    exact isWritable_endDirective e

/-- An end is found in its own directive. -/
theorem endOf?_endDirective {e : End} (h : Text.isNodeId e.node) : endOf? (endDirective e) = some e := by
  obtain ⟨node, exitKey⟩ := e
  have hnode : (endDirective ⟨node, exitKey⟩).get? "node".toList = some node := by
    cases exitKey <;> simp [endDirective, Directive.withOptional, Directive.get?]
  have hexit : (endDirective ⟨node, exitKey⟩).get? "exit".toList = exitKey := by
    cases exitKey <;> simp [endDirective, Directive.withOptional, Directive.get?]
  unfold endOf?
  rw [hnode, hexit, Option.filter_some, if_pos h]
  rfl

/-! ## Reading -/

namespace Preamble

theorem step_graph {d : Directive} (hd : d.name = graphName) (ends : List End) (n : Nat) :
    step ⟨none, ends⟩ (n, d) = .ok ⟨some d, ends⟩ := by
  simp [step, hd]

theorem step_end {d : Directive} (hd : d.name = endName) {e : End} (he : endOf? d = some e) (p : Preamble) (n : Nat) :
    p.step (n, d) = .ok { p with ends := p.ends ++ [e] } := by
  have hne : endName ≠ graphName := by decide
  simp [step, hd, hne, he]

theorem name_endDirective (e : End) : (endDirective e).name = endName := by
  unfold endDirective
  cases e.exitKey <;> rfl

theorem read_ends {ends : List End} (h : ∀ e ∈ ends, Text.isNodeId e.node) (p : Preamble)
    {entries : List (Nat × Directive)} (hentries : entries.map (·.2) = ends.map endDirective) :
    entries.foldlM step p = .ok { p with ends := p.ends ++ ends } := by
  induction ends generalizing p entries with
  | nil =>
    obtain rfl := List.map_eq_nil_iff.1 hentries
    rw [List.append_nil]
    rfl
  | cons e ends ih =>
    obtain ⟨⟨n, d⟩, entries', rfl, rfl, hrest⟩ := List.map_eq_cons_iff.1 hentries
    have hstep := step_end (name_endDirective e) (endOf?_endDirective (h e (by simp))) p n
    have := ih (fun f hf => h f (by simp [hf])) { p with ends := p.ends ++ [e] } hrest
    rw [List.append_assoc] at this
    rw [List.foldlM_cons, hstep]
    exact (Reading.ok_andThen _ _).trans this

theorem read_written {g : Graph} (h : ∀ e ∈ g.ends, Text.isNodeId e.node) {entries : List (Nat × Directive)}
    (hentries : entries.map (·.2) = preamble g) : read entries = .ok ⟨some (graphDirective g), g.ends⟩ := by
  obtain ⟨⟨n, d⟩, entries', rfl, rfl, hrest⟩ := List.map_eq_cons_iff.1 hentries
  unfold read
  rw [List.foldlM_cons, empty, step_graph rfl]
  exact (Reading.ok_andThen _ _).trans (read_ends h _ hrest)

theorem isNodeId_of_endOf? {d : Directive} {e : End} (h : endOf? d = some e) : Text.isNodeId e.node := by
  obtain ⟨node, hnode, rfl⟩ := Option.map_eq_some_iff.1 h
  exact (Option.filter_eq_some_iff.1 hnode).2

theorem step_secondGraph {d : Directive} (hd : d.name = graphName) (first : Directive) (ends : List End) (n : Nat) :
    step ⟨some first, ends⟩ (n, d) = .fail ⟨n, .secondGraph⟩ := by
  simp [step, hd]

theorem step_endWithoutNode {d : Directive} (hd : d.name = endName) (he : endOf? d = none) (p : Preamble) (n : Nat) :
    p.step (n, d) = .fail ⟨n, .endWithoutNode⟩ := by
  have hne : endName ≠ graphName := by decide
  simp [step, hd, hne, he]

theorem step_other {d : Directive} (hgraph : d.name ≠ graphName) (hend : d.name ≠ endName) (p : Preamble) (n : Nat) :
    p.step (n, d) = ⟨[.ignoredDirective n d.name], .ok p⟩ := by
  simp [step, hgraph, hend]

end Preamble

/-! ## What directives say -/

def graphs (ds : List Directive) : List Directive := ds.filter (·.name == graphName)

/-- The ends that directives mark; there is none for a directive that has to mark an end and does not. -/
def marked (ds : List Directive) : List (Option End) := (ds.filter (·.name == endName)).map endOf?

theorem graphs_cons (d : Directive) (ds : List Directive) :
    graphs (d :: ds) = if d.name = graphName then d :: graphs ds else graphs ds := by
  simp [graphs, List.filter_cons]

theorem graphs_append (ds es : List Directive) : graphs (ds ++ es) = graphs ds ++ graphs es := List.filter_append _ _

theorem any_eq_graphs (ds : List Directive) : ds.any (·.name == graphName) = !(graphs ds).isEmpty := by
  rw [Bool.eq_iff_iff]
  simp [graphs]

theorem marked_cons (d : Directive) (ds : List Directive) :
    marked (d :: ds) = if d.name = endName then endOf? d :: marked ds else marked ds := by
  unfold marked
  by_cases h : d.name = endName <;> simp [h]

theorem marked_append (ds es : List Directive) : marked (ds ++ es) = marked ds ++ marked es := by simp [marked]

namespace Preamble

theorem foldlM_step_eq_ok_iff {entries : List (Nat × Directive)} {p q : Preamble} :
    (entries.foldlM step p).result = .ok q ↔
      p.graph.toList ++ graphs (entries.map (·.2)) = q.graph.toList ∧
        p.ends.map some ++ marked (entries.map (·.2)) = q.ends.map some := by
  induction entries generalizing p with
  | nil =>
    obtain ⟨graph, ends⟩ := p
    obtain ⟨graph', ends'⟩ := q
    have hgraph : graph.toList = graph'.toList ↔ graph = graph' := by
      cases graph <;> cases graph' <;> simp
    have hends : ends.map some = ends'.map some ↔ ends = ends' := List.map_inj_right fun _ _ => Option.some.inj
    show Except.ok _ = Except.ok _ ↔ _ ++ [] = _ ∧ _ ++ [] = _
    rw [List.append_nil, List.append_nil, hgraph, hends, Except.ok.injEq, mk.injEq]
  | cons entry entries ih =>
    obtain ⟨n, d⟩ := entry
    have hne : endName ≠ graphName := by decide
    rw [List.foldlM_cons, List.map_cons, graphs_cons, marked_cons]
    show ((step p (n, d)).andThen fun p' => entries.foldlM step p').result = _ ↔ _
    by_cases hgraph : d.name = graphName
    · obtain ⟨_ | first, ends⟩ := p
      · rw [step_graph hgraph, Reading.ok_andThen, ih, if_pos hgraph, if_neg (hgraph ▸ hne.symm)]
        rfl
      · rw [step_secondGraph hgraph, if_pos hgraph]
        refine iff_of_false nofun fun h => ?_
        cases hq : q.graph <;> simp [hq] at h
    · by_cases hend : d.name = endName
      · rw [if_neg hgraph, if_pos hend]
        cases he : endOf? d with
        | some e =>
          rw [step_end hend he, Reading.ok_andThen, ih]
          simp
        | none =>
          rw [step_endWithoutNode hend he]
          refine iff_of_false nofun fun h => ?_
          have hmem : none ∈ q.ends.map some := by
            rw [← h.2]
            simp
          simp at hmem
      · rw [step_other hgraph hend, if_neg hgraph, if_neg hend]
        exact ih

/-- A preamble is read when at most one directive describes the graph and every end has a node. -/
theorem read_eq_ok_iff {entries : List (Nat × Directive)} {p : Preamble} : (read entries).result = .ok p ↔
    graphs (entries.map (·.2)) = p.graph.toList ∧ marked (entries.map (·.2)) = p.ends.map some :=
  foldlM_step_eq_ok_iff

theorem ends_of_read {entries : List (Nat × Directive)} {p : Preamble} (h : (read entries).result = .ok p) :
    ∀ e ∈ p.ends, Text.isNodeId e.node := by
  intro e he
  have hmarked : some e ∈ marked (entries.map (·.2)) := by
    rw [(read_eq_ok_iff.1 h).2]
    exact List.mem_map_of_mem he
  obtain ⟨d, -, hd⟩ := List.mem_map.1 hmarked
  exact isNodeId_of_endOf? hd

end Preamble
end DialogueScript.Script
