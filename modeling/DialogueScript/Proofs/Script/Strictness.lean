import DialogueScript.Proofs.Node.Strictness
import DialogueScript.Proofs.Script.Read
/-!
# Strict and lenient reading of scripts

Two settings make reading strict: one about conditions, one about references. Each only turns outcomes of lenient
reading into failures, and what is left to read gives the same outcome either way.

The check of references looks for those that dangle, and only a reference to an id can dangle. The target of a jump
is made sure to be an id while its block is read; the node that a storylet comes back to is not, so a storylet can
come back to no node even in a script that was read strictly.

Results:
* `tightens_readGraph`: the two readings of an outline under the two settings of conditions.
* `read_strict_iff`: what strict readings give, in terms of the lenient ones.
* `closed_of_strict`: which references lead to a node in a graph that was read with strict references.
-/
namespace DialogueScript.Script
open Reading

/-! ## Strict conditions -/

theorem Preamble.isWhole_step (p : Preamble) (entry : Nat × Directive) : (p.step entry).IsWhole := by
  unfold step
  dsimp only
  split
  · split
    · exact isWhole_fail _
    · exact isWhole_ok _
  · split
    · split
      · exact isWhole_ok _
      · exact isWhole_fail _
    · simp [IsWhole, Notice.isDropped]

theorem Preamble.isWhole_read (entries : List (Nat × Directive)) : (read entries).IsWhole :=
  isWhole_foldlM Preamble.isWhole_step entries .empty

theorem tightens_readBlocks (bs : List Block) : Tightens (readBlocks true bs) (readBlocks false bs) := by
  induction bs with
  | nil => exact tightens_refl (isWhole_ok _)
  | cons b bs ih =>
    exact (b.tightens_node.mapError _).andThen fun _ => ih.andThen fun _ => tightens_refl (isWhole_ok _)

theorem tightens_readGraph (o : Outline) : Tightens (readGraph true o) (readGraph false o) := by
  have hpreamble : ((Preamble.read o.preamble).mapError Failure.script).IsWhole :=
    isWhole_mapError.2 (Preamble.isWhole_read o.preamble)
  exact (tightens_refl hpreamble).andThen fun _ =>
    (tightens_readBlocks o.blocks).andThen fun _ => tightens_refl (isWhole_ok _)

/-- A script that is read with strict conditions is one that is read leniently without dropping a clause. -/
theorem read_strictConditions_iff {settings : Settings} {s : Text} {out : Outcome} :
    read { settings with strictConditions := true } s = .ok out ↔
      read { settings with strictConditions := false } s = .ok out ∧
        ∀ node line clause, .droppedCondition node line clause ∉ out.notices := by
  have hwhole : (∀ node line clause, .droppedCondition node line clause ∉ out.notices) ↔
      ∀ n ∈ out.notices, n.isDropped = false := by
    constructor
    · intro h n hn
      cases n with
      | droppedCondition node line clause => exact absurd hn (h node line clause)
      | ignoredHeader node key => rfl
      | ignoredDirective line name => rfl
    · intro h node line clause hn
      cases h _ hn
  rw [read_eq_ok_iff, read_eq_ok_iff, hwhole]
  constructor
  · rintro ⟨o, ho, hg, hreport⟩
    obtain ⟨hlenient, hnotices⟩ := (tightens_readGraph o).eq_ok_iff.1 hg
    rw [hlenient] at hnotices
    exact ⟨⟨o, ho, hlenient, hreport⟩, hnotices⟩
  · rintro ⟨⟨o, ho, hlenient, hreport⟩, hnotices⟩
    exact ⟨o, ho, (tightens_readGraph o).eq_ok_iff.2 ⟨hlenient, by rw [hlenient]; exact hnotices⟩, hreport⟩

/-- A script that is read with strict references is one that is read leniently without a dangling reference. -/
theorem read_strictReferences_iff {settings : Settings} {s : Text} {out : Outcome} :
    read { settings with strictReferences := true } s = .ok out ↔
      read { settings with strictReferences := false } s = .ok out ∧ out.report.dangling = [] := by
  rw [read_eq_ok_iff, read_eq_ok_iff]
  constructor
  · rintro ⟨o, ho, hg, hreport, hdangling⟩
    exact ⟨⟨o, ho, hg, hreport, by simp⟩, hdangling rfl⟩
  · rintro ⟨⟨o, ho, hg, hreport, -⟩, hdangling⟩
    exact ⟨o, ho, hg, hreport, fun _ => hdangling⟩

/-- The strict forms of reading refine the lenient ones: of conditions, of scripts with respect to their conditions,
and of scripts with respect to their references. -/
theorem read_strict_iff :
    (∀ t, (∀ cs ds, Condition.read true t = .ok (cs, ds) ↔ Condition.read false t = .ok (cs, []) ∧ ds = []) ∧
      ∀ u, Condition.read true t = .error u ↔ ∃ cs ds, Condition.read false t = .ok (cs, u.clause :: ds)) ∧
    ∀ (settings : Settings) (s : Text) (out : Outcome),
      (read { settings with strictConditions := true } s = .ok out ↔
        read { settings with strictConditions := false } s = .ok out ∧
          ∀ node line clause, .droppedCondition node line clause ∉ out.notices) ∧
      (read { settings with strictReferences := true } s = .ok out ↔
        read { settings with strictReferences := false } s = .ok out ∧ out.report.dangling = []) :=
  ⟨fun _ => ⟨fun _ _ => Condition.read_strict_eq_ok_iff, fun _ => Condition.read_strict_eq_error_iff⟩,
    fun _ _ _ => ⟨read_strictConditions_iff, read_strictReferences_iff⟩⟩

/-! ## Strict references -/

theorem contains_of_dangling {g : Graph} {schema : Option Check.Schema} (h : (g.check schema).dangling = [])
    {e : Text × Node} (he : e ∈ g.nodes.entries) {r : Reference} (hr : r ∈ e.2.references)
    (hid : Text.isNodeId r.target) : g.nodes.contains r.target := by
  cases hc : g.nodes.contains r.target with
  | true => rfl
  | false =>
    have hmem : Check.Problem.danglingReference e.2.id r.target ∈ g.nodeProblems e.1 e.2 := by
      refine List.mem_append_left _ (List.mem_append_right _ (List.mem_flatMap.2 ⟨r, hr, ?_⟩))
      simp [Graph.referenceProblems, hid, hc, Check.demand]
    have : (e.2.id, r.target) ∈ (g.check schema).dangling :=
      List.mem_filterMap.2 ⟨_, Graph.mem_problems_of_node he hmem, rfl⟩
    rw [h] at this
    cases this

theorem isNodeId_of_contains {g : Graph} (h : g.Sound) {key : Text} (hc : g.nodes.contains key) :
    Text.isNodeId key := by
  obtain ⟨e, he, rfl⟩ := List.mem_map.1 (List.contains_iff_mem.1 hc)
  rw [h.keys e he]
  exact (h.nodes e.2 (List.mem_map_of_mem he)).id

/-- In a graph that was read with strict references, those that name an id lead to a node, and these are all but
such as only storylets have. The same goes for the edges. -/
theorem closed_of_strict {settings : Settings} {s : Text} {out : Outcome} (hstrict : settings.strictReferences = true)
    (h : read settings s = .ok out) :
    (∀ n ∈ out.graph.nodes.nodes, ∀ r ∈ n.references,
      (out.graph.nodes.contains r.target ↔ Text.isNodeId r.target) ∧
      (n.payload.kind ≠ .storylet → out.graph.nodes.contains r.target)) ∧
    ∀ e ∈ out.graph.edges, out.graph.nodes.contains e.target ↔ Text.isNodeId e.target := by
  obtain ⟨o, ho, hg, hreport, hdangling⟩ := read_eq_ok_iff.1 h
  obtain ⟨hsound, -, hedges⟩ := sound_readGraph ho (congrArg Reading.result hg)
  have hnone : (out.graph.check settings.flagSchema).dangling = [] := hreport ▸ hdangling hstrict
  have hclosed : ∀ n ∈ out.graph.nodes.nodes, ∀ r ∈ n.references,
      out.graph.nodes.contains r.target ↔ Text.isNodeId r.target := by
    intro n hn r hr
    exact ⟨isNodeId_of_contains hsound, contains_of_dangling hnone (Graph.mem_entries_of_mem_nodes hsound.keys hn) hr⟩
  refine ⟨fun n hn r hr => ⟨hclosed n hn r hr, fun hk => ?_⟩, fun e he => ?_⟩
  · exact (hclosed n hn r hr).2 (Payload.isNodeId_of_mem_references (hsound.nodes n hn).payload hk r hr)
  · rw [hedges] at he
    obtain ⟨n, hn, he⟩ := List.mem_flatMap.1 he
    obtain ⟨r, hr, rfl⟩ := List.mem_map.1 he
    exact hclosed n hn r hr

/-- The settings under which references have to lead to nodes. -/
def strictReferences : Settings := { Settings.standard with strictReferences := true }

/-- A script of one storylet that comes back to `target`. -/
def returnScript (target : String) : Text :=
  ("title: a\n---\n// @storylet template=x return_node=\"" ++ target ++ "\"\n===\n").toList

def returnGraph (target : Text) : Graph where
  id := "dialogue".toList
  title := []
  start := ['a']
  nodes := .ofList [(['a'], ⟨['a'], none, .storylet ⟨['x'], .start, none, .node, some target, .empty⟩⟩)]
  edges := [⟨"e-a-return-".toList ++ target, ['a'], target, .comeBack, none, none⟩]
  ends := []

theorem closed_of_strict_itself : strictReferences.strictReferences = true ∧
    read strictReferences (returnScript "a") = .ok ⟨returnGraph ['a'], [], (returnGraph ['a']).check none⟩ ∧
    (∀ n ∈ (returnGraph ['a']).nodes.nodes, ∀ r ∈ n.references,
      ((returnGraph ['a']).nodes.contains r.target ↔ Text.isNodeId r.target) ∧
      (n.payload.kind ≠ .storylet → (returnGraph ['a']).nodes.contains r.target)) ∧
    ∀ e ∈ (returnGraph ['a']).edges, (returnGraph ['a']).nodes.contains e.target ↔ Text.isNodeId e.target := by
  have hread : read strictReferences (returnScript "a") =
      .ok ⟨returnGraph ['a'], [], (returnGraph ['a']).check none⟩ := by with_unfolding_all rfl
  exact ⟨rfl, hread, closed_of_strict rfl hread⟩

/-- A storylet that comes back to something that is no id is read even with strict references. -/
theorem not_closed_noWhere : ¬ ∀ (settings : Settings) (s : Text) (out : Outcome),
    settings.strictReferences = true → read settings s = .ok out →
      ∀ n ∈ out.graph.nodes.nodes, ∀ r ∈ n.references, out.graph.nodes.contains r.target := by
  intro h
  let g := returnGraph "no where".toList
  have hread : read strictReferences (returnScript "no where") = .ok ⟨g, [], g.check none⟩ := by
    with_unfolding_all rfl
  have hn : g.nodes.nodes.all fun n => n.references.all fun r => g.nodes.contains r.target := by
    simpa only [List.all_eq_true] using h strictReferences _ _ rfl hread
  exact absurd hn (by decide)

end DialogueScript.Script
