import DialogueScript.Proofs.Node.Dispatch
import DialogueScript.Proofs.Script.Preamble
/-!
# What reading a script guarantees

Each part of the reader makes sure of a part of what a check demands: the outline of titles that are ids and
differ, the readers of blocks of what their payloads hold, the preamble of the ends. The edges are derived, so
none of them can dangle.

Results:
* `readGraph_eq_ok_iff`: which outlines have a graph, and which one.
* `read_eq`, `read_eq_ok_iff`: reading is the outline and then its `outcome`; when it succeeds.
* `sound_readGraph`: a graph that was read is sound, its keys are the titles of its blocks in order, and its edges
  are the derived ones.
* `Guaranteed`, `guaranteed_of_read`: what holds of every graph that was read, whatever the text and the settings.
-/
namespace DialogueScript.Script

/-! ## Nodes -/

theorem sound_readBlocks {strict : Bool} {bs : List Block} {ns : List Node} (hid : ∀ b ∈ bs, Text.isNodeId b.title)
    (hl : ∀ b ∈ bs, ∀ l ∈ b.body, '\n' ∉ l.text) (h : (readBlocks strict bs).result = .ok ns) :
    ns.map (·.id) = bs.map Block.title ∧ ∀ n ∈ ns, n.Sound := by
  induction bs generalizing ns with
  | nil => cases h; simp
  | cons b bs ih =>
    obtain ⟨n, hn, h⟩ := Reading.andThen_eq_ok h
    obtain ⟨ns', hns, h⟩ := Reading.andThen_eq_ok h
    cases h
    obtain ⟨hnid, hsound⟩ := Block.sound_node (hid b (by simp)) (hl b (by simp)) (Reading.mapError_eq_ok hn)
    obtain ⟨hids, hsounds⟩ := ih (fun c hc => hid c (by simp [hc])) (fun c hc => hl c (by simp [hc])) hns
    refine ⟨by rw [List.map_cons, hnid, hids, List.map_cons], ?_⟩
    intro m hm
    rcases List.mem_cons.1 hm with rfl | hm
    · exact hsound
    · exact hsounds m hm

theorem nodup_of_readBlocks {s : Text} {o : Outline} (ho : Outline.read s = .ok o) {strict : Bool} {ns : List Node}
    (h : (readBlocks strict o.blocks).result = .ok ns) : (ns.map (·.id)).Nodup := by
  obtain ⟨hdistinct, hid, hl⟩ := Outline.sound_read ho
  rw [(sound_readBlocks hid hl h).1]
  exact hdistinct

/-! ## Graphs -/

theorem entries_assemble {ns : List Node} (h : (ns.map (·.id)).Nodup) (p : Preamble) :
    (assemble p ns).nodes.entries = ns.map fun n => (n.id, n) := by
  have hd : ((ns.map fun n => (n.id, n)).map (·.1)).Nodup := by
    rw [List.map_map]
    exact h
  have hentries := NodeTable.entries_ofList hd
  unfold assemble
  cases p.graph <;> exact hentries

theorem nodes_assemble {ns : List Node} (h : (ns.map (·.id)).Nodup) (p : Preamble) :
    (assemble p ns).nodes.nodes = ns := by
  rw [NodeTable.nodes, entries_assemble h, List.map_map]
  exact List.map_id ns

theorem ends_assemble {ns : List Node} {p : Preamble} {e : End} (he : e ∈ (assemble p ns).ends) :
    e ∈ p.ends ∨ ∃ n ∈ (assemble p ns).nodes.nodes, e.node = n.id := by
  unfold assemble at he ⊢
  cases hg : p.graph with
  | some d => rw [hg] at he; exact .inl he
  | none =>
    rw [hg] at he
    rcases List.mem_append.1 he with he | he
    · obtain ⟨id, hid, rfl⟩ := List.mem_map.1 he
      obtain ⟨n, hn, rfl⟩ := List.mem_map.1 hid
      exact .inr ⟨n, (List.mem_filter.1 hn).1, rfl⟩
    · exact .inl he

theorem sound_assemble {ns : List Node} {p : Preamble} (hd : (ns.map (·.id)).Nodup) (hns : ∀ n ∈ ns, n.Sound)
    (hp : ∀ e ∈ p.ends, Text.isNodeId e.node) : (assemble p ns).Sound := by
  refine ⟨?_, ?_, ?_⟩
  · intro e he
    rw [entries_assemble hd] at he
    obtain ⟨n, -, rfl⟩ := List.mem_map.1 he
    rfl
  · intro n hn
    rw [nodes_assemble hd] at hn
    exact hns n hn
  · intro e he
    rcases ends_assemble he with he | ⟨n, hn, hid⟩
    · exact hp e he
    · rw [nodes_assemble hd] at hn
      rw [hid]
      exact (hns n hn).id

theorem readGraph_eq_ok_iff {strict : Bool} {o : Outline} {g : Graph} : (readGraph strict o).result = .ok g ↔
    ∃ p ns, (Preamble.read o.preamble).result = .ok p ∧ (readBlocks strict o.blocks).result = .ok ns ∧
      (assemble p ns).withDerivedEdges = g := by
  unfold readGraph
  simp only [Reading.andThen_eq_ok_iff, Reading.mapError_eq_ok_iff]
  constructor
  · rintro ⟨p, hp, ns, hns, hg⟩
    exact ⟨p, ns, hp, hns, Except.ok.inj hg⟩
  · rintro ⟨p, ns, hp, hns, rfl⟩
    exact ⟨p, hp, ns, hns, rfl⟩

theorem sound_readGraph {s : Text} {o : Outline} (ho : Outline.read s = .ok o) {strict : Bool} {g : Graph}
    (h : (readGraph strict o).result = .ok g) :
    g.Sound ∧ g.nodes.keys = o.blocks.map Block.title ∧ g.edges = g.derivedEdges := by
  obtain ⟨-, hid, hl⟩ := Outline.sound_read ho
  obtain ⟨p, ns, hp, hns, rfl⟩ := readGraph_eq_ok_iff.1 h
  obtain ⟨hids, hsounds⟩ := sound_readBlocks hid hl hns
  have hd := nodup_of_readBlocks ho hns
  obtain ⟨hkeys, hnodes, hends⟩ := sound_assemble hd hsounds (Preamble.ends_of_read hp)
  refine ⟨⟨hkeys, hnodes, hends⟩, ?_, rfl⟩
  show (assemble p ns).nodes.entries.map (·.1) = _
  rw [entries_assemble hd, List.map_map]
  exact hids

/-! ## Outcomes -/

/-- What reading makes of an outline. -/
def outcome (settings : Settings) (o : Outline) : Except Failure Outcome :=
  (readGraph settings.strictConditions o).result.bind fun g =>
    (if settings.strictReferences then refuseDangling o.blocks (g.check settings.flagSchema) else .ok ()).map fun _ =>
      ⟨g, (readGraph settings.strictConditions o).notices, g.check settings.flagSchema⟩

theorem read_eq (settings : Settings) (s : Text) :
    read settings s = ((Outline.read s).mapError .script).bind (outcome settings) := by
  unfold read
  cases (Outline.read s).mapError Failure.script with
  | error f => rfl
  | ok o =>
    show (readGraph settings.strictConditions o).result.bind _ = _
    unfold outcome
    congr 1
    funext g
    cases settings.strictReferences with
    | false => rfl
    | true =>
      show (refuseDangling o.blocks _).bind _ = _
      cases refuseDangling o.blocks (g.check settings.flagSchema) <;> rfl

theorem refuseDangling_eq_ok_iff (bs : List Block) (report : Check.Report) :
    refuseDangling bs report = .ok () ↔ report.dangling = [] := by
  unfold refuseDangling
  split <;> simp [*]

theorem refuse_strict_eq_ok_iff (strict : Bool) (bs : List Block) (report : Check.Report) :
    (if strict then refuseDangling bs report else .ok ()) = .ok () ↔ (strict = true → report.dangling = []) := by
  cases strict with
  | false => simp
  | true => simpa using refuseDangling_eq_ok_iff bs report

/-- Only the reports of outlines that are read strictly have to be without dangling references. -/
theorem outcome_eq_ok_iff {settings : Settings} {o : Outline} {out : Outcome} : outcome settings o = .ok out ↔
    readGraph settings.strictConditions o = ⟨out.notices, .ok out.graph⟩ ∧
      out.report = out.graph.check settings.flagSchema ∧
      (settings.strictReferences = true → out.report.dangling = []) := by
  obtain ⟨g', ns', report⟩ := out
  unfold outcome
  cases readGraph settings.strictConditions o with
  | mk ns result =>
    cases result with
    | error f =>
      constructor
      · rintro ⟨⟩
      · rintro ⟨⟨⟩, -⟩
    | ok g =>
      have hrefuse := refuse_strict_eq_ok_iff settings.strictReferences o.blocks (g.check settings.flagSchema)
      show Except.map _ (if settings.strictReferences then _ else _) = _ ↔ _
      generalize (if settings.strictReferences then _ else _) = refusal at hrefuse ⊢
      constructor
      · intro h
        obtain ⟨u, hu, hout⟩ := except_map_eq_ok h
        cases hout
        exact ⟨rfl, rfl, hrefuse.1 hu⟩
      · rintro ⟨⟨⟩, hreport, hdangling⟩
        dsimp only at hreport hdangling hrefuse ⊢
        subst hreport
        rw [hrefuse.2 hdangling]
        rfl

/-- A script is read exactly when it has an outline and a graph in which nothing dangles that must not. -/
theorem read_eq_ok_iff {settings : Settings} {s : Text} {out : Outcome} : read settings s = .ok out ↔
    ∃ o, Outline.read s = .ok o ∧ readGraph settings.strictConditions o = ⟨out.notices, .ok out.graph⟩ ∧
      out.report = out.graph.check settings.flagSchema ∧
      (settings.strictReferences = true → out.report.dangling = []) := by
  rw [read_eq]
  cases ho : Outline.read s with
  | error f =>
    constructor
    · rintro ⟨⟩
    · rintro ⟨o, ⟨⟩, -⟩
  | ok o =>
    constructor
    · exact fun h => ⟨o, rfl, outcome_eq_ok_iff.1 h⟩
    · rintro ⟨o', ⟨⟩, h⟩
      exact outcome_eq_ok_iff.2 h

/-- A script that is read has an outline and a graph, and its report is that of a check. -/
theorem read_eq_ok {settings : Settings} {s : Text} {out : Outcome} (h : read settings s = .ok out) :
    ∃ o, Outline.read s = .ok o ∧ (readGraph settings.strictConditions o).result = .ok out.graph ∧
      out.report = out.graph.check settings.flagSchema := by
  obtain ⟨o, ho, hg, hreport, -⟩ := read_eq_ok_iff.1 h
  exact ⟨o, ho, by rw [hg], hreport⟩

/-! ## Guarantees -/

/-- What reading a text makes sure of. -/
structure Guaranteed (s : Text) (g : Graph) : Prop where
  /-- The keys are the titles of the blocks, which stand in the order of the text. -/
  keys : ∃ o, Outline.read s = .ok o ∧ g.nodes.keys = o.blocks.map Block.title ∧
    (o.blocks.map fun b => (b.titleLine, b.title)).Sublist
      ((Outline.numbered 1 (Text.lines s)).filterMap Outline.title?)
  ids : ∀ e ∈ g.nodes.entries, e.1 = e.2.id ∧ Text.isNodeId e.2.id
  edges : g.edges = g.derivedEdges
  problems : ∀ schema, ∀ q ∈ (g.check schema).problems, q.isPrevented = false
  /-- Only a call of a storylet can name something that is no id. -/
  targets : ∀ schema node value, .badName node .target value ∈ (g.check schema).problems →
    ∃ n, g.node? node = some n ∧ n.payload.kind = .storylet
  finite : g.isFinite

theorem guaranteed_of_read {settings : Settings} {s : Text} {out : Outcome} (h : read settings s = .ok out) :
    Guaranteed s out.graph := by
  obtain ⟨o, ho, hg, -⟩ := read_eq_ok h
  obtain ⟨hsound, hkeys, hedges⟩ := sound_readGraph ho hg
  refine ⟨⟨o, ho, hkeys, Outline.titles_sublist ho⟩, fun e he => ⟨hsound.keys e he, ?_⟩, hedges, fun schema q hq => ?_,
    fun schema node value hq => ?_, Graph.isFinite_of_sound hsound⟩
  · exact (hsound.nodes e.2 (List.mem_map_of_mem he)).id
  · exact Graph.not_prevented_problems hsound hedges hq
  · exact Graph.storylet_of_badTarget hsound hq

/-- A script without a preamble, with a comment and a jump to a node that is not there. -/
def jumpScript : Text := "title: a\r\n---\r\n// greets\r\nBob: Hi\r\n<<jump b>>\r\n===\r\n".toList

/-- The graph of that script, with an edge along the jump. -/
def jumpGraph : Graph where
  id := "dialogue".toList
  title := []
  start := ['a']
  nodes := .ofList [(['a'], ⟨['a'], none, .speech ⟨"Bob".toList, "Hi".toList, some ['b'], []⟩⟩)]
  edges := [⟨"e-a-next-b".toList, ['a'], ['b'], .next, none, none⟩]
  ends := []

theorem read_jumpScript : read .standard jumpScript = .ok ⟨jumpGraph, [], jumpGraph.check none⟩ := by rfl

theorem guaranteed_of_read_jump : read .standard jumpScript = .ok ⟨jumpGraph, [], jumpGraph.check none⟩ ∧
    Guaranteed jumpScript jumpGraph :=
  ⟨read_jumpScript, guaranteed_of_read read_jumpScript⟩

end DialogueScript.Script
