import DialogueScript.Proofs.Script.Read
/-!
# Scripts are read back as the graphs they were written from

A sound graph is written line by line: banner, preamble, blocks. Reading finds the same preamble and blocks with the
same contents, the blocks are read as the nodes, and the preamble gives the rest. What a script does not hold is
lost: edges are derived again, and positions are there if they were written.

Results:
* `write_of_sound`: what is written of a sound graph.
* `outline_text`: the outline of a written script.
* `read_text`: the graph that a written script is read back as.
* `read_write`: every graph that may be written is read back, and written again as the same script.
* `write_read`: a script that was read is written as one that is read as the same graph, and that is written as
  itself.
-/
namespace DialogueScript

/-- The table with positions, or without any. -/
def NodeTable.placed (withPositions : Bool) (t : NodeTable) : NodeTable where
  entries := t.entries.map fun (key, n) => (key, n.placed withPositions)
  distinct := by simpa [List.map_map, Function.comp_def] using t.distinct

/-- What a script keeps of a graph: all but its own edges, and the positions only if they are written. -/
def Graph.kept (withPositions : Bool) (g : Graph) : Graph :=
  { g with nodes := g.nodes.placed withPositions, edges := g.derivedEdges }

namespace Graph

variable {g : Graph}

theorem keys_kept (w : Bool) : (g.kept w).nodes.keys = g.nodes.keys := by
  simp [kept, NodeTable.placed, NodeTable.keys]

theorem nodes_kept (w : Bool) : (g.kept w).nodes.nodes = g.nodes.nodes.map (Node.placed w) := by
  simp [kept, NodeTable.placed, NodeTable.nodes]

theorem derivedEdges_kept (w : Bool) : (g.kept w).derivedEdges = g.derivedEdges := by
  unfold derivedEdges
  rw [nodes_kept, List.flatMap_map]
  rfl

/-- A graph with derived edges is kept whole when positions are written. -/
theorem kept_true (h : g.edges = g.derivedEdges) : g.kept true = g := by
  have hnodes : g.nodes.placed true = g.nodes := NodeTable.ext (List.map_id g.nodes.entries)
  unfold kept
  rw [hnodes, ← h]

theorem contains_kept (w : Bool) (key : Text) : (g.kept w).nodes.contains key = g.nodes.contains key := by
  unfold NodeTable.contains
  rw [keys_kept]

/-! ## A kept graph may be written -/

theorem sound_kept (h : g.Sound) (w : Bool) : (g.kept w).Sound := by
  refine ⟨?_, ?_, h.ends⟩
  · intro e he
    obtain ⟨f, hf, rfl⟩ := List.mem_map.1 he
    exact h.keys f hf
  · intro n hn
    rw [nodes_kept] at hn
    obtain ⟨m, hm, rfl⟩ := List.mem_map.1 hn
    have hsound := h.nodes m hm
    refine ⟨hsound.id, hsound.payload, ?_⟩
    intro p hp
    unfold Node.placed at hp
    cases w with
    | true => exact hsound.position p hp
    | false => cases hp

theorem structural_kept (schema : Option Check.Schema) (w : Bool) :
    ((g.kept w).check schema).structural = (g.check schema).structural := by
  have hstart : (g.kept w).startProblems = g.startProblems := by
    unfold startProblems
    rw [contains_kept]
    rfl
  have hends : (g.kept w).endProblems = g.endProblems := by
    funext e
    unfold endProblems
    rw [contains_kept]
  have href : (g.kept w).referenceProblems = g.referenceProblems := by
    funext node r
    unfold referenceProblems
    rw [contains_kept]
  have hnodes : ((g.kept w).nodes.entries.flatMap fun (key, n) => (g.kept w).nodeProblems key n) =
      g.nodes.entries.flatMap fun (key, n) => g.nodeProblems key n := by
    show ((g.nodes.entries.map _).flatMap _) = _
    rw [List.flatMap_map]
    unfold nodeProblems
    rw [href]
    rfl
  -- edges are not the same, but structural problems are none of edges
  rw [structural_eq, structural_eq, hstart, hends, hnodes]
  rfl

end Graph

namespace Script

/-! ## What is written -/

def drafts (withPositions : Bool) (g : Graph) : List Layout.BlockDraft := g.nodes.nodes.map (Node.draft withPositions)

def text (settings : Settings) (g : Graph) : Text :=
  (lines settings g (drafts settings.emitPositions g)).flatMap (· ++ ['\n'])

variable {g : Graph}

theorem blocks_of_speakers {ns : List Node} (h : ∀ n ∈ ns, ∀ w ∈ n.payload.speakers, Text.isSpeaker w) (w : Bool) :
    blocks w ns = .ok (ns.map (Node.draft w)) := by
  induction ns with
  | nil => rfl
  | cons n ns ih =>
    rw [blocks, Node.block_of_speakers (h n (by simp)), ih fun m hm => h m (by simp [hm])]
    rfl

theorem write_of_speakers {settings : Settings} (hs : (g.check settings.flagSchema).structural = [])
    (h : ∀ n ∈ g.nodes.nodes, ∀ w ∈ n.payload.speakers, Text.isSpeaker w) :
    write settings g = .ok (text settings g) := by
  unfold write
  rw [hs, blocks_of_speakers h]
  rfl

theorem write_of_sound (h : g.Sound) {settings : Settings} (hs : (g.check settings.flagSchema).structural = []) :
    write settings g = .ok (text settings g) :=
  write_of_speakers hs fun n hn => Node.speakers_of_sound (h.nodes n hn).payload

/-- What a script keeps of a graph is written as the same script. -/
theorem text_kept (settings : Settings) (g : Graph) :
    text settings (g.kept settings.emitPositions) = text settings g := by
  have hdraft : ∀ n : Node, (n.placed settings.emitPositions).draft settings.emitPositions =
      n.draft settings.emitPositions := by
    intro n
    -- either positions are kept, or both writings leave them out
    cases hw : settings.emitPositions <;> rfl
  unfold text drafts
  rw [Graph.nodes_kept, List.map_map]
  simp only [Function.comp_def, hdraft]
  rfl

/-! ## The outline of what is written -/

theorem titles_drafts (h : g.Sound) (w : Bool) : (drafts w g).map (·.title) = g.nodes.keys := by
  unfold drafts NodeTable.nodes NodeTable.keys
  rw [List.map_map, List.map_map]
  exact List.map_congr_left fun e he => (h.keys e he).symm

theorem writable_drafts (h : g.Sound) (w : Bool) : ∀ d ∈ drafts w g, d.Writable := by
  intro d hd
  obtain ⟨n, hn, rfl⟩ := List.mem_map.1 hd
  exact Node.writable_draft (h.nodes n hn) w

theorem banner_eq : ∀ l ∈ banner, Outline.isMereComment l ∧ '\n' ∉ l := by
  decide

theorem newline_not_mem_lines (h : g.Sound) (settings : Settings) :
    ∀ l ∈ lines settings g (drafts settings.emitPositions g), '\n' ∉ l := by
  intro l hl
  simp only [lines, topLines, List.mem_append, List.mem_map, List.mem_flatMap, List.mem_cons] at hl
  rcases hl with (hl | ⟨d, hd, rfl⟩) | ⟨d, hd, rfl | hl⟩
  · split at hl
    · exact (banner_eq l hl).2
    · cases hl
  · exact Directive.newline_not_mem_line (isWritable_preamble g d hd)
  · simp
  · exact Outline.newline_not_mem_lines (writable_drafts h _ d hd) l hl

/-- The outline of what is written: the preamble, and blocks with the contents of those that were written. -/
theorem outline_text (h : g.Sound) (settings : Settings) :
    ∃ o, Outline.read (text settings g) = .ok o ∧ o.preamble.map (·.2) = preamble g ∧
      o.blocks.map Block.content = (drafts settings.emitPositions g).map Layout.BlockDraft.content := by
  have hbanner : ∀ l ∈ (if settings.emitBanner then banner else []), Outline.isMereComment l := by
    intro l hl
    split at hl
    · exact (banner_eq l hl).1
    · cases hl
  have hdistinct : ((drafts settings.emitPositions g).map (·.title)).Nodup := by
    rw [titles_drafts h]
    exact g.nodes.distinct
  unfold Outline.read text
  rw [Text.lines_written (newline_not_mem_lines h settings)]
  exact Outline.ofLines_written hbanner (isWritable_preamble g) (writable_drafts h _) hdistinct

/-! ## The graph that is read back -/

theorem readBlocks_drafts {ns : List Node} (h : ∀ n ∈ ns, n.Sound) (w strict : Bool) {bs : List Block}
    (hbs : bs.map Block.content = (ns.map (Node.draft w)).map Layout.BlockDraft.content) :
    readBlocks strict bs = .ok (ns.map (Node.placed w)) := by
  induction ns generalizing bs with
  | nil =>
    obtain rfl := List.map_eq_nil_iff.1 hbs
    rfl
  | cons n ns ih =>
    obtain ⟨b, bs', rfl, hb, hrest⟩ := List.map_eq_cons_iff.1 hbs
    rw [readBlocks, Block.node_draft (h n (by simp)) w strict hb, ih (fun m hm => h m (by simp [hm])) hrest]
    rfl

/-- The directive of a graph gives back what stands in it. -/
theorem get?_graphDirective (g : Graph) : (graphDirective g).get? "id".toList = some g.id ∧
    (graphDirective g).get? "title".toList = some g.title ∧ (graphDirective g).get? "start".toList = some g.start := by
  simp [graphDirective, Directive.get?]

theorem ofList_placed (h : g.Sound) (w : Bool) :
    NodeTable.ofList ((g.nodes.nodes.map (Node.placed w)).map fun n => (n.id, n)) = g.nodes.placed w := by
  have hentries : (g.nodes.nodes.map (Node.placed w)).map (fun n => (n.id, n)) = (g.nodes.placed w).entries := by
    unfold NodeTable.nodes NodeTable.placed
    rw [List.map_map, List.map_map]
    exact List.map_congr_left fun e he => Prod.ext (h.keys e he).symm rfl
  rw [hentries]
  exact NodeTable.ext (NodeTable.entries_ofList (g.nodes.placed w).distinct)

theorem assemble_written (h : g.Sound) (w : Bool) :
    (assemble ⟨some (graphDirective g), g.ends⟩ (g.nodes.nodes.map (Node.placed w))).withDerivedEdges = g.kept w := by
  obtain ⟨hid, htitle, hstart⟩ := get?_graphDirective g
  have hassemble : assemble ⟨some (graphDirective g), g.ends⟩ (g.nodes.nodes.map (Node.placed w)) =
      { g.kept w with edges := [] } := by
    simp only [assemble, hid, htitle, hstart, Option.getD_some, ofList_placed h]
    rfl
  rw [hassemble]
  show { g.kept w with edges := (g.kept w).derivedEdges } = g.kept w
  rw [Graph.derivedEdges_kept]
  rfl

theorem readGraph_written (h : g.Sound) (w strict : Bool) {o : Outline} (hpreamble : o.preamble.map (·.2) = preamble g)
    (hblocks : o.blocks.map Block.content = (drafts w g).map Layout.BlockDraft.content) :
    readGraph strict o = .ok (g.kept w) := by
  unfold readGraph
  rw [Preamble.read_written h.ends hpreamble, readBlocks_drafts h.nodes w strict hblocks, ← assemble_written h w]
  rfl

/-- A written graph is read back, without a notice. -/
theorem read_text (h : g.Sound) (writing : Settings) {reading : Settings} (hrefs : reading.strictReferences = false) :
    read reading (text writing g) =
      .ok ⟨g.kept writing.emitPositions, [], (g.kept writing.emitPositions).check reading.flagSchema⟩ := by
  obtain ⟨o, ho, hpreamble, hblocks⟩ := outline_text h writing
  have hgraph := readGraph_written h writing.emitPositions reading.strictConditions hpreamble hblocks
  unfold read
  rw [ho]
  show Except.bind (readGraph reading.strictConditions o).result _ = _
  rw [hgraph, hrefs]
  rfl

/-! ## Round trips -/

/-- Every graph that may be written and holds finite numbers only is written, read back without a notice as what a
script keeps of it, and that is written as the same script. -/
theorem read_write {g : Graph} (writing : Settings) {schema : Option Check.Schema}
    (hs : (g.check schema).structural = []) (hfin : g.isFinite) :
    ∃ s, write writing g = .ok s ∧ ∀ reading : Settings, reading.strictReferences = false →
      ∃ out, read reading s = .ok out ∧ out.notices = [] ∧ out.graph = g.kept writing.emitPositions ∧
        write writing out.graph = .ok s := by
  have hsound : g.Sound := Graph.sound_of_structural hs hfin
  refine ⟨text writing g, write_of_sound hsound hs, ?_⟩
  intro reading hrefs
  refine ⟨_, read_text hsound writing hrefs, rfl, rfl, ?_⟩
  have hkept : write writing (g.kept writing.emitPositions) = .ok (text writing (g.kept writing.emitPositions)) :=
    write_of_sound (Graph.sound_kept hsound _) ((Graph.structural_kept writing.flagSchema _).trans hs)
  rw [hkept, text_kept]

/-- A dialogue with texts that look like lines of a script. -/
def lookalikes : Graph where
  id := []
  title := "a \"title\" \\ // @end ".toList
  start := []
  nodes := .ofList [
    (['a'], ⟨['a'], some ⟨.finite true .zero, .zero⟩, .speech ⟨"Bob".toList, " // Hi\n===\n".toList, some ['c'], []⟩⟩),
    (['b'], ⟨['b'], none, .menu ⟨[⟨['1'], " <<if>> #".toList, none,
      [.compare ['x'] .equals (.text " and \"".toList)], [['y']]⟩]⟩⟩)]
  edges := [.plain [] ['a'] ['z']]
  ends := [⟨['c'], some " -> ".toList⟩]

theorem read_write_lookalikes : (lookalikes.check none).structural = [] ∧ lookalikes.isFinite ∧
    ∃ s, write .standard lookalikes = .ok s ∧ ∀ reading : Settings, reading.strictReferences = false →
      ∃ out, read reading s = .ok out ∧ out.notices = [] ∧ out.graph = lookalikes.kept true ∧
        write .standard out.graph = .ok s := by
  have hs : (lookalikes.check none).structural = [] := by rfl
  have hfin : lookalikes.isFinite := by rfl
  exact ⟨hs, hfin, read_write .standard hs hfin⟩

/-- A script that is read as a graph that may be written is brought into the written form by one writing: that is
read back without a notice as the very same graph, and written again as it stands. -/
theorem write_read {settings : Settings} {t : Text} {out : Outcome} (h : read settings t = .ok out)
    (hs : (out.graph.check none).structural = []) :
    ∃ s, write .standard out.graph = .ok s ∧ ∃ out', read .standard s = .ok out' ∧ out'.notices = [] ∧
      out'.graph = out.graph ∧ write .standard out'.graph = .ok s := by
  obtain ⟨o, ho, hg, -⟩ := read_eq_ok h
  obtain ⟨hsound, -, hedges⟩ := sound_readGraph ho hg
  have hwrite : write .standard out.graph = .ok (text .standard out.graph) := write_of_sound hsound hs
  have hrefs : Settings.standard.strictReferences = false := rfl
  have hread := read_text hsound .standard hrefs
  have hkept : out.graph.kept Settings.standard.emitPositions = out.graph := Graph.kept_true hedges
  rw [hkept] at hread
  exact ⟨_, hwrite, _, hread, rfl, rfl, hwrite⟩

theorem write_read_jump : read .standard jumpScript = .ok ⟨jumpGraph, [], jumpGraph.check none⟩ ∧
    (jumpGraph.check none).structural = [] ∧
    ∃ s, write .standard jumpGraph = .ok s ∧ ∃ out', read .standard s = .ok out' ∧ out'.notices = [] ∧
      out'.graph = jumpGraph ∧ write .standard out'.graph = .ok s := by
  have hs : (jumpGraph.check none).structural = [] := by rfl
  exact ⟨read_jumpScript, hs, write_read read_jumpScript hs⟩

end Script
end DialogueScript
