import DialogueScript.Proofs.Node.Flags
import DialogueScript.Proofs.Script.Read
/-!
# The flags of a script

The flags that the nodes of a script set are those that its lines name. A line names the whole flag that is written
behind `$`, with one exception: letters `to` are a sign even where they touch the flag or the value, so the end of
a name that has these letters in it can be taken for a sign and a value.

Results:
* `Outline.mem_numbered_of_read`: the lines of bodies are lines of the text.
* `exists_set_of_read`: the flags that nodes set are set by lines of the text.
* `sets_flag_written`: which flags lines and nodes set, as they are written.
-/
namespace DialogueScript

/-! ## Lines of bodies -/

namespace Outline

theorem mem_numbered_of_step {p q : Progress} {l : SourceLine} {ls : List SourceLine} (hl : l ∈ ls)
    (hp : ∀ k ∈ p.lines, k ∈ ls) (h : p.step l = .ok q) : ∀ k ∈ q.lines, k ∈ ls := by
  rcases adds_step h with ⟨-, hlines⟩ | ⟨-, hlines⟩ | ⟨_, -, -, -, -, hlines⟩
  · rwa [hlines]
  · rw [hlines]
    exact List.forall_mem_append.2 ⟨hp, by simpa using hl⟩
  · rwa [hlines]

theorem mem_of_readLines {ls : List SourceLine} {p : Progress} (h : readLines .start ls = .ok p) :
    ∀ l ∈ p.lines, l ∈ ls :=
  except_foldlM_invariant (I := fun p : Progress => ∀ l ∈ p.lines, l ∈ ls)
    (fun _ hl _ _ hp hstep => mem_numbered_of_step hl hp hstep) (by simp [Progress.lines, Progress.start]) h

/-- The lines of bodies are lines of the text. -/
theorem mem_numbered_of_read {s : Text} {o : Outline} (h : read s = .ok o) {b : Block} (hb : b ∈ o.blocks) :
    ∀ l ∈ b.body, l ∈ numbered 1 (Text.lines s) := by
  intro l hl
  exact mem_of_readLines (read_eq_ok h) l (List.mem_append_left _ (List.mem_flatMap.2 ⟨b, hb, hl⟩))

end Outline

namespace Script

theorem exists_block_of_readBlocks {strict : Bool} {bs : List Block} {ns : List Node}
    (h : (readBlocks strict bs).result = .ok ns) : ∀ n ∈ ns, ∃ b ∈ bs, (b.node strict).result = .ok n := by
  induction bs generalizing ns with
  | nil => cases h; simp
  | cons b bs ih =>
    obtain ⟨n, hn, h⟩ := Reading.andThen_eq_ok h
    obtain ⟨ns', hns, h⟩ := Reading.andThen_eq_ok h
    cases h
    intro m hm
    rcases List.mem_cons.1 hm with rfl | hm
    · exact ⟨b, by simp, Reading.mapError_eq_ok hn⟩
    · obtain ⟨c, hc, hnode⟩ := ih hns m hm
      exact ⟨c, by simp [hc], hnode⟩

/-- Every flag that a node sets is set by a line of the text. -/
theorem exists_set_of_read {settings : Settings} {s : Text} {out : Outcome} (h : read settings s = .ok out) :
    ∀ n ∈ out.graph.nodes.nodes, ∀ f ∈ n.payload.setFlags,
      ∃ l ∈ Text.lines s, Line.command? (Text.trim l) = some (.set f "true".toList) := by
  obtain ⟨o, ho, hg, -⟩ := read_eq_ok h
  obtain ⟨p, ns, -, hns, hgraph⟩ := readGraph_eq_ok_iff.1 hg
  have hnodes : out.graph.nodes.nodes = ns := by
    rw [← hgraph]
    exact nodes_assemble (nodup_of_readBlocks ho hns) p
  intro n hn f hf
  rw [hnodes] at hn
  obtain ⟨b, hb, hnode⟩ := exists_block_of_readBlocks hns n hn
  obtain ⟨l, hl, hc⟩ := Block.exists_set_of_node hnode f hf
  have htext : l.text ∈ (Outline.numbered 1 (Text.lines s)).map (·.text) :=
    List.mem_map_of_mem (Outline.mem_numbered_of_read ho hb l hl)
  rw [Outline.text_numbered] at htext
  obtain ⟨t, ht, he⟩ := List.mem_map.1 htext
  exact ⟨t, ht, he ▸ hc⟩

/-- A line sets the whole flag that is written behind `$` exactly when no letters `to` that touch the flag or the
value are taken for the sign; a line that is written with a sign is read with that sign. The flags of nodes are those
of lines. -/
theorem sets_flag_written (line flag value : Text) :
    (Line.command? line = some (.set flag value) →
      (Line.Names flag value line ↔ ¬ Line.Splits flag value line)) ∧
    (Line.Names flag value line → value ≠ [] → '\n' ∉ value → Line.command? line = some (.set flag value)) ∧
    ∀ settings s out, read settings s = .ok out → ∀ n ∈ out.graph.nodes.nodes, ∀ f ∈ n.payload.setFlags,
      ∃ l ∈ Text.lines s, Line.Names f "true".toList (Text.trim l) ∨ Line.Splits f "true".toList (Text.trim l) := by
  refine ⟨?_, fun h hne hn => Line.command?_of_named h hne hn, ?_⟩
  · intro h
    exact ⟨Line.Names.not_splits, (Line.named_or_split_of_command? h).resolve_right⟩
  · intro settings s out h n hn f hf
    obtain ⟨l, hl, hc⟩ := exists_set_of_read h n hn f hf
    exact ⟨l, hl, Line.named_or_split_of_command? hc⟩

/-- A script with a flag whose name has the letters `to` in it, and no sign behind it. -/
def gluedScript : Text := "title: a\n---\nBob: Hi\n<<set $footo true>>\n===\n".toList

def gluedGraph : Graph where
  id := "dialogue".toList
  title := []
  start := ['a']
  nodes := .ofList [(['a'], ⟨['a'], none, .speech ⟨"Bob".toList, "Hi".toList, none, ["foo".toList]⟩⟩)]
  edges := []
  ends := [.plain ['a']]

theorem read_gluedScript : read .standard gluedScript = .ok ⟨gluedGraph, [], gluedGraph.check none⟩ := by rfl

theorem sets_flag_written_met :
    Line.Names "met".toList "yes".toList "<<set $met To yes>>".toList ∧
    Line.command? "<<set $met To yes>>".toList = some (.set "met".toList "yes".toList) ∧
    ¬ Line.Splits "met".toList "yes".toList "<<set $met To yes>>".toList ∧
    ∃ l ∈ Text.lines gluedScript,
      Line.Names "foo".toList "true".toList (Text.trim l) ∨ Line.Splits "foo".toList "true".toList (Text.trim l) := by
  obtain ⟨hwhole, hcommand, hnodes⟩ := sets_flag_written "<<set $met To yes>>".toList "met".toList "yes".toList
  have hnames : Line.Names "met".toList "yes".toList "<<set $met To yes>>".toList :=
    ⟨" To yes".toList, by rfl, by rfl, by rintro c ⟨⟩; rfl,
      @Line.Assigns.toWord [' '] "yes".toList 'T' 'o' ' ' (by simp [Text.isBlank]) (by decide) (by decide) rfl⟩
  have hset := hcommand hnames (by decide) (by decide)
  refine ⟨hnames, hset, (hwhole hset).1 hnames, ?_⟩
  exact hnodes .standard gluedScript _ read_gluedScript _ (List.mem_singleton.2 rfl) _ (List.mem_singleton.2 rfl)

/-- The line names `footo`, and the flag that it sets is `foo`. -/
theorem glued_flag_split :
    Line.command? "<<set $footo true>>".toList = some (.set "foo".toList "true".toList) ∧
    ¬ Line.Names "foo".toList "true".toList "<<set $footo true>>".toList ∧
    read .standard gluedScript = .ok ⟨gluedGraph, [], gluedGraph.check none⟩ ∧
    gluedGraph.nodes.nodes.flatMap (·.payload.setFlags) = ["foo".toList] := by
  refine ⟨by rfl, ?_, read_gluedScript, by rfl⟩
  intro h
  obtain ⟨rest, hargument, -, hhead, -⟩ := h
  have hline : Line.argument? "set".toList "<<set $footo true>>".toList = some "$footo true".toList := by rfl
  have hrest : ['t', 'o', ' ', 't', 'r', 'u', 'e'] = rest := by simpa using hline.symm.trans hargument
  rw [← hrest] at hhead
  exact absurd (hhead 't' rfl) (by decide)

end Script
end DialogueScript
