import DialogueScript.Proofs.Node.DeadLines
import DialogueScript.Proofs.Node.Ids
import DialogueScript.Proofs.Script.Write
import Mathlib.Data.List.Forall2
/-!
# Lines behind a jump in a script

A script whose nodes have lines behind a jump is read, if these nodes are speeches or menus, as one without a jump in
front of them. What is written for it has each jump behind all else, so lines that did nothing do something from then
on. All other scripts mean the same before and after.

Results:
* `forall₂_of_readBlocks`, `forall₂_of_read`: each block of an outline is read as one node, and so is each block of a
  script.
* `dead_lines_of_read`: which nodes can have dead lines, and what becomes of them.
-/
namespace DialogueScript

/-- The block is read as a node: one of its kind, with its payload. -/
structure Block.Makes (b : Block) (strict : Bool) (n : Node) : Prop where
  title : b.title = n.id
  kind : b.kind = .ok n.payload.kind
  payload : (b.payload ⟨b.title, strict⟩ n.payload.kind).result = .ok n.payload

theorem Block.makes_of_node {b : Block} {strict : Bool} {n : Node} (h : (b.node strict).result = .ok n) :
    b.Makes strict n := by
  obtain ⟨k, hk, h⟩ := Reading.andThen_eq_ok h
  obtain ⟨position, -, h⟩ := Reading.andThen_eq_ok h
  obtain ⟨p, hp, h⟩ := Reading.andThen_eq_ok h
  cases h
  obtain rfl := Block.kind_of_payload hp
  exact ⟨rfl, hk, hp⟩

namespace Script

theorem forall₂_of_readBlocks {strict : Bool} {bs : List Block} {ns : List Node}
    (h : (readBlocks strict bs).result = .ok ns) : List.Forall₂ (fun b n => b.Makes strict n) bs ns := by
  induction bs generalizing ns with
  | nil => cases h; exact .nil
  | cons b bs ih =>
    obtain ⟨n, hn, h⟩ := Reading.andThen_eq_ok h
    obtain ⟨ns', hns, h⟩ := Reading.andThen_eq_ok h
    cases h
    exact .cons (Block.makes_of_node (Reading.mapError_eq_ok hn)) (ih hns)

theorem forall₂_of_read {settings : Settings} {s : Text} {out : Outcome} (h : read settings s = .ok out) :
    ∃ o, Outline.read s = .ok o ∧ List.Forall₂ (fun b n => b.Makes settings.strictConditions n ∧ n.Sound) o.blocks
      out.graph.nodes.nodes := by
  obtain ⟨o, ho, hg, -⟩ := read_eq_ok h
  obtain ⟨hsound, -, -⟩ := sound_readGraph ho hg
  obtain ⟨p, ns, -, hns, hgraph⟩ := readGraph_eq_ok_iff.1 hg
  have hnodes : out.graph.nodes.nodes = ns := by
    rw [← hgraph]
    exact nodes_assemble (nodup_of_readBlocks ho hns) p
  have hsounds := hsound.nodes
  rw [hnodes] at hsounds ⊢
  have hmakes := (forall₂_of_readBlocks hns).flip
  refine ⟨o, ho, ((List.forall₂_and_left ns o.blocks).2 ⟨hsounds, hmakes⟩).flip.imp fun b n h => ?_⟩
  exact ⟨h.2, h.1⟩

theorem forall₂_drafts {ns : List Node} (h : ∀ n ∈ ns, n.Sound) (w strict : Bool) {bs : List Block}
    (hbs : bs.map Block.content = (ns.map (Node.draft w)).map Layout.BlockDraft.content) :
    List.Forall₂ (fun b n => b.Makes strict n ∧ b.dead n.payload.kind = []) bs ns := by
  induction ns generalizing bs with
  | nil =>
    obtain rfl := List.map_eq_nil_iff.1 hbs
    exact .nil
  | cons n ns ih =>
    obtain ⟨b, bs', rfl, hb, hrest⟩ := List.map_eq_cons_iff.1 hbs
    obtain ⟨hn, hns⟩ := List.forall_mem_cons.1 h
    obtain ⟨htitle, hcontent⟩ := Prod.mk.inj hb
    obtain ⟨-, hbody⟩ := Prod.mk.inj hcontent
    have hpayload := Block.payload_lines ⟨b.title, strict⟩ hn.payload hbody
    refine .cons ⟨⟨htitle, Block.kind_lines hn.payload hbody, by rw [hpayload]; rfl⟩, ?_⟩ (ih hns hrest)
    exact Block.dead_eq_nil_of_lines hn.payload hbody

/-- What becomes of dead lines. Each block of a script that is read makes a node. It has no dead line if the node is a
branching, a storylet or a pool; in any case it would make the same node without its dead lines exactly when it has
none. A script that is written for the graph has blocks that make the same nodes, none of them with a dead line. -/
theorem dead_lines_of_read {settings : Settings} {s : Text} {out : Outcome} (h : read settings s = .ok out) :
    (∃ o, Outline.read s = .ok o ∧ List.Forall₂ (fun b n => b.Makes settings.strictConditions n ∧
        (n.payload.kind ≠ .speech → n.payload.kind ≠ .menu → b.dead n.payload.kind = []) ∧
        (((b.alive n.payload.kind).payload ⟨b.title, settings.strictConditions⟩ n.payload.kind).result =
          .ok n.payload ↔ b.dead n.payload.kind = [])) o.blocks out.graph.nodes.nodes) ∧
    ∀ writing t, write writing out.graph = .ok t → ∃ o, Outline.read t = .ok o ∧
      List.Forall₂ (fun b n => b.Makes settings.strictConditions n ∧ b.dead n.payload.kind = []) o.blocks
        out.graph.nodes.nodes := by
  obtain ⟨o, ho, hg, -⟩ := read_eq_ok h
  obtain ⟨hsound, -, -⟩ := sound_readGraph ho hg
  obtain ⟨p, ns, -, hns, hgraph⟩ := readGraph_eq_ok_iff.1 hg
  have hnodes : out.graph.nodes.nodes = ns := by
    rw [← hgraph]
    exact nodes_assemble (nodup_of_readBlocks ho hns) p
  refine ⟨⟨o, ho, ?_⟩, fun writing t ht => ?_⟩
  · rw [hnodes]
    refine (forall₂_of_readBlocks hns).imp fun b n hmakes => ⟨hmakes, ?_, ?_⟩
    · exact fun hspeech hmenu => Block.dead_eq_nil_of_payload hmakes.payload hspeech hmenu
    · exact Block.payload_alive_iff hmakes.payload
  · have hs : (out.graph.check writing.flagSchema).structural = [] := by
      by_contra hs
      rw [write_of_not_structural hs] at ht
      cases ht
    have htext : t = text writing out.graph := Except.ok.inj (ht.symm.trans (write_of_sound hsound hs))
    obtain ⟨o', ho', -, hblocks⟩ := outline_text hsound writing
    rw [htext]
    exact ⟨o', ho', forall₂_drafts hsound.nodes writing.emitPositions settings.strictConditions hblocks⟩

/-- A speech and a menu that go on behind their jumps, and a branching that does not. -/
def lateScript : Text :=
  "title: a\n---\nB: x\n<<jump b>>\nB: y\n===\n".toList ++
  "title: b\n---\n-> x\n<<jump c>>\n<<set $f = true>>\n===\n".toList ++
  "title: c\n---\n<<if $f>>\nx\n<<jump a>>\n<<endif>>\n===\n".toList

/-- The blocks of that script. -/
def lateSpeech : Block := ⟨['a'], 1, [], [⟨3, "B: x".toList⟩, ⟨4, "<<jump b>>".toList⟩, ⟨5, "B: y".toList⟩]⟩

@[inherit_doc lateSpeech]
def lateMenu : Block :=
  ⟨['b'], 7, [], [⟨9, "-> x".toList⟩, ⟨10, "<<jump c>>".toList⟩, ⟨11, "<<set $f = true>>".toList⟩]⟩

@[inherit_doc lateSpeech]
def lateBranching : Block :=
  ⟨['c'], 13, [], [⟨15, "<<if $f>>".toList⟩, ⟨16, ['x']⟩, ⟨17, "<<jump a>>".toList⟩, ⟨18, "<<endif>>".toList⟩]⟩

def lateNodes : List Node := [
  ⟨['a'], none, .speech ⟨['B'], ['x', '\n', 'y'], some ['b'], []⟩⟩,
  ⟨['b'], none, .menu ⟨[⟨"b-choice-1".toList, ['x'], some ['c'], [], [['f']]⟩]⟩⟩,
  ⟨['c'], none, .branching ⟨[⟨"c-block-1".toList, .ifThen, some [.isSet ['f']], ['x'], none, some ['a']⟩]⟩⟩]

def lateGraph : Graph := (assemble .empty lateNodes).withDerivedEdges

theorem outline_lateScript : Outline.read lateScript = .ok ⟨[], [lateSpeech, lateMenu, lateBranching]⟩ := by
  with_unfolding_all rfl

theorem readBlocks_late : readBlocks false [lateSpeech, lateMenu, lateBranching] = ⟨[], .ok lateNodes⟩ := by
  with_unfolding_all rfl

theorem read_lateScript : read .standard lateScript = .ok ⟨lateGraph, [], lateGraph.check none⟩ := by
  have hgraph : readGraph false ⟨[], [lateSpeech, lateMenu, lateBranching]⟩ = ⟨[], .ok lateGraph⟩ := by
    rw [readGraph, readBlocks_late]
    rfl
  rw [read_eq, outline_lateScript]
  show outcome .standard _ = _
  rw [outcome]
  simp only [Settings.standard]
  rw [hgraph]
  rfl

theorem nodes_lateGraph : lateGraph.nodes.nodes = lateNodes := by rfl

theorem write_lateGraph : write .standard lateGraph = .ok (text .standard lateGraph) :=
  write_of_structural (by decide +kernel)

theorem dead_lines_of_read_late :
    read .standard lateScript = .ok ⟨lateGraph, [], lateGraph.check none⟩ ∧
    lateBranching.dead .branching = [] ∧
    ((lateSpeech.alive .speech).payload ⟨['a'], false⟩ .speech).result ≠
      .ok (.speech ⟨['B'], ['x', '\n', 'y'], some ['b'], []⟩) ∧
    write .standard lateGraph = .ok (text .standard lateGraph) ∧
    ∃ o, Outline.read (text .standard lateGraph) = .ok o ∧
      List.Forall₂ (fun b n => b.Makes false n ∧ b.dead n.payload.kind = []) o.blocks lateGraph.nodes.nodes := by
  obtain ⟨⟨o, ho, hblocks⟩, hwritten⟩ := dead_lines_of_read read_lateScript
  obtain rfl := Except.ok.inj (ho.symm.trans outline_lateScript)
  have hblocks := nodes_lateGraph ▸ hblocks
  obtain ⟨hspeech, hrest⟩ := List.forall₂_cons.1 hblocks
  obtain ⟨-, hrest⟩ := List.forall₂_cons.1 hrest
  obtain ⟨hbranching, -⟩ := List.forall₂_cons.1 hrest
  refine ⟨read_lateScript, hbranching.2.1 (by decide) (by decide), fun h => ?_, write_lateGraph,
    hwritten .standard _ write_lateGraph⟩
  exact absurd (hspeech.2.2.1 h) (by decide)

/-- The speech goes on behind its jump, and the choice sets a flag behind its own; both are read, and what is written
for them has the jumps behind these lines. -/
theorem late_lines_read :
    read .standard lateScript = .ok ⟨lateGraph, [], lateGraph.check none⟩ ∧
    Outline.read lateScript = .ok ⟨[], [lateSpeech, lateMenu, lateBranching]⟩ ∧
    lateSpeech.dead .speech = [⟨5, "B: y".toList⟩] ∧
    lateMenu.dead .menu = [⟨11, "<<set $f = true>>".toList⟩] ∧
    write .standard lateGraph = .ok (text .standard lateGraph) ∧
    ["B: x".toList, "B: y".toList, "<<jump b>>".toList] <:+: (Text.lines (text .standard lateGraph)).map Text.trim ∧
    ["<<set $f = true>>".toList, "<<jump c>>".toList] <:+: (Text.lines (text .standard lateGraph)).map Text.trim := by
  refine ⟨read_lateScript, outline_lateScript, by decide, by decide, write_lateGraph, ?_, ?_⟩
  · decide +kernel
  · decide +kernel

end Script
end DialogueScript
