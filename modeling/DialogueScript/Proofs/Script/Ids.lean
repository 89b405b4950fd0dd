import DialogueScript.Proofs.Node.Ids
import DialogueScript.Proofs.Script.Flags
/-!
# The ids in a script

Choices and branches for which a script has no id are numbered in their node, past the ids that are written there. So
an id that was written for one place, as those are that a graph is exported with, can be the number of another place
once an item is put in front of it.

Results:
* `nodup_ids_of_read`: when the choices and the branches of a script can be told apart by their ids.
-/
namespace DialogueScript.Script

/-- Where the ids that are written in a node differ, the ids of its choices or branches differ exactly when no number
of a choice or branch without an id makes an id that is written. -/
theorem nodup_ids_of_read {settings : Settings} {s : Text} {out : Outcome} (h : read settings s = .ok out) :
    ∀ n ∈ out.graph.nodes.nodes, ∃ o b, Outline.read s = .ok o ∧ b ∈ o.blocks ∧ b.title = n.id ∧
      (∀ m, n.payload = .menu m → (Menu.writtenIds b.meaningful).Nodup →
        ((m.choices.map (·.id)).Nodup ↔ ∀ count : Nat, (Menu.tags b.meaningful)[count]? = some none →
          Node.numberedId (n.id ++ "-choice-".toList) count ∉ Menu.writtenIds b.meaningful)) ∧
      ∀ c, n.payload = .branching c → (Branching.writtenIds b.meaningful).Nodup →
        ((c.branches.map (·.id)).Nodup ↔ ∀ count : Nat, (Branching.tags b.meaningful)[count]? = some none →
          Node.numberedId (n.id ++ "-block-".toList) count ∉ Branching.writtenIds b.meaningful) := by
  obtain ⟨o, ho, hg, -⟩ := read_eq_ok h
  obtain ⟨p, ns, -, hns, hgraph⟩ := readGraph_eq_ok_iff.1 hg
  have hnodes : out.graph.nodes.nodes = ns := by
    rw [← hgraph]
    exact nodes_assemble (nodup_of_readBlocks ho hns) p
  intro n hn
  rw [hnodes] at hn
  obtain ⟨b, hb, hnode⟩ := exists_block_of_readBlocks hns n hn
  obtain ⟨hid, k, hpayload⟩ := Block.payload_of_node hnode
  refine ⟨o, b, ho, hb, hid.symm, ?_, ?_⟩
  · intro m hm hwritten
    rw [Menu.ids_of_read (Block.menu_of_payload (hm ▸ hpayload)), hid, ← Menu.reduceOption_tags]
    rw [← Menu.reduceOption_tags] at hwritten
    exact Node.nodup_ids_iff hwritten
  · intro c hc hwritten
    obtain ⟨hids, htags⟩ := Branching.ids_of_read (Block.branching_of_payload (hc ▸ hpayload))
    rw [hids, hid, ← htags]
    rw [← htags] at hwritten
    exact Node.nodup_ids_iff hwritten

/-- A menu with a choice that was written with its id, and one that was put in front of it. -/
def clashingScript : Text := "title: menu\n---\n-> New\n-> Yes #line:menu-choice-1\n===\n".toList

def clashingBlock : Block :=
  ⟨"menu".toList, 1, [], [⟨3, "-> New".toList⟩, ⟨4, "-> Yes #line:menu-choice-1".toList⟩]⟩

def clashingMenu : Menu where
  choices :=
    [⟨"menu-choice-1".toList, "New".toList, none, [], []⟩, ⟨"menu-choice-1".toList, "Yes".toList, none, [], []⟩]

def clashingGraph : Graph where
  id := "dialogue".toList
  title := []
  start := "menu".toList
  nodes := .ofList [("menu".toList, ⟨"menu".toList, none, .menu clashingMenu⟩)]
  edges := []
  ends := [.plain "menu".toList]

theorem read_clashingScript :
    read .standard clashingScript = .ok ⟨clashingGraph, [], clashingGraph.check none⟩ := by rfl

theorem outline_clashingScript : Outline.read clashingScript = .ok ⟨[], [clashingBlock]⟩ := by rfl

theorem writtenIds_clashingBlock : Menu.writtenIds clashingBlock.meaningful = ["menu-choice-1".toList] := by rfl

theorem nodup_ids_of_read_clashing :
    read .standard clashingScript = .ok ⟨clashingGraph, [], clashingGraph.check none⟩ ∧
    (Menu.writtenIds clashingBlock.meaningful).Nodup ∧
    ((clashingMenu.choices.map (·.id)).Nodup ↔
      ∀ count : Nat, (Menu.tags clashingBlock.meaningful)[count]? = some none →
        Node.numberedId ("menu".toList ++ "-choice-".toList) count ∉ Menu.writtenIds clashingBlock.meaningful) := by
  have hwritten : (Menu.writtenIds clashingBlock.meaningful).Nodup := by simp [writtenIds_clashingBlock]
  obtain ⟨o, b, ho, hb, -, hmenu, -⟩ := nodup_ids_of_read read_clashingScript _ (List.mem_singleton.2 rfl)
  obtain rfl := Except.ok.inj (ho.symm.trans outline_clashingScript)
  obtain rfl := List.mem_singleton.1 hb
  exact ⟨read_clashingScript, hwritten, hmenu clashingMenu rfl hwritten⟩

/-- The only id that is written in the menu is that of its second choice, and its first choice is numbered by it. -/
theorem written_id_numbered_again :
    read .standard clashingScript = .ok ⟨clashingGraph, [], clashingGraph.check none⟩ ∧
    Outline.read clashingScript = .ok ⟨[], [clashingBlock]⟩ ∧
    (Menu.writtenIds clashingBlock.meaningful).Nodup ∧
    ¬ ∀ n ∈ clashingGraph.nodes.nodes, ∀ m, n.payload = .menu m → (m.choices.map (·.id)).Nodup := by
  refine ⟨read_clashingScript, outline_clashingScript, by simp [writtenIds_clashingBlock], ?_⟩
  intro h
  exact absurd (h _ (List.mem_singleton.2 rfl) clashingMenu rfl) (by decide)

end DialogueScript.Script
