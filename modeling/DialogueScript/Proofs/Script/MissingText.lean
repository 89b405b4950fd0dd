import DialogueScript.Proofs.Node.MissingText
import DialogueScript.Proofs.Script.DeadLines
/-!
# Texts that a script misses

A script is not read when a text that a node needs is empty. A text that is not empty and has nothing but blank
characters is read, and then the check of the graph finds it missing: reading looks at the length of a text, the check
trims it first. Between the two there are only texts that a backslash or quotes keep from being empty.

Results:
* `missing_text_of_read`: which texts are found missing in a graph that was read, and how the script spells them.
-/
namespace DialogueScript.Script
open Check

/-- What a check finds missing in a graph that was read are the blank ones among the texts that its nodes need. These
are the texts that the lines of the blocks give. None is empty, and a line that gives a blank one shields it. -/
theorem missing_text_of_read {settings : Settings} {s : Text} {out : Outcome} (h : read settings s = .ok out) :
    out.report.missedTexts = out.graph.nodes.nodes.flatMap (fun n => missing n.id n.payload.neededTexts) ∧
    ∃ o, Outline.read s = .ok o ∧ List.Forall₂ (fun b n => b.Makes settings.strictConditions n ∧ b.GivesTexts n)
      o.blocks out.graph.nodes.nodes := by
  obtain ⟨-, -, -, hreport⟩ := read_eq_ok h
  obtain ⟨o, ho, hblocks⟩ := forall₂_of_read h
  refine ⟨by rw [hreport]; exact Graph.missedTexts_eq out.graph settings.flagSchema, o, ho, hblocks.imp ?_⟩
  exact fun b n ⟨hmakes, hn⟩ => ⟨hmakes, Block.givesTexts_of_payload hn hmakes.payload⟩

/-- A menu with a choice of which the text is one blank character between two backslashes. -/
def blankScript : Text := "title: a\n---\n-> \\ \\\n===\n".toList

def blankGraph : Graph where
  id := "dialogue".toList
  title := []
  start := ['a']
  nodes := .ofList [(['a'], ⟨['a'], none, .menu ⟨[⟨"a-choice-1".toList, [' '], none, [], []⟩]⟩⟩)]
  edges := []
  ends := [.plain ['a']]

theorem read_blankScript : read .standard blankScript = .ok ⟨blankGraph, [], blankGraph.check none⟩ := by rfl

theorem missing_text_of_read_blank : read .standard blankScript = .ok ⟨blankGraph, [], blankGraph.check none⟩ ∧
    (blankGraph.check none).missedTexts =
      blankGraph.nodes.nodes.flatMap (fun n => missing n.id n.payload.neededTexts) ∧
    ∃ o, Outline.read blankScript = .ok o ∧ List.Forall₂ (fun b n => b.Makes false n ∧ b.GivesTexts n)
      o.blocks blankGraph.nodes.nodes :=
  ⟨read_blankScript, missing_text_of_read read_blankScript⟩

/-- The script is read, and the check of its graph says that the choice has no text. -/
theorem blank_choice_read : read .standard blankScript = .ok ⟨blankGraph, [], blankGraph.check none⟩ ∧
    blankGraph.nodes.nodes.flatMap (·.payload.neededTexts) = [[' ']] ∧
    (blankGraph.check none).problems = [.defect ['a'] (.emptyChoice "a-choice-1".toList)] ∧
    (Problem.defect ['a'] (.emptyChoice "a-choice-1".toList)).message = "node 'a': choice 'a-choice-1' has no text" :=
  ⟨read_blankScript, rfl, by rfl, by decide⟩

end DialogueScript.Script
