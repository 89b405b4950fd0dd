import DialogueScript.Proofs.Node.Layout
/-!
# Prose is read back

Prose is what a node says: lines of dialogue and lines of narration. Each line of a text is escaped by itself, and the
result is read as prose and as nothing else, so the text is found again whatever it looks like. Indentation is all that
trimming takes away from such a line.

Results:
* `Line.IsUnmarked`: a line that is neither blank nor a mark, and that only the readers of prose can take.
* `Line.isUnmarked_narrated`, `Line.isUnmarked_spoken`: written prose is unmarked.
* `body_addLines`: what is added to a block stands in it behind a gap.
* `prose_read_back`: a text survives escaping, and so does all prose that is written into a block.
-/
namespace DialogueScript

namespace Line

/-- A line that is not blank and no mark of a block, that trimming leaves as it is, and that is no choice, command,
directive or comment. -/
structure IsUnmarked (l : Text) : Prop where
  ne_nil : l ≠ []
  trim_eq : Text.trim l = l
  choice : choice? l = none
  command : command? l = none
  directive : directive? l = none
  comment : isComment l = false
  ne_endMark : l ≠ Outline.endMark
  ne_bodyMark : l ≠ Outline.bodyMark

/-- The first character decides. -/
theorem isUnmarked_of_head {l : Text} (h : ∃ c r, l = c :: r ∧ isProse c) (ht : Text.trim l = l) : IsUnmarked l := by
  obtain ⟨c, r, rfl, hslash, hdash, hbracket, hequal⟩ := h
  exact {
    ne_nil := by simp
    trim_eq := ht
    choice := choice?_of_ne hdash r
    command := command?_of_ne hbracket r
    directive := directive?_of_ne hslash r
    comment := isComment_of_ne hslash r
    ne_endMark := fun he => hequal (List.cons.inj he).1
    ne_bodyMark := fun he => hdash (List.cons.inj he).1 }

theorem isUnmarked_narrated (line : Text) : IsUnmarked (narrated line) :=
  isUnmarked_of_head (head_narrated line) (trim_narrated line)

theorem isUnmarked_spoken {who : Text} (hw : Text.isSpeaker who) (line : Text) : IsUnmarked (spoken who line) :=
  isUnmarked_of_head (head_spoken hw line) (trim_spoken hw)

end Line

namespace Layout

/-! ## Lines in a block -/

/-- What is added to a block stands in it line by line, each behind a gap as wide as the block is deep. -/
theorem body_addLines (d : BlockDraft) (ls : List Text) :
    ∃ gap : Text, (∀ c ∈ gap, Text.isBlank c) ∧ (d.depth = 0 → gap = []) ∧
      (d.addLines ls).body = d.body ++ ls.map (gap ++ ·) := by
  refine ⟨(List.replicate d.depth indent).flatten, ?_, fun h => by rw [h]; rfl, rfl⟩
  intro c hc
  obtain ⟨t, ht, hc⟩ := List.mem_flatten.1 hc
  rw [List.eq_of_mem_replicate ht] at hc
  have hindent : ∀ c ∈ indent, Text.isBlank c := by simp [indent, Text.isBlank]
  exact hindent c hc

theorem map_dialogue?_spokenLines {who : Text} (hw : Text.isSpeaker who) (content : Text) :
    (spokenLines (some who) content).map Line.dialogue? = (Text.pieces content).map fun t => some (who, t) := by
  rw [spokenLines, List.map_map]
  exact List.map_congr_left fun t ht => Line.dialogue?_spoken hw (Text.newline_not_mem_of_mem_pieces ht)

theorem map_unescape_spokenLines {content : Text} (hne : content ≠ []) :
    (spokenLines none content).map Text.unescape = Text.pieces content := by
  have hlines : spokenLines none content = (Text.pieces content).map Line.narrated := by
    simp [spokenLines, hne]
  rw [hlines, List.map_map]
  refine (List.map_congr_left fun t _ => ?_).trans (List.map_id _)
  exact Line.unescape_narrated t

/-! ## Prose -/

/-- Every text is found again behind its escapes, and its ends survive trimming. Every line of narration is read as
narration only, and every line of dialogue as dialogue of its speaker; in a block, only a gap stands in front of it. A
content of several lines is found again piece by piece. -/
theorem prose_read_back :
    (∀ s, Text.unescape (Text.escape s) = s ∧ Text.trim (Text.escape s) = Text.escape s) ∧
    (∀ s, Line.IsUnmarked (Line.narrated s) ∧ Line.dialogue? (Line.narrated s) = none ∧
      Text.unescape (Line.narrated s) = s ∧ ('\n' ∉ s → '\n' ∉ Line.narrated s)) ∧
    (∀ (d : BlockDraft) (who s : Text), Text.isSpeaker who → '\n' ∉ s →
      Line.IsUnmarked (Line.spoken who s) ∧ Line.dialogue? (Line.spoken who s) = some (who, s) ∧
      ∃ gap : Text, (d.depth = 0 → gap = []) ∧ Text.trim (gap ++ Line.spoken who s) = Line.spoken who s ∧
        (d.addLines (spokenLines (some who) s)).body = d.body ++ [gap ++ Line.spoken who s]) ∧
    (∀ who content, Text.isSpeaker who →
      (spokenLines (some who) content).map Line.dialogue? = (Text.pieces content).map fun t => some (who, t)) ∧
    ∀ content, content ≠ [] → (spokenLines none content).map Text.unescape = Text.pieces content := by
  refine ⟨fun s => ⟨Text.unescape_escape s, Text.trim_escape s⟩, fun s => ?_, fun d who s hw hs => ?_,
    fun who content hw => map_dialogue?_spokenLines hw content, fun content hne => map_unescape_spokenLines hne⟩
  · exact ⟨Line.isUnmarked_narrated s, Line.dialogue?_narrated s, Line.unescape_narrated s,
      Line.newline_not_mem_narrated⟩
  · obtain ⟨gap, hgap, hdepth, hbody⟩ := body_addLines d (spokenLines (some who) s)
    have hlines : spokenLines (some who) s = [Line.spoken who s] := by
      rw [spokenLines, Text.pieces_of_not_mem hs, List.map_singleton]
    rw [hlines, List.map_singleton] at hbody
    have htrim : Text.trim (gap ++ Line.spoken who s) = Line.spoken who s :=
      (Text.trim_blank_append hgap _).trans (Line.trim_spoken hw)
    rw [hlines]
    exact ⟨Line.isUnmarked_spoken hw s, Line.dialogue?_spoken hw hs, gap, hdepth, htrim, hbody⟩

theorem prose_read_back_bob :
    Line.dialogue? (Line.narrated "Bob: ->\\ ".toList) = none ∧
    Text.unescape (Line.narrated "Bob: ->\\ ".toList) = "Bob: ->\\ ".toList ∧
    Line.dialogue? (Line.spoken "Bob".toList " <<jump a>>\t".toList) = some ("Bob".toList, " <<jump a>>\t".toList) ∧
    (spokenLines (some "Bob".toList) "Hi\n\n//".toList).map Line.dialogue? =
      [some ("Bob".toList, "Hi".toList), some ("Bob".toList, []), some ("Bob".toList, "//".toList)] ∧
    (spokenLines none "\n===".toList).map Text.unescape = [[], "===".toList] := by
  obtain ⟨-, hnarrated, hspoken, hdialogue, hnarration⟩ := prose_read_back
  obtain ⟨-, hnone, hback, -⟩ := hnarrated "Bob: ->\\ ".toList
  obtain ⟨-, hbob, -⟩ := hspoken (.start ['a']) "Bob".toList " <<jump a>>\t".toList (by decide) (by decide)
  exact ⟨hnone, hback, hbob, hdialogue "Bob".toList "Hi\n\n//".toList (by decide),
    hnarration "\n===".toList (by decide)⟩

end Layout
end DialogueScript
