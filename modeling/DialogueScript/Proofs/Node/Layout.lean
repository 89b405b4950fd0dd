import DialogueScript.Proofs.Condition.Conjunction
import DialogueScript.Proofs.Line.Choice
import DialogueScript.Proofs.Line.Command
import DialogueScript.Proofs.Script.Outline
/-!
# The lines of bodies

Each line that is written into a body is a line of that body: it is one line, it is not blank, and it does
not end the body. Indentation is trimmed away when the line is read.

Results:
* `isBodyLine_spoken` and its like: every form of line can stand in a body.
* `map_trim_indented`: indented lines are read as if they were not.
* `command?_guardLine`: the line that opens a bracket is read back with its conditions joined.
-/
namespace DialogueScript

namespace Layout

/-! ## Indentation -/

theorem trim_indent (l : Text) : Text.trim (indent ++ l) = Text.trim l :=
  Text.trim_blank_append (by simp [indent, Text.isBlank]) l

theorem map_trim_indented (ls : List Text) : (indented ls).map Text.trim = ls.map Text.trim := by
  rw [indented, List.map_map]
  exact List.map_congr_left fun l _ => trim_indent l

theorem isBodyLine_indented {ls : List Text} (h : ∀ l ∈ ls, isBodyLine l) : ∀ l ∈ indented ls, isBodyLine l := by
  intro m hm
  obtain ⟨l, hl, rfl⟩ := List.mem_map.1 hm
  obtain ⟨hne, hend, hn⟩ := h l hl
  refine ⟨by rw [trim_indent]; exact hne, by rw [trim_indent]; exact hend, ?_⟩
  simp [indent, hn]

/-! ## Forms of lines -/

theorem isBodyLine_of_head {l : Text} (h : ∃ c r, l = c :: r ∧ c ≠ '=') (ht : Text.trim l = l) (hn : '\n' ∉ l) :
    isBodyLine l := by
  obtain ⟨c, r, rfl, hc⟩ := h
  refine ⟨by rw [ht]; simp, ?_, hn⟩
  rw [ht]
  intro he
  exact hc (List.cons.inj he).1

theorem isBodyLine_spoken {who line : Text} (hw : Text.isSpeaker who) (hl : '\n' ∉ line) :
    isBodyLine (Line.spoken who line) := by
  obtain ⟨c, r, he, hp⟩ := Line.head_spoken hw line
  exact isBodyLine_of_head ⟨c, r, he, hp.2.2.2⟩ (Line.trim_spoken hw) (Line.newline_not_mem_spoken hw hl)

theorem isBodyLine_narrated {line : Text} (hl : '\n' ∉ line) : isBodyLine (Line.narrated line) := by
  obtain ⟨c, r, he, hp⟩ := Line.head_narrated line
  exact isBodyLine_of_head ⟨c, r, he, hp.2.2.2⟩ (Line.trim_narrated line) (Line.newline_not_mem_narrated hl)

theorem isBodyLine_jump {target : Text} (h : Text.isNodeId target) : isBodyLine (Line.jump target) :=
  isBodyLine_of_head ⟨'<', _, Line.jump_eq target, by decide⟩ (Line.trim_jump target) (Line.newline_not_mem_jump h)

theorem isBodyLine_set {flag : Text} (h : Text.isFlag flag) : isBodyLine (Line.set flag) :=
  isBodyLine_of_head ⟨'<', _, Line.set_eq flag, by decide⟩ (Line.trim_set flag) (Line.newline_not_mem_set h)

theorem isBodyLine_choice {text id : Text} (ht : '\n' ∉ text) (hid : Text.isWord id) :
    isBodyLine (Line.choice text id) :=
  isBodyLine_of_head ⟨'-', _, Line.choice_eq text id, by decide⟩ (Line.trim_choice hid)
    (Line.newline_not_mem_choice ht hid)

theorem isBodyLine_directive {d : Directive} (h : d.isWritable) : isBodyLine d.line :=
  isBodyLine_of_head ⟨'/', _, Directive.line_eq d, by decide⟩ (Directive.trim_line h) (Directive.newline_not_mem_line h)

/-! ## Lines that open and close brackets -/

theorem guardLine_eq (keyword : Text) (cs : List Condition) :
    guardLine keyword cs = '<' :: '<' :: (keyword ++ ' ' :: (Condition.joined cs ++ ['>', '>'])) := by
  unfold guardLine; simp

theorem command?_guardLine (keyword : Text) (hne : keyword ≠ []) (hk : ∀ c ∈ keyword, Text.isBlank c = false)
    {cs : List Condition} (hcs : cs ≠ []) (h : ∀ c ∈ cs, c.Writable) : Line.command? (guardLine keyword cs) =
      some (.ofParts (keyword ++ ' ' :: Condition.joined cs) keyword (Condition.joined cs)) := by
  obtain ⟨hs, he⟩ := Condition.joined_ends hcs h
  rw [guardLine_eq, Line.command?_argument hne hk hs he]

theorem trim_guardLine (keyword : Text) (cs : List Condition) :
    Text.trim (guardLine keyword cs) = guardLine keyword cs := by
  unfold guardLine
  rw [List.append_assoc]
  exact Text.trim_append_of_solid rfl (Text.endsSolid_append (Text.endsSolid_cons (Text.endsSolid_append rfl _) _) _)

theorem isBodyLine_guardLine {keyword : Text} (hk : ∀ c ∈ keyword, Text.isBlank c = false) {cs : List Condition}
    (h : ∀ c ∈ cs, c.Writable) : isBodyLine (guardLine keyword cs) := by
  have hn : '\n' ∉ keyword := fun hm => by cases hk _ hm
  refine isBodyLine_of_head ⟨'<', _, guardLine_eq keyword cs, by decide⟩ (trim_guardLine keyword cs) ?_
  have := Condition.newline_not_mem_joined h
  rw [guardLine_eq]
  simp [hn, this]

theorem isBodyLine_endIf : isBodyLine endIfLine := by refine ⟨?_, ?_, ?_⟩ <;> decide

theorem head_endIf : ∃ r, endIfLine = '<' :: r := ⟨"<endif>>".toList, by decide⟩

theorem command?_endIf : Line.command? endIfLine = some .endIf := by decide

/-! ## Parts of a body -/

theorem mem_jumpLines {target : Option Text} {l : Text} (h : l ∈ jumpLines target) : ∃ t ∈ target, Line.jump t = l := by
  simpa [jumpLines] using h

theorem isBodyLine_setLines {flags : List Text} (h : ∀ f ∈ flags, Text.isFlag f) :
    ∀ l ∈ setLines flags, isBodyLine l := by
  intro l hl
  obtain ⟨f, hf, rfl⟩ := List.mem_map.1 hl
  exact isBodyLine_set (h f hf)

theorem isBodyLine_jumpLines {target : Option Text} (h : ∀ t ∈ target, Text.isNodeId t) :
    ∀ l ∈ jumpLines target, isBodyLine l := by
  intro l hl
  cases target with
  | none => cases hl
  | some t => rw [List.mem_singleton.1 hl]; exact isBodyLine_jump (h t rfl)

theorem head_spokenLines {speaker : Option Text} (h : ∀ s ∈ speaker, Text.isSpeaker s) {content l : Text}
    (hl : l ∈ spokenLines speaker content) : ∃ c r, l = c :: r ∧ Line.isProse c := by
  cases speaker with
  | some who =>
    obtain ⟨t, -, rfl⟩ := List.mem_map.1 hl
    exact Line.head_spoken (h who rfl) t
  | none =>
    simp only [spokenLines] at hl
    split at hl
    · cases hl
    · obtain ⟨t, -, rfl⟩ := List.mem_map.1 hl
      exact Line.head_narrated t

theorem isBodyLine_spokenLines {speaker : Option Text} (h : ∀ s ∈ speaker, Text.isSpeaker s) (content : Text) :
    ∀ l ∈ spokenLines speaker content, isBodyLine l := by
  intro l hl
  cases speaker with
  | some who =>
    obtain ⟨t, ht, rfl⟩ := List.mem_map.1 hl
    exact isBodyLine_spoken (h who rfl) (Text.newline_not_mem_of_mem_pieces ht)
  | none =>
    simp only [spokenLines] at hl
    split at hl
    · cases hl
    · obtain ⟨t, ht, rfl⟩ := List.mem_map.1 hl
      exact isBodyLine_narrated (Text.newline_not_mem_of_mem_pieces ht)

/-- The lines of the parts of a body have no blank ends. -/
theorem map_trim_setLines (flags : List Text) : (setLines flags).map Text.trim = setLines flags := by
  rw [setLines, List.map_map]
  exact List.map_congr_left fun f _ => Line.trim_set f

theorem map_trim_jumpLines (target : Option Text) : (jumpLines target).map Text.trim = jumpLines target := by
  cases target with
  | none => rfl
  | some t => simp [jumpLines, Line.trim_jump]

theorem map_trim_spokenLines {speaker : Option Text} (h : ∀ s ∈ speaker, Text.isSpeaker s) (content : Text) :
    (spokenLines speaker content).map Text.trim = spokenLines speaker content := by
  cases speaker with
  | some who =>
    simp only [spokenLines]
    rw [List.map_map]
    exact List.map_congr_left fun t _ => Line.trim_spoken (h who rfl)
  | none =>
    simp only [spokenLines]
    split
    · rfl
    · rw [List.map_map]
      exact List.map_congr_left fun t _ => Line.trim_narrated t

end Layout
end DialogueScript
