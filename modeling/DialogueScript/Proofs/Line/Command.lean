import DialogueScript.Line.Command
import DialogueScript.Proofs.Text.Name
/-!
# Commands are read back

A command with an argument has one space behind its keyword, and both the keyword and the argument have solid
ends, so neither trimming nor the split at blank characters takes anything away from them.

Results:
* `command?_argument`: the keyword and the argument of a written command are read back.
* `command?_jump`, `command?_set`: the two commands that nodes of every kind can hold are read back.
* `isFlag_of_command?`: a flag that a command sets is well formed.
-/
namespace DialogueScript.Line

/-- The line of a command with an argument. -/
theorem bracketed?_line (inner : Text) : bracketed? ('<' :: '<' :: (inner ++ ['>', '>'])) = some (Text.trim inner) := by
  have h : Text.before? ['>', '>'] (inner ++ ['>', '>']) = some inner := Text.before?_eq_some_iff.2 rfl
  simp [bracketed?, Text.after?, h]

theorem command?_argument {keyword argument : Text} (hne : keyword ≠ [])
    (hk : ∀ c ∈ keyword, Text.isBlank c = false) (hs : Text.startsSolid argument) (he : Text.endsSolid argument) :
    command? ('<' :: '<' :: (keyword ++ ' ' :: (argument ++ ['>', '>']))) =
      some (.ofParts (keyword ++ ' ' :: argument) keyword argument) := by
  have hinner : Text.trim (keyword ++ ' ' :: argument) = keyword ++ ' ' :: argument :=
    Text.trim_append_of_solid (Text.ends_of_not_blank hne hk).1 (Text.endsSolid_cons he _)
  have hk' : ∀ c ∈ keyword, (!Text.isBlank c) = true := fun c hc => by simp [hk c hc]
  have hsp : Text.isBlank ' ' = true := rfl
  have harg : Text.trim (' ' :: argument) = argument := by
    have := Text.trim_blank_append (b := [' ']) (by simp [hsp]) argument
    exact this.trans (Text.trim_of_solid hs he)
  have hline := bracketed?_line (keyword ++ ' ' :: argument)
  rw [List.append_assoc, List.cons_append] at hline
  rw [command?, hline, hinner]
  simp only [Option.map_some, List.takeWhile_append_of_pos hk', List.dropWhile_append_of_pos hk',
    List.takeWhile_cons, List.dropWhile_cons, hsp, Bool.not_true, Bool.false_eq_true, if_false, List.append_nil, harg]

theorem jump_eq (target : Text) : jump target = '<' :: '<' :: ("jump".toList ++ ' ' :: (target ++ ['>', '>'])) := by
  unfold jump; simp

theorem command?_jump {target : Text} (h : Text.isNodeId target) : command? (jump target) = some (.jump target) := by
  obtain ⟨hs, he⟩ := Text.isNodeId_ends h
  rw [jump_eq, command?_argument (by decide) (Text.not_blank_of_all (by decide)) hs he]
  rfl

theorem trim_jump (target : Text) : Text.trim (jump target) = jump target := by
  unfold jump
  rw [List.append_assoc]
  exact Text.trim_append_of_solid rfl (Text.endsSolid_append rfl _)

theorem newline_not_mem_jump {target : Text} (h : Text.isNodeId target) : '\n' ∉ jump target := by
  have := Text.not_mem_of_isIdChar (Text.isIdChar_of_isNodeId h) (d := '\n') rfl
  unfold jump
  simp [this]

/-! ## Setting a flag -/

theorem set_eq (flag : Text) :
    set flag = '<' :: '<' :: ("set".toList ++ ' ' :: (('$' :: (flag ++ " = true".toList)) ++ ['>', '>'])) := by
  unfold set; simp

theorem flagAssignment?_true {s : Text} (h : ∀ c ∈ s, Text.isFlagChar c) :
    flagAssignment? (s ++ " = true".toList) = some (s, "true".toList) := by
  induction s with
  | nil => decide
  | cons c s ih =>
    rw [List.cons_append, flagAssignment?]
    simp only [h c (by simp), if_true, ih fun d hd => h d (by simp [hd])]

theorem setting?_true {flag : Text} (h : Text.isFlag flag) :
    setting? ('$' :: (flag ++ " = true".toList)) = some (flag, "true".toList) := by
  cases flag with
  | nil => cases h
  | cons c r =>
    simp only [Text.isFlag, Text.shaped, Bool.and_eq_true, List.all_eq_true] at h
    rw [List.cons_append, setting?]
    simp only [h.1, if_true, flagAssignment?_true h.2, Option.map_some]
    rfl

theorem command?_set {flag : Text} (h : Text.isFlag flag) : command? (set flag) = some (.set flag "true".toList) := by
  rw [set_eq, command?_argument (by decide) (Text.not_blank_of_all (by decide)) rfl]
  · unfold Command.ofParts
    rw [setting?_true h]
    rfl
  · exact Text.endsSolid_cons (Text.endsSolid_append rfl _) _

theorem trim_set (flag : Text) : Text.trim (set flag) = set flag := by
  unfold set
  rw [List.append_assoc]
  exact Text.trim_append_of_solid rfl (Text.endsSolid_append rfl _)

theorem newline_not_mem_set {flag : Text} (h : Text.isFlag flag) : '\n' ∉ set flag := by
  have := Text.not_mem_of_isIdChar (Text.isIdChar_of_isFlag h) (d := '\n') rfl
  unfold set
  simp [this]

/-! ## What was read is a flag -/

theorem isFlagChar_of_flagAssignment? {s flag value : Text} (h : flagAssignment? s = some (flag, value)) :
    ∀ c ∈ flag, Text.isFlagChar c := by
  induction s generalizing flag with
  | nil => cases h
  | cons d r ih =>
    have hhere : ∀ {o : Option Text}, (o.map fun v => (([] : Text), v)) = some (flag, value) →
        ∀ c ∈ flag, Text.isFlagChar c := by
      intro o ho
      obtain ⟨v, -, he⟩ := Option.map_eq_some_iff.1 ho
      cases he; simp
    simp only [flagAssignment?] at h
    split at h
    · next hd =>
      split at h
      · next f v hf =>
        cases h
        intro c hc
        rcases List.mem_cons.1 hc with rfl | hc
        · exact hd
        · exact ih hf c hc
      · exact hhere h
    · exact hhere h

theorem isFlag_of_setting? {s flag value : Text} (h : setting? s = some (flag, value)) : Text.isFlag flag := by
  unfold setting? at h
  split at h
  · split at h
    · next c r hc =>
      obtain ⟨⟨f, v⟩, hf, he⟩ := Option.map_eq_some_iff.1 h
      cases he
      simpa [Text.isFlag, Text.shaped, hc] using isFlagChar_of_flagAssignment? hf
    · cases h
  · cases h

/-- Only the keyword `set` makes a command that sets a flag. -/
theorem ofParts_eq_set_iff {inner keyword argument flag value : Text} :
    Command.ofParts inner keyword argument = .set flag value ↔
      keyword = "set".toList ∧ setting? argument = some (flag, value) := by
  constructor
  · intro h
    unfold Command.ofParts at h
    repeat' split at h
    all_goals try (cases h; done)
    next hk _ f v hs => cases h; exact ⟨hk, hs⟩
  · intro h
    obtain ⟨rfl, hs⟩ := h
    rw [Command.ofParts]
    simp [hs]

theorem isFlag_of_command? {l flag value : Text} (h : command? l = some (.set flag value)) : Text.isFlag flag := by
  obtain ⟨inner, -, he⟩ := Option.map_eq_some_iff.1 h
  exact isFlag_of_setting? (ofParts_eq_set_iff.1 he).2

end DialogueScript.Line
