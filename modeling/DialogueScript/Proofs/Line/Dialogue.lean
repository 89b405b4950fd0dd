import DialogueScript.Line.Choice
import DialogueScript.Line.Command
import DialogueScript.Line.Dialogue
import DialogueScript.Line.Directive
import DialogueScript.Proofs.Text.Escape
import DialogueScript.Proofs.Text.Name
/-!
# Lines of dialogue and narration are read back

Which reader takes a line is decided by its first characters: `//` for a comment, `->` for a choice, `<<` for
a command. A spoken line starts with its speaker, and a narrated one is written so that none of them takes it
and no speaker is found in front of a colon.

Results:
* `choice?_of_command?`, `of_isComment`, `of_directive?`: a line that one reader takes is left by the others.
* `dialogue?_spoken`: a spoken line is read back as its speaker and its text.
* `dialogue?_narrated`, `head_narrated`: a narrated line is read as narration only.
* `unescape_narrated`: a narrated line is read back.
-/
namespace DialogueScript.Line

/-! ## The first characters of a line -/

theorem after?_of_ne {a c : Char} (h : c ≠ a) (p r : Text) : Text.after? (a :: p) (c :: r) = none := by
  simp [Text.after?, Ne.symm h]

theorem isComment_of_ne {c : Char} (h : c ≠ '/') (r : Text) : isComment (c :: r) = false := by
  simp [isComment, after?_of_ne h]

theorem directive?_of_ne {c : Char} (h : c ≠ '/') (r : Text) : directive? (c :: r) = none := by
  simp [directive?, after?_of_ne h]

theorem choice?_of_ne {c : Char} (h : c ≠ '-') (r : Text) : choice? (c :: r) = none := by
  simp [choice?, after?_of_ne h]

theorem command?_of_ne {c : Char} (h : c ≠ '<') (r : Text) : command? (c :: r) = none := by
  simp [command?, bracketed?, after?_of_ne h]

theorem dialogue?_of_not_isWordStart {c : Char} (h : Text.isWordStart c = false) (r : Text) :
    dialogue? (c :: r) = none := by
  simp [dialogue?, speaker?, Text.name?, h]

/-- No reader but those of dialogue and narration takes a line that starts with `c`. -/
def isProse (c : Char) : Prop := c ≠ '/' ∧ c ≠ '-' ∧ c ≠ '<' ∧ c ≠ '='

theorem isProse_of_isWordStart {c : Char} (h : Text.isWordStart c) : isProse c := by
  refine ⟨?_, ?_, ?_, ?_⟩ <;> rintro rfl <;> cases h

/-! ## Every line has one reader -/

theorem exists_head_of_command? {line : Text} {c : Command} (h : command? line = some c) : ∃ r, line = '<' :: r := by
  cases line with
  | nil => cases h
  | cons d r =>
    by_cases hd : d = '<'
    · exact ⟨r, by rw [hd]⟩
    · rw [command?_of_ne hd] at h; cases h

theorem exists_head_of_isComment {line : Text} (h : isComment line) : ∃ r, line = '/' :: r := by
  obtain ⟨r, hr⟩ := Option.isSome_iff_exists.1 h
  exact ⟨'/' :: r, Text.eq_append_of_after? hr⟩

theorem choice?_of_command? {line : Text} {c : Command} (h : command? line = some c) : choice? line = none := by
  obtain ⟨r, rfl⟩ := exists_head_of_command? h
  exact choice?_of_ne (by decide) r

theorem directive?_of_command? {line : Text} {c : Command} (h : command? line = some c) : directive? line = none := by
  obtain ⟨r, rfl⟩ := exists_head_of_command? h
  exact directive?_of_ne (by decide) r

theorem dialogue?_of_command? {line : Text} {c : Command} (h : command? line = some c) : dialogue? line = none := by
  obtain ⟨r, rfl⟩ := exists_head_of_command? h
  exact dialogue?_of_not_isWordStart (by decide) r

theorem command?_of_dialogue? {line : Text} {d : Text × Text} (h : dialogue? line = some d) : command? line = none := by
  cases hc : command? line with
  | none => rfl
  | some c => rw [dialogue?_of_command? hc] at h; cases h

theorem choice?_of_isComment {line : Text} (h : isComment line) : choice? line = none := by
  obtain ⟨r, rfl⟩ := exists_head_of_isComment h
  exact choice?_of_ne (by decide) r

theorem of_isComment {line : Text} (h : isComment line) : command? line = none ∧ dialogue? line = none := by
  obtain ⟨r, rfl⟩ := exists_head_of_isComment h
  exact ⟨command?_of_ne (by decide) r, dialogue?_of_not_isWordStart (by decide) r⟩

theorem isComment_of_choice? {line : Text} {c : Text × Option Text} (h : choice? line = some c) :
    isComment line = false := by
  cases hcomment : isComment line with
  | false => rfl
  | true => rw [choice?_of_isComment hcomment] at h; cases h

/-- To all other readers a directive is a comment. -/
theorem of_directive? {line : Text} {d : Except Directive.Fault Directive} (h : directive? line = some d) :
    command? line = none ∧ choice? line = none ∧ isComment line := by
  unfold directive? at h
  split at h
  · next body hbody =>
    obtain ⟨r, hr, -⟩ := Option.map_eq_some_iff.1 hbody
    rw [Text.eq_append_of_after? hr]
    exact ⟨command?_of_ne (by decide) _, choice?_of_ne (by decide) _, rfl⟩
  · cases h

theorem directive?_of_isComment {line : Text} (h : isComment line = false) : directive? line = none := by
  cases hd : directive? line with
  | none => rfl
  | some d => rw [(of_directive? hd).2.2] at h; cases h

theorem choice?_of_dialogue? {line : Text} {d : Text × Text} (h : dialogue? line = some d) : choice? line = none := by
  cases line with
  | nil => rfl
  | cons c r =>
    by_cases hc : c = '-'
    · rw [hc, dialogue?_of_not_isWordStart (by decide)] at h; cases h
    · exact choice?_of_ne hc r

/-! ## Spoken lines -/

theorem speaker?_append {who : Text} (h : Text.isSpeaker who) {rest : Text} (hr : '\n' ∉ rest) :
    speaker? (who ++ ':' :: rest) = some (who, rest) := by
  rw [speaker?, Text.name?_append h (by simp; rfl)]
  simp [hr]

theorem spoken_eq (who line : Text) :
    spoken who line = who ++ ':' :: (if line = [] then [] else ' ' :: Text.escape line) := by
  unfold spoken
  split
  · next h =>
    by_cases hl : line = []
    · simp [hl]
    · exact absurd h (Text.escape_ne_nil hl)
  · next c r h =>
    have hl : line ≠ [] := by rintro rfl; simp [Text.escape] at h
    simp [hl, h]

theorem dialogue?_spoken {who line : Text} (hw : Text.isSpeaker who) (hl : '\n' ∉ line) :
    dialogue? (spoken who line) = some (who, line) := by
  rw [spoken_eq, dialogue?, speaker?_append hw]
  · split
    · next h => subst h; rfl
    · simp [afterSpace, Text.unescape_escape]
  · split
    · simp
    · simpa using Text.newline_not_mem_escape hl

theorem trim_spoken {who line : Text} (hw : Text.isSpeaker who) : Text.trim (spoken who line) = spoken who line := by
  have hs : Text.startsSolid who := by
    refine (Text.ends_of_not_blank (Text.ne_nil_of_shaped hw) ?_).1
    exact Text.not_blank_of_isIdChar (Text.isIdChar_of_isSpeaker hw)
  rw [spoken_eq]
  apply Text.trim_append_of_solid hs
  split
  · rfl
  · next h => exact Text.endsSolid_cons (Text.endsSolid_cons (Text.endsSolid_escape h) _) _

theorem head_of_isSpeaker {who : Text} (h : Text.isSpeaker who) :
    ∃ c r, who = c :: r ∧ Text.isWordStart c := by
  cases who with
  | nil => simp [Text.isSpeaker, Text.shaped] at h
  | cons c r =>
    simp only [Text.isSpeaker, Text.shaped, Bool.and_eq_true] at h
    exact ⟨c, r, rfl, h.1⟩

theorem head_spoken {who : Text} (hw : Text.isSpeaker who) (line : Text) :
    ∃ c r, spoken who line = c :: r ∧ isProse c := by
  obtain ⟨c, r, rfl, hc⟩ := head_of_isSpeaker hw
  exact ⟨c, _, by rw [spoken_eq]; rfl, isProse_of_isWordStart hc⟩

theorem newline_not_mem_spoken {who line : Text} (hw : Text.isSpeaker who) (hl : '\n' ∉ line) :
    '\n' ∉ spoken who line := by
  have h1 := Text.not_mem_of_isIdChar (Text.isIdChar_of_isSpeaker hw) (d := '\n') rfl
  have h2 := Text.newline_not_mem_escape hl
  rw [spoken_eq]
  split <;> simp [h1, h2]

/-! ## Narrated lines -/

/-- The three forms of a narrated line: a lone backslash, an escaped text behind one more backslash, or an
escaped text in which a backslash stands before the colon behind what would be a speaker. -/
theorem narrated_cases (line : Text) :
    line = [] ∧ narrated line = ['\\'] ∨
    line ≠ [] ∧ ((∃ c r, Text.escape line = c :: r ∧ c ≠ '\\' ∧ narrated line = '\\' :: c :: r) ∨
      (∃ who rest, speaker? (Text.escape line) = some (who, rest) ∧ narrated line = who ++ '\\' :: ':' :: rest) ∨
      (∃ c r, Text.escape line = c :: r ∧ isProse c ∧ narrated line = c :: r ∧ speaker? (c :: r) = none)) := by
  unfold narrated
  split
  · next h =>
    refine .inl ⟨?_, rfl⟩
    by_cases hl : line = []
    · exact hl
    · exact absurd h (Text.escape_ne_nil hl)
  · next c r h =>
    refine .inr ⟨by rintro rfl; simp [Text.escape] at h, ?_⟩
    rw [h]
    split
    · next hc => exact .inl ⟨c, r, rfl, by rintro rfl; revert hc; decide, rfl⟩
    · next hc =>
      simp only [not_or] at hc
      split
      · next who rest hs => exact .inr (.inl ⟨who, rest, hs, rfl⟩)
      · next hs =>
        refine .inr (.inr ⟨c, r, rfl, ⟨hc.2.1, hc.1, ?_, hc.2.2⟩, rfl, hs⟩)
        rcases Text.head_escape h with rfl | ⟨hm, -⟩
        · decide
        · rintro rfl; cases hm

theorem speaker?_eq_some {s who rest : Text} (h : speaker? s = some (who, rest)) :
    Text.isSpeaker who ∧ s = who ++ ':' :: rest := by
  unfold speaker? at h
  split at h
  · next w r hn =>
    split at h
    · cases h
    · cases h; exact ⟨Text.shaped_of_name? hn, Text.append_of_name? hn⟩
  · cases h

theorem head_narrated (line : Text) : ∃ c r, narrated line = c :: r ∧ isProse c := by
  have hb : isProse '\\' := by refine ⟨?_, ?_, ?_, ?_⟩ <;> decide
  rcases narrated_cases line with ⟨-, h⟩ | ⟨-, ⟨d, e, -, -, h⟩ | ⟨who, rest, hs, h⟩ | ⟨c, r, -, hc, h, -⟩⟩
  · exact ⟨'\\', [], h, hb⟩
  · exact ⟨'\\', _, h, hb⟩
  · obtain ⟨c, r, rfl, hc⟩ := head_of_isSpeaker (speaker?_eq_some hs).1
    exact ⟨c, _, by rw [h]; rfl, isProse_of_isWordStart hc⟩
  · exact ⟨c, r, h, hc⟩

theorem dialogue?_narrated (line : Text) : dialogue? (narrated line) = none := by
  rcases narrated_cases line with ⟨-, h⟩ | ⟨-, ⟨d, e, -, -, h⟩ | ⟨who, rest, hs, h⟩ | ⟨c, r, -, -, h, hn⟩⟩
  · rw [h]; rfl
  · rw [h]; exact dialogue?_of_not_isWordStart rfl _
  · rw [h, dialogue?, speaker?, Text.name?_append (speaker?_eq_some hs).1 (by simp; rfl)]; rfl
  · rw [h, dialogue?, hn]; rfl

theorem unescape_narrated (line : Text) : Text.unescape (narrated line) = line := by
  rcases narrated_cases line with ⟨hl, h⟩ | ⟨-, ⟨d, e, he, hd, h⟩ | ⟨who, rest, hs, h⟩ | ⟨c, r, he, -, h, -⟩⟩
  · rw [h, hl]; rfl
  · have := Text.unescape_escape line
    rw [he, Text.unescape_cons_of_ne hd] at this
    rw [h]; exact this
  · obtain ⟨hw, he⟩ := speaker?_eq_some hs
    have hb := Text.not_mem_of_isIdChar (Text.isIdChar_of_isSpeaker hw) (d := '\\') rfl
    rw [h, Text.unescape_append_of_ne hb]
    have := Text.unescape_escape line
    rw [he, Text.unescape_append_of_ne hb, Text.unescape_cons_of_ne (by decide)] at this
    exact this
  · rw [h, ← he, Text.unescape_escape]

theorem trim_narrated (line : Text) : Text.trim (narrated line) = narrated line := by
  rcases narrated_cases line with ⟨-, h⟩ | ⟨hl, ⟨d, e, he, hd, h⟩ | ⟨who, rest, hs, h⟩ | ⟨c, r, he, -, h, -⟩⟩
  · rw [h]; rfl
  · rw [h, ← he]; exact Text.trim_of_solid rfl (Text.endsSolid_cons (Text.endsSolid_escape hl) _)
  · obtain ⟨hw, he⟩ := speaker?_eq_some hs
    obtain ⟨c, t, rfl, hc⟩ := head_of_isSpeaker hw
    have hend := Text.endsSolid_escape hl
    rw [he, Text.endsSolid_append_cons] at hend
    rw [h]
    refine Text.trim_append_of_solid ?_ (Text.endsSolid_cons hend _)
    simp [Text.isBlank_of_isIdChar (Text.isIdChar_of_isWordStart hc)]
  · rw [h, ← he, Text.trim_escape]

theorem newline_not_mem_narrated {line : Text} (hl : '\n' ∉ line) : '\n' ∉ narrated line := by
  have hn := Text.newline_not_mem_escape hl
  rcases narrated_cases line with ⟨-, h⟩ | ⟨-, ⟨d, e, he, -, h⟩ | ⟨who, rest, hs, h⟩ | ⟨c, r, he, -, h, -⟩⟩
  · rw [h]; decide
  · rw [he] at hn
    rw [h]; simpa using hn
  · rw [(speaker?_eq_some hs).2] at hn
    rw [h]; simpa using hn
  · rw [h, ← he]; exact hn

end DialogueScript.Line
