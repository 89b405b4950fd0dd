import DialogueScript.Line.Choice
import DialogueScript.Proofs.Text.Escape
import DialogueScript.Proofs.Text.Name
/-!
# Choice lines are read back

In an escaped text a backslash precedes each `#`, so the first `#` that none precedes is the one of the tag
behind it, and what stands in front of the tag is the escaped text with a space at either end.

Results:
* `choice?_choice`: a choice line is read back as its text and its id.
* `trim_choice`, `newline_not_mem_choice`: it is one line that trimming leaves as it is.
* `newline_not_mem_of_choice?`, `isWord_of_choice?`: the text that is read from one line is one line, and an id
  is a word.
* `choice?_choice_iff`: which choice lines are read back, trimmed or not.
-/
namespace DialogueScript

namespace Text

theorem wordsFrom_cons (run : Text) (c : Char) (r : Text) : wordsFrom run (c :: r) =
    match isBlank c, run with
    | true, [] => wordsFrom [] r
    | true, _ :: _ => run.reverse :: wordsFrom [] r
    | false, _ => wordsFrom (c :: run) r := by
  rfl

theorem wordsFrom_of_not_blank {s : Text} (h : ∀ c ∈ s, isBlank c = false) (d : Char) (run : Text) :
    wordsFrom (d :: run) s = [(d :: run).reverse ++ s] := by
  induction s generalizing d run with
  | nil => rw [List.append_nil]; rfl
  | cons c s ih =>
    rw [wordsFrom_cons, h c (by simp)]
    simp only
    rw [ih fun e he => h e (by simp [he])]
    simp

theorem words_of_isWord {s : Text} (hs : isWord s) : words s = [s] := by
  obtain ⟨hne, h⟩ := hs
  cases s with
  | nil => exact absurd rfl hne
  | cons c r =>
    unfold words
    rw [wordsFrom_cons, h c (by simp)]
    simp only
    rw [wordsFrom_of_not_blank fun d hd => h d (by simp [hd])]
    rfl

end Text

namespace Line

/-! ## Tags -/

/-- What is written for a character stays in front of the tags. -/
theorem cutTags_written {c : Char} {w : Text} (h : w = ['\\', c] ∨ w = [c] ∧ Text.isMark c = false) (r : Text) :
    cutTags (w ++ r) = (w ++ (cutTags r).1, (cutTags r).2) := by
  rcases h with rfl | ⟨rfl, hm⟩
  · rfl
  · have hb : c ≠ '\\' := Text.ne_backslash_of_not_isMark hm
    have hh : c ≠ '#' := by rintro rfl; cases hm
    rw [List.singleton_append, cutTags]
    · rfl
    · rintro rfl; exact absurd rfl hb
    · rintro d t rfl; exact absurd rfl hb
    · exact hh

theorem cutTags_flatMap (s r : Text) :
    cutTags (s.flatMap Text.escapedChar ++ r) = (s.flatMap Text.escapedChar ++ (cutTags r).1, (cutTags r).2) := by
  induction s with
  | nil => rfl
  | cons c s ih => rw [List.flatMap_cons, List.append_assoc, cutTags_written (Text.escapedChar_cases c), ih]; simp

theorem cutTags_endGuard (s tags : Text) :
    cutTags (Text.endGuard s ++ ' ' :: '#' :: tags) = (Text.endGuard s ++ [' '], '#' :: tags) := by
  unfold Text.endGuard
  split
  · split <;> rfl
  · rfl

theorem cutTags_escape (s tags : Text) :
    cutTags (Text.escape s ++ ' ' :: '#' :: tags) = (Text.escape s ++ [' '], '#' :: tags) := by
  cases s with
  | nil => rfl
  | cons c r =>
    have hc : Text.escapedFirst c = ['\\', c] ∨ Text.escapedFirst c = [c] ∧ Text.isMark c = false :=
      (Text.escapedFirst_cases c).imp_right fun h => ⟨h.1, h.2.1⟩
    rw [Text.escape_cons, List.append_assoc, cutTags_written hc, List.append_assoc, cutTags_flatMap, cutTags_endGuard]
    simp

theorem mem_of_mem_cutTags {s : Text} {c : Char} (h : c ∈ (cutTags s).1) : c ∈ s := by
  fun_induction cutTags s with
  | case1 => exact h
  | case2 => exact h
  | case3 d r text tags heq ih =>
    rw [heq] at ih
    simp only [List.mem_cons] at h ⊢
    exact h.imp_right (Or.imp_right ih)
  | case4 => simp at h
  | case5 d r _ _ _ text tags heq ih =>
    rw [heq] at ih
    simp only [List.mem_cons] at h ⊢
    exact h.imp_right ih

theorem tagId?_line {id : Text} (h : Text.isWord id) : tagId? ("#line:".toList ++ id) = some id := by
  have hw : Text.words ("#line:".toList ++ id) = ["#line:".toList ++ id] := by
    refine Text.words_of_isWord ⟨by simp, ?_⟩
    intro c hc
    rcases List.mem_append.1 hc with hc | hc
    · exact Text.not_blank_of_all (s := "#line:".toList) (by decide) c hc
    · exact h.2 c hc
  rw [tagId?, hw]
  simp only [List.filterMap_cons, Text.after?_append, List.filterMap_nil, List.find?_cons]
  cases id with
  | nil => exact absurd rfl h.1
  | cons c r => rfl

/-! ## The line -/

theorem choice_eq (text id : Text) :
    choice text id = '-' :: '>' :: ' ' :: (Text.escape text ++ ' ' :: '#' :: ("line:".toList ++ id)) := by
  unfold choice; simp

theorem choice?_choice {text id : Text} (hid : Text.isWord id) :
    choice? (choice text id) = some (text, some id) := by
  have hcut : cutTags (' ' :: (Text.escape text ++ ' ' :: '#' :: ("line:".toList ++ id))) =
      (' ' :: (Text.escape text ++ [' ']), "#line:".toList ++ id) := by
    rw [cutTags]
    · rw [cutTags_escape]; rfl
    all_goals simp
  have htrim : Text.trim (' ' :: (Text.escape text ++ [' '])) = Text.escape text := by
    have h1 := Text.trim_blank_append (b := [' ']) (by simp [Text.isBlank]) (Text.escape text ++ [' '])
    have h2 := Text.trim_append_blank (b := [' ']) (by simp [Text.isBlank]) (Text.escape text)
    exact h1.trans (h2.trans (Text.trim_escape text))
  have htag := tagId?_line hid
  rw [choice_eq]
  simp only [choice?, Text.after?, if_true, Option.map_some, hcut, htrim, htag, Text.unescape_escape]

theorem trim_choice {text id : Text} (hid : Text.isWord id) : Text.trim (choice text id) = choice text id := by
  unfold choice
  exact Text.trim_append_of_solid rfl (Text.ends_of_not_blank hid.1 hid.2).2

theorem newline_not_mem_choice {text id : Text} (ht : '\n' ∉ text) (hid : Text.isWord id) :
    '\n' ∉ choice text id := by
  have h1 := Text.newline_not_mem_escape ht
  have h2 := Text.newline_not_mem_of_isWord hid
  unfold choice
  simp [h1, h2]

theorem not_blank_of_mem_wordsFrom {s w : Text} (run : Text) (hr : ∀ c ∈ run, Text.isBlank c = false)
    (h : w ∈ Text.wordsFrom run s) :
    ∀ c ∈ w, Text.isBlank c = false := by
  induction s generalizing run with
  | nil =>
    unfold Text.wordsFrom at h
    split at h
    · cases h
    · rw [List.mem_singleton.1 h]
      exact fun c hc => hr c (List.mem_reverse.1 hc)
  | cons d s ih =>
    rw [Text.wordsFrom_cons] at h
    split at h
    · exact ih [] (by simp) h
    · rcases List.mem_cons.1 h with rfl | h
      · exact fun c hc => hr c (List.mem_reverse.1 hc)
      · exact ih [] (by simp) h
    · next hb =>
      refine ih _ ?_ h
      intro c hc
      rcases List.mem_cons.1 hc with rfl | hc
      · exact hb
      · exact hr c hc

/-- The id that a tag carries is a word. -/
theorem isWord_of_tagId? {tags id : Text} (h : tagId? tags = some id) : Text.isWord id := by
  have hne := List.find?_some h
  obtain ⟨w, hw, hafter⟩ := List.mem_filterMap.1 (List.mem_of_find?_eq_some h)
  have hb := not_blank_of_mem_wordsFrom [] (by simp) hw
  rw [Text.eq_append_of_after? hafter] at hb
  exact ⟨by simpa using hne, fun c hc => hb c (List.mem_append_right _ hc)⟩

theorem isWord_of_choice? {line text id : Text} (h : choice? line = some (text, some id)) : Text.isWord id := by
  obtain ⟨rest, -, he⟩ := Option.map_eq_some_iff.1 h
  exact isWord_of_tagId? (Prod.mk.inj he).2

theorem newline_not_mem_of_choice? {line text : Text} {id : Option Text} (h : choice? line = some (text, id))
    (hl : '\n' ∉ line) : '\n' ∉ text := by
  obtain ⟨rest, hr, he⟩ := Option.map_eq_some_iff.1 h
  obtain ⟨rfl, -⟩ := Prod.mk.inj he
  rw [Text.eq_append_of_after? hr] at hl
  intro hm
  refine hl (List.mem_append_right _ (mem_of_mem_cutTags ?_))
  exact (Text.trim_sublist _).subset (Text.mem_of_mem_unescape hm)

/-- Whatever the text is, a choice line is read back as its text and its id if the id is a word, and only then; trimming
the line makes no difference. -/
theorem choice?_choice_iff (text id : Text) :
    (choice? (choice text id) = some (text, some id) ↔ Text.isWord id) ∧
    (choice? (Text.trim (choice text id)) = some (text, some id) ↔ Text.isWord id) := by
  refine ⟨⟨isWord_of_choice?, choice?_choice⟩, ⟨isWord_of_choice?, fun hid => ?_⟩⟩
  rw [trim_choice hid]
  exact choice?_choice hid

/-- The backslash that guards the last space stands in front of the space of the tag. -/
example : choice " #line:x \\ ".toList "c#1".toList = "-> \\ \\#line:x \\\\ \\ #line:c#1".toList := by decide

end Line
end DialogueScript
