import DialogueScript.Proofs.Text.Trim
import DialogueScript.Text.Escape
/-!
# Escaped text survives trimming

An escaped text starts with a backslash or with a character that means nothing, and its ends are guarded, so
trimming leaves it as it is and it stays on the line it is written on.

Results:
* `startsSolid_escape`, `endsSolid_escape`, `trim_escape`: the ends of an escaped text are solid.
* `head_escape`: how an escaped text can start.
* `newline_not_mem_escape`: an escaped line is one line.
-/
namespace DialogueScript.Text

theorem escape_cons (c : Char) (r : Text) :
    escape (c :: r) = escapedFirst c ++ (r.flatMap escapedChar ++ endGuard (c :: r)) := by
  rw [escape, List.append_assoc]

theorem escape_ne_nil {s : Text} (h : s ≠ []) : escape s ≠ [] := by
  intro he
  have := unescape_escape s
  rw [he] at this
  exact h this.symm

theorem escapedFirst_cases (c : Char) :
    escapedFirst c = ['\\', c] ∨ escapedFirst c = [c] ∧ isMark c = false ∧ isBlank c = false := by
  unfold escapedFirst
  split
  · exact .inl rfl
  · next h => exact .inr ⟨rfl, by simpa using h⟩

theorem escapedChar_cases (c : Char) : escapedChar c = ['\\', c] ∨ escapedChar c = [c] ∧ isMark c = false := by
  unfold escapedChar
  split
  · exact .inl rfl
  · next h => exact .inr ⟨rfl, by simpa using h⟩

theorem getLast?_escapedFirst (c : Char) : (escapedFirst c).getLast? = some c := by
  rcases escapedFirst_cases c with h | ⟨h, -⟩ <;> rw [h] <;> rfl

theorem getLast?_escapedChar (c : Char) : (escapedChar c).getLast? = some c := by
  rcases escapedChar_cases c with h | ⟨h, -⟩ <;> rw [h] <;> rfl

theorem getLast?_flatMap_escapedChar (s : Text) : (s.flatMap escapedChar).getLast? = s.getLast? := by
  induction s with
  | nil => rfl
  | cons c s ih =>
    rw [List.flatMap_cons, List.getLast?_append, ih, getLast?_escapedChar, List.getLast?_cons]
    cases s.getLast? <;> rfl

/-- The first character of an escaped text is a backslash, or it has no meaning and is not blank. -/
theorem head_escape {s e : Text} {c : Char} (h : escape s = c :: e) :
    c = '\\' ∨ isMark c = false ∧ isBlank c = false := by
  cases s with
  | nil => simp [escape] at h
  | cons d r =>
    rw [escape_cons] at h
    rcases escapedFirst_cases d with hd | ⟨hd, hm⟩ <;> rw [hd] at h
    · simp only [List.cons_append, List.cons.injEq] at h; exact .inl h.1.symm
    · simp only [List.cons_append, List.cons.injEq] at h; obtain ⟨rfl, -⟩ := h; exact .inr hm

theorem startsSolid_escape {s : Text} (h : s ≠ []) : startsSolid (escape s) := by
  cases he : escape s with
  | nil => exact absurd he (escape_ne_nil h)
  | cons c e =>
    rcases head_escape he with rfl | ⟨-, hb⟩
    · rfl
    · simp [hb]

theorem endsSolid_escape {s : Text} (h : s ≠ []) : endsSolid (escape s) := by
  cases s with
  | nil => exact absurd rfl h
  | cons c r =>
    have hlast : (escapedFirst c ++ r.flatMap escapedChar).getLast? = (c :: r).getLast? := by
      rw [List.getLast?_append, getLast?_flatMap_escapedChar, getLast?_escapedFirst, List.getLast?_cons]
      cases r.getLast? <;> rfl
    obtain ⟨d, hd⟩ : ∃ d, (c :: r).getLast? = some d := ⟨_, List.getLast?_eq_some_getLast (by simp)⟩
    rw [escape, endGuard, hd]
    by_cases hb : isBlank d
    · simp only [hb, if_true]
      exact endsSolid_append rfl _
    · simp only [hb, if_false, Bool.false_eq_true, List.append_nil, endsSolid, hlast, hd]
      simpa using hb

theorem trim_escape (s : Text) : trim (escape s) = escape s := by
  by_cases h : s = []
  · subst h; rfl
  · exact trim_of_solid (startsSolid_escape h) (endsSolid_escape h)

theorem mem_escapedFirst {c x : Char} (h : x ∈ escapedFirst c) : x = '\\' ∨ x = c := by
  rcases escapedFirst_cases c with e | ⟨e, -⟩ <;> rw [e] at h
  · simpa using h
  · exact .inr (List.mem_singleton.1 h)

theorem mem_escapedChar {c x : Char} (h : x ∈ escapedChar c) : x = '\\' ∨ x = c := by
  rcases escapedChar_cases c with e | ⟨e, -⟩ <;> rw [e] at h
  · simpa using h
  · exact .inr (List.mem_singleton.1 h)

theorem mem_escape {s : Text} {c : Char} (h : c ∈ escape s) : c = '\\' ∨ c ∈ s := by
  cases s with
  | nil => simp [escape] at h
  | cons d r =>
    rw [escape_cons, List.mem_append, List.mem_append, List.mem_flatMap] at h
    rcases h with h | ⟨x, hx, h⟩ | h
    · exact (mem_escapedFirst h).imp_right fun e => by simp [e]
    · exact (mem_escapedChar h).imp_right fun e => by simp [e, hx]
    · unfold endGuard at h
      split at h
      · split at h <;> simp at h; exact .inl h
      · simp at h

theorem newline_not_mem_escape {s : Text} (h : '\n' ∉ s) : '\n' ∉ escape s := fun hm =>
  (mem_escape hm).elim (by decide) h

/-- Characters that are no backslash are not touched by unescaping. -/
theorem unescape_append_of_ne {s : Text} (h : '\\' ∉ s) (t : Text) : unescape (s ++ t) = s ++ unescape t := by
  induction s with
  | nil => rfl
  | cons c s ih =>
    rw [List.mem_cons, not_or] at h
    rw [List.cons_append, unescape_cons_of_ne (Ne.symm h.1), ih h.2, List.cons_append]

theorem mem_of_mem_unescape {s : Text} {c : Char} (h : c ∈ unescape s) : c ∈ s := by
  fun_induction unescape s with
  | case1 => exact h
  | case2 => simp at h
  | case3 d r ih =>
    rcases List.mem_cons.1 h with rfl | h
    · simp
    · simp [ih h]
  | case4 d r _ _ ih =>
    rcases List.mem_cons.1 h with rfl | h
    · simp
    · simp [ih h]

end DialogueScript.Text
