import DialogueScript.Text.Blank
/-!
# Lines

A newline ends a line of a script; a newline between two pieces separates the lines of a node's
content. The two differ on a final newline, so they are two functions.

Results:
* `pieces_join`: joining non-empty lists of pieces without newlines is undone by `pieces`.
* `join_pieces`: every text is its pieces joined.
* `lines_isPrefix_pieces`: lines are pieces, without the one behind a final newline.
-/
namespace DialogueScript.Text

/-- The lines of a text, each ended by a newline or by the end of the text. -/
def lines : Text → List Text
  | [] => []
  | c :: r => if c = '\n' then [] :: lines r else match lines r with
    -- a last line need not be ended
    | [] => [[c]]
    | l :: ls => (c :: l) :: ls

/-- The texts between newlines: one more than there are newlines. -/
def pieces : Text → List Text
  | [] => [[]]
  | c :: r => if c = '\n' then [] :: pieces r else match pieces r with
    | [] => [[c]]
    | l :: ls => (c :: l) :: ls

/-- The texts in order with `sep` between each two. -/
def joinWith (sep : Text) : List Text → Text
  | [] => []
  | [t] => t
  | t :: ts => t ++ sep ++ joinWith sep ts

/-- The texts in order, a newline between each two. -/
def joinLines (ts : List Text) : Text := joinWith ['\n'] ts

theorem joinWith_cons_cons (sep t u : Text) (ts : List Text) :
    joinWith sep (t :: u :: ts) = t ++ sep ++ joinWith sep (u :: ts) := rfl

theorem pieces_ne_nil (s : Text) : pieces s ≠ [] := by
  cases s with
  | nil => simp [pieces]
  | cons c r => rw [pieces]; split
                · simp
                · split <;> simp

theorem newline_not_mem_of_mem_pieces {s t : Text} (ht : t ∈ pieces s) : '\n' ∉ t := by
  induction s generalizing t with
  | nil => rw [List.mem_singleton.1 ht]; simp
  | cons c r ih =>
    rw [pieces] at ht
    split at ht
    · rcases List.mem_cons.1 ht with rfl | ht
      · simp
      · exact ih ht
    · next hc =>
      split at ht
      · rw [List.mem_singleton.1 ht]; simpa using Ne.symm hc
      · next p ps hp =>
        rw [hp] at ih
        rcases List.mem_cons.1 ht with rfl | ht
        · rw [List.mem_cons, not_or]
          exact ⟨Ne.symm hc, ih List.mem_cons_self⟩
        · exact ih (List.mem_cons_of_mem p ht)

theorem lines_eq_nil {s : Text} (h : lines s = []) : s = [] := by
  cases s with
  | nil => rfl
  | cons c r =>
    rw [lines] at h
    split at h
    · cases h
    · split at h <;> cases h

theorem lines_isPrefix_pieces (s : Text) : lines s <+: pieces s := by
  induction s with
  | nil => exact List.nil_prefix
  | cons c r ih =>
    rw [lines, pieces]
    split
    · exact (List.prefix_cons_inj []).2 ih
    · cases hl : lines r with
      | nil => rw [lines_eq_nil hl]; exact List.prefix_refl [[c]]
      | cons l ls =>
        rw [hl] at ih
        obtain ⟨ps, hp⟩ := ih
        rw [← hp]
        exact List.prefix_append ((c :: l) :: ls) ps

theorem newline_not_mem_of_mem_lines {s l : Text} (hl : l ∈ lines s) : '\n' ∉ l :=
  newline_not_mem_of_mem_pieces ((lines_isPrefix_pieces s).subset hl)

theorem joinLines_cons (t : Text) {ts : List Text} (h : ts ≠ []) :
    joinLines (t :: ts) = t ++ '\n' :: joinLines ts := by
  cases ts with
  | nil => exact absurd rfl h
  | cons u us => simp [joinLines, joinWith_cons_cons]

theorem join_pieces (s : Text) : joinLines (pieces s) = s := by
  induction s with
  | nil => rfl
  | cons c r ih =>
    rw [pieces]
    split
    · next h => rw [joinLines_cons _ (pieces_ne_nil r), ih, h]; rfl
    · split
      · next h => exact absurd h (pieces_ne_nil r)
      · next l ls h =>
        rw [h] at ih
        cases ls with
        | nil => rw [← ih]; rfl
        | cons m ms =>
          rw [joinLines_cons _ (by simp)] at ih ⊢
          rw [← ih]; rfl

theorem pieces_append_newline {t : Text} (ht : '\n' ∉ t) (s : Text) :
    pieces (t ++ '\n' :: s) = t :: pieces s := by
  induction t with
  | nil => simp [pieces]
  | cons c t ih =>
    rw [List.mem_cons, not_or] at ht
    rw [List.cons_append, pieces, if_neg (Ne.symm ht.1), ih ht.2]

theorem pieces_of_not_mem {t : Text} (ht : '\n' ∉ t) : pieces t = [t] := by
  induction t with
  | nil => rfl
  | cons c t ih =>
    rw [List.mem_cons, not_or] at ht
    rw [pieces, if_neg (Ne.symm ht.1), ih ht.2]

theorem pieces_join {ts : List Text} (hne : ts ≠ []) (h : ∀ t ∈ ts, '\n' ∉ t) :
    pieces (joinLines ts) = ts := by
  induction ts with
  | nil => exact absurd rfl hne
  | cons t ts ih =>
    cases ts with
    | nil => exact pieces_of_not_mem (h t (by simp))
    | cons u us =>
      rw [joinLines_cons _ (by simp), pieces_append_newline (h t (by simp)),
        ih (by simp) (fun x hx => h x (List.mem_cons_of_mem _ hx))]

end DialogueScript.Text
