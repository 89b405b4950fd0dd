import DialogueScript.Text.Lines
/-!
# Trimmed texts and written lines

Lines are trimmed when they are read, so what is written has to survive trimming. A text does when it
starts and ends with a character that is not blank; both halves are decided by the parts that a line is put
together from.

Results:
* `trim_of_solid`: a text with solid ends is its own trim.
* `trim_blank_append`, `trim_append_blank`: blank characters beside a text are trimmed away.
* `trim_trim`, `mem_trim`: a trimmed text has nothing to lose, and characters that are not blank are kept.
* `remainder?_eq_some_iff`: when a text has a remainder.
* `lines_written`: lines that are each ended by a newline are read back.
-/
namespace DialogueScript.Text

/-- The first character is there and not blank. -/
def startsSolid (s : Text) : Bool := s.head?.any (!isBlank ·)

/-- The last character is there and not blank. -/
def endsSolid (s : Text) : Bool := s.getLast?.any (!isBlank ·)

/-! ## Ends -/

@[simp] theorem startsSolid_cons (c : Char) (s : Text) : startsSolid (c :: s) = !isBlank c := by simp [startsSolid]

theorem startsSolid_append {s : Text} (h : startsSolid s) (t : Text) : startsSolid (s ++ t) := by
  cases s with
  | nil => simp [startsSolid] at h
  | cons c r => simpa using h

theorem endsSolid_append {t : Text} (h : endsSolid t) (s : Text) : endsSolid (s ++ t) := by
  unfold endsSolid at h ⊢
  cases ht : t.getLast? with
  | none => simp [ht] at h
  | some c => simpa [ht] using h

theorem endsSolid_append_cons (s : Text) (c : Char) (t : Text) : endsSolid (s ++ c :: t) = endsSolid (c :: t) := by
  simp [endsSolid, List.getLast?_append, List.getLast?_cons]

theorem endsSolid_cons {s : Text} (h : endsSolid s) (c : Char) : endsSolid (c :: s) :=
  endsSolid_append h [c]

/-- For a text that is given, that it has no blank character can be computed. -/
theorem not_blank_of_all {s : Text} (h : s.all (!isBlank ·)) : ∀ c ∈ s, isBlank c = false := by
  simpa using h

theorem ends_of_not_blank {s : Text} (hne : s ≠ []) (h : ∀ c ∈ s, isBlank c = false) :
    startsSolid s ∧ endsSolid s := by
  constructor
  · cases s with
    | nil => exact absurd rfl hne
    | cons c r => simp [h c (by simp)]
  · unfold endsSolid
    rw [List.getLast?_eq_some_getLast hne]
    simp [h _ (List.getLast_mem hne)]

theorem ne_nil_of_startsSolid {s : Text} (h : startsSolid s) : s ≠ [] := by
  rintro rfl; simp [startsSolid] at h

/-! ## Trimming -/

theorem trimEnd_append_blank {b : Text} (hb : ∀ c ∈ b, isBlank c) (s : Text) : trimEnd (s ++ b) = trimEnd s := by
  induction s with
  | nil =>
    induction b with
    | nil => rfl
    | cons c b ih =>
      have := ih fun d hd => hb d (by simp [hd])
      simp only [List.nil_append] at this ⊢
      rw [trimEnd_cons, this]
      simp [trimEnd, hb c (by simp)]
  | cons c s ih => rw [List.cons_append, trimEnd_cons, trimEnd_cons, ih]

theorem trimEnd_concat {c : Char} (hc : isBlank c = false) (s : Text) : trimEnd (s ++ [c]) = s ++ [c] := by
  induction s with
  | nil => simp [trimEnd, hc]
  | cons d s ih => rw [List.cons_append, trimEnd_cons, ih]; simp

theorem trimEnd_of_endsSolid {s : Text} (h : endsSolid s) : trimEnd s = s := by
  unfold endsSolid at h
  cases hs : s.getLast? with
  | none => simp [hs] at h
  | some c =>
    obtain ⟨r, rfl⟩ := List.getLast?_eq_some_iff.1 hs
    exact trimEnd_concat (by simpa [hs] using h) r

theorem trimStart_of_startsSolid {s : Text} (h : startsSolid s) : trimStart s = s := by
  cases s with
  | nil => rfl
  | cons c r => simp only [startsSolid_cons, Bool.not_eq_true'] at h; simp [trimStart, h]

theorem trimStart_blank_append {b : Text} (hb : ∀ c ∈ b, isBlank c) (s : Text) :
    trimStart (b ++ s) = trimStart s := List.dropWhile_append_of_pos hb

theorem trim_of_solid {s : Text} (hs : startsSolid s) (he : endsSolid s) : trim s = s := by
  rw [trim, trimStart_of_startsSolid hs, trimEnd_of_endsSolid he]

theorem trim_append_of_solid {s t : Text} (hs : startsSolid s) (ht : endsSolid t) : trim (s ++ t) = s ++ t :=
  trim_of_solid (startsSolid_append hs t) (endsSolid_append ht s)

theorem trim_of_not_blank {s : Text} (h : ∀ c ∈ s, isBlank c = false) : trim s = s := by
  by_cases hne : s = []
  · subst hne; rfl
  · exact trim_of_solid (ends_of_not_blank hne h).1 (ends_of_not_blank hne h).2

theorem trim_blank_append {b : Text} (hb : ∀ c ∈ b, isBlank c) (s : Text) : trim (b ++ s) = trim s := by
  rw [trim, trimStart_blank_append hb, ← trim]

theorem trim_append_blank {b : Text} (hb : ∀ c ∈ b, isBlank c) (s : Text) : trim (s ++ b) = trim s := by
  unfold trim trimStart
  rw [List.dropWhile_append]
  split
  · next h =>
    rw [List.isEmpty_iff] at h
    have hn : b.dropWhile isBlank = [] := by
      have : (b ++ []).dropWhile isBlank = List.dropWhile isBlank [] := List.dropWhile_append_of_pos hb
      simpa using this
    rw [h, hn]
  · exact trimEnd_append_blank hb _

theorem trim_trimStart (s : Text) : trim (trimStart s) = trim s := by
  have hsplit : s.takeWhile isBlank ++ trimStart s = s := List.takeWhile_append_dropWhile
  have hblank : ∀ c ∈ s.takeWhile isBlank, isBlank c := List.all_eq_true.1 List.all_takeWhile
  rw [← trim_blank_append hblank (trimStart s), hsplit]

theorem trim_of_endsSolid {s : Text} (h : endsSolid s) : trim s = trimStart s := by
  have hsplit : s.takeWhile isBlank ++ trimStart s = s := List.takeWhile_append_dropWhile
  unfold trim
  cases hs : trimStart s with
  | nil => rfl
  | cons c r =>
    rw [hs] at hsplit
    rw [← hsplit, endsSolid_append_cons] at h
    exact trimEnd_of_endsSolid h

theorem endsSolid_trimEnd {s : Text} (h : trimEnd s ≠ []) : endsSolid (trimEnd s) := by
  induction s with
  | nil => exact absurd rfl h
  | cons c s ih =>
    rw [trimEnd_cons] at h ⊢
    split at h
    · exact absurd rfl h
    · next hc =>
      rw [if_neg hc]
      cases hs : trimEnd s with
      | nil => simpa [hs, endsSolid] using hc
      | cons d r =>
        rw [← hs]
        exact endsSolid_cons (ih (by simp [hs])) c

theorem trimEnd_append {s : Text} (h : trimEnd s ≠ []) (p : Text) : trimEnd (p ++ s) = p ++ trimEnd s := by
  induction p with
  | nil => rfl
  | cons c p ih =>
    rw [List.cons_append, trimEnd_cons, ih, if_neg (by simp [h])]
    rfl

theorem trimStart_trimEnd (s : Text) : trimStart (trimEnd s) = trim s := by
  induction s with
  | nil => rfl
  | cons c s ih =>
    by_cases hc : isBlank c
    · have htrim : trim (c :: s) = trim s := trim_blank_append (b := [c]) (by simp [hc]) s
      rw [htrim, ← ih, trimEnd_cons]
      by_cases hs : trimEnd s = []
      · rw [hs]; simp [hc]
      · rw [if_neg (by simp [hs])]
        exact trimStart_blank_append (b := [c]) (by simp [hc]) (trimEnd s)
    · have hsolid : ∀ r, trimStart (c :: r) = c :: r := fun r => trimStart_of_startsSolid (by simpa using hc)
      rw [trim, hsolid, trimEnd_cons, if_neg (by simp [hc]), hsolid]

theorem trim_append {p s : Text} (hp : startsSolid p) (hs : trim s ≠ []) : trim (p ++ s) = p ++ trimEnd s := by
  have hne : trimEnd s ≠ [] := by
    intro h
    rw [← trimStart_trimEnd, h] at hs
    exact hs rfl
  rw [trim, trimStart_of_startsSolid (startsSolid_append hp s), trimEnd_append hne]

theorem endsSolid_trim {s : Text} (h : trim s ≠ []) : endsSolid (trim s) := endsSolid_trimEnd h

theorem startsSolid_trim {s : Text} (h : trim s ≠ []) : startsSolid (trim s) := by
  have hhead := List.head?_dropWhile_not isBlank s
  unfold trim at h ⊢
  cases hs : trimStart s with
  | nil => rw [hs] at h; exact absurd rfl h
  | cons c r =>
    rw [hs, trimEnd_cons] at h
    rw [← trimStart, hs] at hhead
    split at h
    · exact absurd rfl h
    · next hc =>
      rw [trimEnd_cons, if_neg hc]
      simpa using hhead

theorem trim_trim (s : Text) : trim (trim s) = trim s := by
  by_cases h : trim s = []
  · rw [h]; rfl
  · exact trim_of_solid (startsSolid_trim h) (endsSolid_trim h)

theorem isPrefix_trimEnd (s : Text) : trimEnd s <+: s := by
  induction s with
  | nil => exact List.prefix_refl _
  | cons c s ih =>
    rw [trimEnd_cons]
    split
    · exact List.nil_prefix
    · exact (List.prefix_cons_inj c).2 ih

theorem mem_trim {s : Text} {c : Char} (hm : c ∈ s) (hc : isBlank c = false) : c ∈ trim s := by
  have hstart : c ∈ trimStart s := by
    rw [← List.takeWhile_append_dropWhile (p := isBlank) (l := s)] at hm
    rcases List.mem_append.1 hm with hm | hm
    · have hb := List.all_eq_true.1 List.all_takeWhile c hm
      rw [hc] at hb
      cases hb
    · exact hm
  unfold trim
  generalize trimStart s = r at hstart
  induction r with
  | nil => cases hstart
  | cons d r ih =>
    rw [trimEnd_cons]
    rcases List.mem_cons.1 hstart with rfl | hr
    · simp [hc]
    · have hmem := ih hr
      rw [if_neg fun h => List.ne_nil_of_mem hmem h.1]
      exact List.mem_cons_of_mem d hmem

theorem trimEnd_sublist (s : Text) : (trimEnd s).Sublist s := (isPrefix_trimEnd s).sublist

theorem trim_sublist (s : Text) : (trim s).Sublist s :=
  (trimEnd_sublist _).trans (List.dropWhile_sublist _)

/-! ## Remainders -/

theorem remainder?_eq_some_iff {s r : Text} : remainder? s = some r ↔ r = trimStart s ∧ r ≠ [] ∧ '\n' ∉ r := by
  unfold remainder?
  dsimp only
  split
  · next h =>
    refine iff_of_false nofun ?_
    intro hr
    obtain ⟨rfl, hne, hn⟩ := hr
    simp [hne, hn] at h
  · next h =>
    simp only [Bool.or_eq_true, List.isEmpty_iff, List.contains_iff_mem, not_or] at h
    constructor
    · intro he; cases he; exact ⟨rfl, h⟩
    · intro hr; rw [hr.1]

/-- A remainder goes to the end of its text. -/
theorem remainder?_of_endsSolid {s : Text} (h : endsSolid s) (hn : '\n' ∉ trim s) : remainder? s = some (trim s) := by
  refine remainder?_eq_some_iff.2 ⟨trim_of_endsSolid h, ?_, hn⟩
  rw [trim_of_endsSolid h]
  intro hnil
  have hall : s.takeWhile isBlank = s := by
    have hsplit : s.takeWhile isBlank ++ trimStart s = s := List.takeWhile_append_dropWhile
    rwa [hnil, List.append_nil] at hsplit
  have hblank : ∀ c ∈ s, isBlank c := by
    rw [← hall]
    exact List.all_eq_true.1 List.all_takeWhile
  unfold endsSolid at h
  cases hs : s.getLast? with
  | none => simp [hs] at h
  | some c => simp [hs, hblank c (List.mem_of_getLast? hs)] at h

/-- What holds a newline is no remainder. -/
theorem remainder?_eq_none {s : Text} (h : '\n' ∈ trimStart s) : remainder? s = none := by
  cases hr : remainder? s with
  | none => rfl
  | some r =>
    obtain ⟨rfl, -, hn⟩ := remainder?_eq_some_iff.1 hr
    exact absurd h hn

/-! ## Lines -/

theorem lines_append_newline {t : Text} (ht : '\n' ∉ t) (s : Text) : lines (t ++ '\n' :: s) = t :: lines s := by
  induction t with
  | nil => simp [lines]
  | cons c t ih =>
    rw [List.mem_cons, not_or] at ht
    rw [List.cons_append, lines, if_neg (Ne.symm ht.1), ih ht.2]

theorem lines_written {ls : List Text} (h : ∀ l ∈ ls, '\n' ∉ l) : lines (ls.flatMap (· ++ ['\n'])) = ls := by
  induction ls with
  | nil => rfl
  | cons l ls ih =>
    rw [List.flatMap_cons, List.append_assoc, List.singleton_append, lines_append_newline (h l (by simp)),
      ih fun x hx => h x (by simp [hx])]

end DialogueScript.Text
