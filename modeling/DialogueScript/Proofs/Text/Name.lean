import DialogueScript.Proofs.Text.Trim
import DialogueScript.Text.Name
/-!
# Names inside a line

All characters of a name are letters, digits, `_`, `.` and `-`. None of them is blank or has a meaning of its
own, so a name stays whole wherever it is written.

Results:
* `isBlank_of_isIdChar`: the characters of names are not blank.
* `name?_append`: a name is read up to the first character that cannot belong to it.
-/
namespace DialogueScript.Text

/-! ## Characters -/

theorem val_of_isUpper {c : Char} (h : c.isUpper) : 65 ≤ c.val.toNat ∧ c.val.toNat ≤ 90 := by
  obtain ⟨hl, hu⟩ : 'A'.val ≤ c.val ∧ c.val ≤ 'Z'.val := of_decide_eq_true h
  exact ⟨UInt32.le_iff_toNat_le.1 hl, UInt32.le_iff_toNat_le.1 hu⟩

theorem val_of_isLower {c : Char} (h : c.isLower) : 97 ≤ c.val.toNat ∧ c.val.toNat ≤ 122 := by
  obtain ⟨hl, hu⟩ := Bool.and_eq_true_iff.1 h
  exact ⟨UInt32.le_iff_toNat_le.1 (of_decide_eq_true hl), UInt32.le_iff_toNat_le.1 (of_decide_eq_true hu)⟩

theorem val_of_isDigit {c : Char} (h : c.isDigit) : 48 ≤ c.val.toNat ∧ c.val.toNat ≤ 57 := by
  obtain ⟨hl, hu⟩ := Bool.and_eq_true_iff.1 h
  exact ⟨UInt32.le_iff_toNat_le.1 (of_decide_eq_true hl), UInt32.le_iff_toNat_le.1 (of_decide_eq_true hu)⟩

theorem val_of_isAlphanum {c : Char} (h : c.isAlphanum) : 48 ≤ c.val.toNat ∧ c.val.toNat ≤ 122 := by
  rcases Bool.or_eq_true_iff.1 h with h | h
  · rcases Bool.or_eq_true_iff.1 h with h | h
    · have := val_of_isUpper h; omega
    · have := val_of_isLower h; omega
  · have := val_of_isDigit h; omega

theorem isBlank_of_val {c : Char} (h : 33 ≤ c.val.toNat ∧ c.val.toNat ≤ 126) : isBlank c = false := by
  simp only [isBlank, Bool.or_eq_false_iff, Bool.and_eq_false_iff, decide_eq_false_iff_not, beq_eq_false_iff_ne]
  omega

theorem isBlank_of_isIdChar {c : Char} (h : isIdChar c) : isBlank c = false := by
  simp only [isIdChar, isFlagChar, isWordChar, Bool.or_eq_true, beq_iff_eq] at h
  rcases h with ((h | h) | h) | h
  · have := val_of_isAlphanum h; exact isBlank_of_val (by omega)
  all_goals subst h; rfl

theorem isWordChar_of_isWordStart {c : Char} (h : isWordStart c) : isWordChar c := by
  simp only [isWordStart, isWordChar, Char.isAlphanum, Bool.or_eq_true] at h ⊢
  rcases h with h | h
  · exact .inl (.inl h)
  · exact .inr h

theorem isIdChar_of_isFlagChar {c : Char} (h : isFlagChar c) : isIdChar c := by simp [isIdChar, h]

theorem isFlagChar_of_isBlank {c : Char} (h : isBlank c) : isFlagChar c = false := by
  rw [Bool.eq_false_iff]
  intro hf
  rw [isBlank_of_isIdChar (isIdChar_of_isFlagChar hf)] at h
  cases h

/-- A flag ends at blank characters, or at a character that it cannot have. -/
theorem isFlagChar_head? {gap : Text} (hgap : ∀ c ∈ gap, isBlank c) {c : Char} (hc : isFlagChar c = false) (r : Text) :
    ∀ d ∈ (gap ++ c :: r).head?, isFlagChar d = false := by
  intro d hd
  cases gap with
  | nil => obtain rfl := Option.some.inj hd; exact hc
  | cons b gap => obtain rfl := Option.some.inj hd; exact isFlagChar_of_isBlank (hgap b (by simp))

theorem isIdChar_of_isWordChar {c : Char} (h : isWordChar c) : isIdChar c := by simp [isIdChar, isFlagChar, h]

theorem isIdChar_of_isWordStart {c : Char} (h : isWordStart c) : isIdChar c :=
  isIdChar_of_isWordChar (isWordChar_of_isWordStart h)

/-! ## Names -/

theorem ne_nil_of_shaped {first later : Char → Bool} {s : Text} (h : shaped first later s) : s ≠ [] := by
  rintro rfl; simp [shaped] at h

theorem isIdChar_of_shaped {first later : Char → Bool} {s : Text} (hf : ∀ c, first c → isIdChar c)
    (hl : ∀ c, later c → isIdChar c) (h : shaped first later s) : ∀ c ∈ s, isIdChar c := by
  cases s with
  | nil => simp
  | cons d r =>
    simp only [shaped, Bool.and_eq_true, List.all_eq_true] at h
    intro c hc
    rcases List.mem_cons.1 hc with rfl | hc
    · exact hf _ h.1
    · exact hl _ (h.2 c hc)

theorem isIdChar_of_isNodeId {s : Text} (h : isNodeId s) : ∀ c ∈ s, isIdChar c :=
  isIdChar_of_shaped (fun _ => isIdChar_of_isWordChar) (fun _ => id) h

theorem isIdChar_of_isSpeaker {s : Text} (h : isSpeaker s) : ∀ c ∈ s, isIdChar c :=
  isIdChar_of_shaped (fun _ => isIdChar_of_isWordStart) (fun _ => id) h

theorem isIdChar_of_isFlag {s : Text} (h : isFlag s) : ∀ c ∈ s, isIdChar c :=
  isIdChar_of_shaped (fun _ => isIdChar_of_isWordStart) (fun _ => isIdChar_of_isFlagChar) h

theorem isIdChar_of_isAttributeKey {s : Text} (h : isAttributeKey s) : ∀ c ∈ s, isIdChar c := by
  have key : ∀ c : Char, (c.isLower || c.isDigit || c == '_') = true → isIdChar c := by
    intro c hc
    apply isIdChar_of_isWordChar
    simp only [isWordChar, Char.isAlphanum, Bool.or_eq_true] at hc ⊢
    rcases hc with (hc | hc) | hc
    · exact .inl (.inl (Bool.or_eq_true_iff.2 (.inr hc)))
    · exact .inl (.inr hc)
    · exact .inr hc
  refine isIdChar_of_shaped (fun c hc => key c ?_) key h
  rw [Bool.or_eq_true] at hc
  rcases hc with hc | hc <;> simp [hc]

theorem not_mem_of_isIdChar {s : Text} (h : ∀ c ∈ s, isIdChar c) {d : Char} (hd : isIdChar d = false) : d ∉ s := by
  intro hm
  rw [h d hm] at hd
  cases hd

theorem not_blank_of_isIdChar {s : Text} (h : ∀ c ∈ s, isIdChar c) : ∀ c ∈ s, isBlank c = false :=
  fun c hc => isBlank_of_isIdChar (h c hc)

/-- A text that is not empty and has no blank characters. -/
def isWord (s : Text) : Prop := s ≠ [] ∧ ∀ c ∈ s, isBlank c = false

theorem isWord_of_isNodeId {s : Text} (h : isNodeId s) : isWord s :=
  ⟨ne_nil_of_shaped h, not_blank_of_isIdChar (isIdChar_of_isNodeId h)⟩

theorem newline_not_mem_of_isWord {s : Text} (h : isWord s) : '\n' ∉ s := fun hm => by cases h.2 _ hm

theorem isNodeId_ends {s : Text} (h : isNodeId s) : startsSolid s ∧ endsSolid s :=
  ends_of_not_blank (isWord_of_isNodeId h).1 (isWord_of_isNodeId h).2

theorem name?_append {first later : Char → Bool} {n rest : Text} (hn : shaped first later n)
    (hr : ∀ c ∈ rest.head?, later c = false) : name? first later (n ++ rest) = some (n, rest) := by
  cases n with
  | nil => simp [shaped] at hn
  | cons c r =>
    simp only [shaped, Bool.and_eq_true, List.all_eq_true] at hn
    have ht : rest.takeWhile later = [] := by
      cases rest with
      | nil => rfl
      | cons d t => simp [hr d (by simp)]
    have hd : rest.dropWhile later = rest := by
      cases rest with
      | nil => rfl
      | cons d t => simp [hr d (by simp)]
    simp only [List.cons_append, name?, hn.1, if_true, List.takeWhile_append_of_pos hn.2,
      List.dropWhile_append_of_pos hn.2, ht, hd, List.append_nil]

end DialogueScript.Text
