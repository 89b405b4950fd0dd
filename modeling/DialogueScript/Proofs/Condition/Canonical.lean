import DialogueScript.Proofs.Condition.Quote
/-!
# What a lenient reading keeps

A lenient reading keeps every clause that it understands, whatever the text around it. All that it keeps can be
written, and is read back from there with nothing dropped: the written form is a normal form, reached after one reading.
No clause is empty, neither one that is kept nor one that is dropped: a trimmed text has no blank at its ends, a cut
takes the blanks on both sides of it, and the word `and` cuts only in front of a blank, behind which more must follow.

Results:
* `ends_of_cut?`: the text behind a cut has no blank at its ends.
* `ne_nil_of_mem_clauses`: no clause is empty.
* `read_lenient_canonical`: what is kept and what is dropped, for any text.
-/
namespace DialogueScript.Condition

/-! ## The text behind a cut -/

/-- The text behind `and` is what a blank character is followed by, without more blanks. -/
theorem exists_blank_of_afterAnd? {s u : Text} (h : afterAnd? s = some u) :
    ∃ p b r, s = p ++ b :: r ∧ Text.isBlank b ∧ u = Text.trimStart r := by
  unfold afterAnd? at h
  split at h
  · cases h
  · next c w =>
    split at h
    · split at h
      · next a n d b r hr =>
        split at h
        · next hand =>
          cases h
          -- the blanks in front of the word are given back
          refine ⟨c :: w.takeWhile Text.isBlank ++ [a, n, d], b, r, ?_, hand.2, rfl⟩
          have hw : w = w.takeWhile Text.isBlank ++ Text.trimStart w := List.takeWhile_append_dropWhile.symm
          rw [hr] at hw
          rw [List.append_assoc, List.cons_append, List.cons.injEq]
          exact ⟨rfl, hw⟩
        · cases h
      · cases h
    · cases h

theorem exists_blank_of_cut? {q : Option Char} {s t u : Text} (h : cut? q s = some (t, u)) :
    ∃ p b r, s = p ++ b :: r ∧ Text.isBlank b ∧ u = Text.trimStart r := by
  -- a character that is passed over stands in front of the blank
  have hcons : ∀ (c : Char) {s : Text}, (∃ p b r, s = p ++ b :: r ∧ Text.isBlank b ∧ u = Text.trimStart r) →
      ∃ p b r, c :: s = p ++ b :: r ∧ Text.isBlank b ∧ u = Text.trimStart r := by
    rintro c s ⟨p, b, r, rfl, hb, hu⟩
    exact ⟨c :: p, b, r, rfl, hb, hu⟩
  fun_induction cut? q s generalizing t with
  | case1 => cases h
  | case2 q c r ih =>
    obtain ⟨⟨a, b⟩, hcut, he⟩ := Option.map_eq_some_iff.1 h
    cases he
    exact hcons '\\' (hcons c (ih hcut))
  | case3 q c r _ ih | case4 c r _ ih | case6 c r _ _ ih =>
    obtain ⟨⟨a, b⟩, hcut, he⟩ := Option.map_eq_some_iff.1 h
    cases he
    exact hcons c (ih hcut)
  | case5 c r _ v hv =>
    cases h
    exact exists_blank_of_afterAnd? hv

/-- A text that ends with a character that is not blank is not empty when it is trimmed. -/
theorem trim_ne_nil_of_endsSolid {s : Text} (h : Text.endsSolid s) : Text.trim s ≠ [] := by
  unfold Text.endsSolid at h
  cases hlast : s.getLast? with
  | none =>
    rw [hlast] at h
    cases h
  | some c =>
    rw [hlast] at h
    exact List.ne_nil_of_mem (Text.mem_trim (List.mem_of_getLast? hlast) (by simpa using h))

theorem trim_ne_nil_of_startsSolid {s : Text} (h : Text.startsSolid s) : Text.trim s ≠ [] := by
  cases s with
  | nil => cases h
  | cons c s => exact List.ne_nil_of_mem (Text.mem_trim (List.mem_cons_self ..) (by simpa using h))

/-- The text in front of a cut starts where the whole text does. -/
theorem startsSolid_of_cut? {s t u : Text} (hs : Text.startsSolid s) (h : cut? none s = some (t, u)) :
    Text.startsSolid t := by
  cases s with
  | nil => cases h
  | cons c s =>
    have hc : Text.isBlank c = false := by simpa using hs
    rw [cut?_none_cons (by simp [afterAnd?, hc])] at h
    obtain ⟨⟨a, b⟩, -, he⟩ := Option.map_eq_some_iff.1 h
    cases he
    exact hs

/-- The text behind a cut has no blank at its ends. -/
theorem ends_of_cut? {s t u : Text} (he : Text.endsSolid s) (h : cut? none s = some (t, u)) :
    Text.startsSolid u ∧ Text.endsSolid u := by
  obtain ⟨p, b, r, rfl, hb, rfl⟩ := exists_blank_of_cut? h
  have hr : Text.endsSolid r := by
    rw [Text.endsSolid_append_cons] at he
    cases r with
    | nil => simp [Text.endsSolid, hb] at he
    | cons c r => rwa [← List.singleton_append, Text.endsSolid_append_cons] at he
  have hne := trim_ne_nil_of_endsSolid hr
  rw [← Text.trim_of_endsSolid hr]
  exact ⟨Text.startsSolid_trim hne, Text.endsSolid_trim hne⟩

/-! ## Clauses are not empty -/

theorem ne_nil_of_mem_clausesFrom {s c : Text} (hs : Text.startsSolid s) (he : Text.endsSolid s)
    (h : c ∈ clausesFrom s) : c ≠ [] := by
  induction s using clausesFrom.induct with
  | case1 s t u hcut ih =>
    obtain ⟨hus, hue⟩ := ends_of_cut? he hcut
    rw [clausesFrom_eq, hcut] at h
    rcases List.mem_cons.1 h with rfl | h
    · exact trim_ne_nil_of_startsSolid (startsSolid_of_cut? hs hcut)
    · exact ih hus hue h
  | case2 s hcut =>
    rw [clausesFrom_eq, hcut] at h
    rw [List.mem_singleton.1 h]
    exact trim_ne_nil_of_startsSolid hs

theorem ne_nil_of_mem_clauses {s c : Text} (h : c ∈ clauses s) : c ≠ [] := by
  by_cases hne : Text.trim s = []
  · unfold clauses at h
    rw [hne] at h
    cases h
  · rw [clauses_of_trim_ne_nil hne] at h
    exact ne_nil_of_mem_clausesFrom (Text.startsSolid_trim hne) (Text.endsSolid_trim hne) h

/-! ## What is kept is a normal form -/

/-- A lenient reading of any text. It does not fail; it goes through clauses that are not empty, keeps the conditions
of those that state one, in order, and drops the others. Every condition that it keeps has a flag that is a name, is
well formed and holds no number other than a finite one, so it can be written. The written form of all that is kept is
read as the same conditions, strictly or not, and nothing of it is dropped. -/
theorem read_lenient_canonical (s : Text) :
    ∃ cs ds, read false s = .ok (cs, ds) ∧ (∀ t ∈ clauses s, t ≠ []) ∧
      cs = (clauses s).filterMap clause? ∧ ds = ((clauses s).filter fun t => clause? t = none) ∧
      (∀ c ∈ cs, Text.isFlag c.flag ∧ c.isWellFormed ∧ ∀ l ∈ c.literal?, l.isFinite) ∧
      ∀ strict, read strict (joined cs) = .ok (cs, []) := by
  have hdropped : dropped s = (clauses s).filter fun t => clause? t = none :=
    List.filter_congr fun t _ => by cases clause? t <;> rfl
  refine ⟨kept s, dropped s, read_false s, fun t ht => ne_nil_of_mem_clauses ht, rfl, hdropped, ?_, ?_⟩
  · intro c hc
    exact writable_iff.1 (writable_of_kept c hc)
  · exact fun strict => read_joined strict writable_of_kept

end DialogueScript.Condition
