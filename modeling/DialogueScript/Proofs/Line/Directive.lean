import DialogueScript.Line.Directive
import DialogueScript.Proofs.Text.Name
/-!
# Directives are read back

Each attribute is written behind one space, its key ends at `=`, and its value either is quoted or has no
blank character, so reading finds the same key, the same value and the rest of the line. What is read has
well-formed keys, whoever wrote it.

Results:
* `directive?_line`: a written directive is read back with its attributes in order.
* `trim_line`, `newline_not_mem_line`: a written directive is one line that trimming leaves as it is.
* `isWritable_of_directive?`: a directive that was read has a name and keys that can be written.
* `directive?_line_iff`: which directives are read back from their lines.
-/
namespace DialogueScript

namespace Directive

/-- The name and all keys can be written. -/
def isWritable (d : Directive) : Bool :=
  Text.isAttributeKey d.name && d.attributes.all fun a => Text.isAttributeKey a.1

theorem isWritable_iff {d : Directive} :
    d.isWritable ↔ Text.isAttributeKey d.name ∧ ∀ a ∈ d.attributes, Text.isAttributeKey a.1 := by
  simp [isWritable]

/-! ## One attribute -/

theorem endsKey_of_isIdChar {c : Char} (h : Text.isIdChar c) : endsKey c = false := by
  rw [endsKey, Text.isBlank_of_isIdChar h, Bool.or_false, beq_eq_false_iff_ne]
  rintro rfl; cases h

theorem not_blank_of_not_needsQuotes {v : Text} (h : needsQuotes v = false) :
    v ≠ [] ∧ ∀ c ∈ v, Text.isBlank c = false ∧ c ≠ '"' ∧ c ≠ '\\' := by
  simp only [needsQuotes, Bool.or_eq_false_iff, List.isEmpty_eq_false_iff, List.any_eq_false,
    Bool.or_eq_true, beq_iff_eq, not_or, Bool.not_eq_true] at h
  exact ⟨h.1, fun c hc => ⟨(h.2 c hc).1.1, (h.2 c hc).1.2, (h.2 c hc).2⟩⟩

/-- What follows a value on its line: nothing, or the space in front of the next attribute. -/
def isTail (rest : Text) : Prop := rest = [] ∨ ∃ r, rest = ' ' :: r

theorem word_append_tail {w rest : Text} (hw : ∀ c ∈ w, Text.isBlank c = false) (hr : isTail rest) :
    (w ++ rest).takeWhile (!Text.isBlank ·) = w ∧ (w ++ rest).dropWhile (!Text.isBlank ·) = rest := by
  have hw' : ∀ c ∈ w, (!Text.isBlank c) = true := fun c hc => by simp [hw c hc]
  rw [List.takeWhile_append_of_pos hw', List.dropWhile_append_of_pos hw']
  rcases hr with rfl | ⟨r, rfl⟩
  · simp
  · simp [show Text.isBlank ' ' = true from rfl]

theorem readValue_valueText (key v : Text) {rest : Text} (hr : isTail rest) :
    readValue key (valueText v ++ rest) = .ok (v, rest) := by
  unfold valueText
  split
  · rw [Text.quote, List.cons_append, List.append_assoc, List.singleton_append, readValue, Text.quoted?_body]
  · next h =>
    obtain ⟨hne, hv⟩ := not_blank_of_not_needsQuotes (by simpa using h)
    obtain ⟨ht, hd⟩ := word_append_tail (fun c hc => (hv c hc).1) hr
    cases v with
    | nil => exact absurd rfl hne
    | cons c v =>
      have hq := (hv c (by simp)).2.1
      rw [readValue]
      · rw [ht, hd]
      · rintro r hcr; exact hq (List.cons.inj hcr).1

theorem readAttribute_written (name : Text) {key v rest : Text} (hk : Text.isAttributeKey key)
    (hr : isTail rest) : readAttribute name (key ++ '=' :: (valueText v ++ rest)) = .ok ((key, v), rest) := by
  have hkey : ∀ c ∈ key, (!endsKey c) = true := fun c hc => by
    simp [endsKey_of_isIdChar (Text.isIdChar_of_isAttributeKey hk c hc)]
  have heq : endsKey '=' = true := rfl
  unfold readAttribute
  rw [List.takeWhile_append_of_pos hkey, List.dropWhile_append_of_pos hkey]
  simp only [List.takeWhile_cons, List.dropWhile_cons, heq, Bool.not_true, Bool.false_eq_true, if_false,
    List.append_nil, hk, if_true, readValue_valueText key v hr]
  rfl

/-! ## All attributes -/

theorem attributesOf_eq (name s : Text) : attributesOf name s =
    match Text.trimStart s with
    | [] => .ok []
    | c :: r => match readAttribute name (c :: r) with
      | .error e => .error e
      | .ok (a, rest) => (attributesOf name rest).map (a :: ·) := by
  rw [attributesOf]
  split
  · next h => rw [h]
  · next c r h =>
    rw [h]
    split <;> simp [*]

theorem isTail_attributes (as : List (Text × Text)) : isTail (as.flatMap attributeText) := by
  cases as with
  | nil => exact .inl rfl
  | cons a as => exact .inr ⟨_, rfl⟩

theorem attributesOf_written (name : Text) {as : List (Text × Text)} (h : ∀ a ∈ as, Text.isAttributeKey a.1) :
    attributesOf name (as.flatMap attributeText) = .ok as := by
  induction as with
  | nil => rw [attributesOf_eq]; rfl
  | cons a as ih =>
    obtain ⟨key, v⟩ := a
    have hk : Text.isAttributeKey key := h (key, v) (by simp)
    obtain ⟨c, k, rfl⟩ := List.exists_cons_of_ne_nil (Text.ne_nil_of_shaped hk)
    have hc := Text.isBlank_of_isIdChar (Text.isIdChar_of_isAttributeKey hk c (by simp))
    have hs : Text.trimStart (((c :: k, v) :: as).flatMap attributeText) =
        (c :: k) ++ '=' :: (valueText v ++ as.flatMap attributeText) := by
      simp [Text.trimStart, attributeText, show Text.isBlank ' ' = true from rfl, hc]
    rw [attributesOf_eq, hs]
    simp only [List.cons_append]
    rw [← List.cons_append, readAttribute_written name hk (isTail_attributes as)]
    simp only [ih fun a ha => h a (by simp [ha])]
    rfl

theorem ofBody_written {d : Directive} (h : d.isWritable) :
    ofBody (d.name ++ d.attributes.flatMap attributeText) = .ok d := by
  obtain ⟨hn, ha⟩ := isWritable_iff.1 h
  obtain ⟨ht, hd⟩ := word_append_tail (Text.not_blank_of_isIdChar (Text.isIdChar_of_isAttributeKey hn))
    (isTail_attributes d.attributes)
  rw [ofBody, ht, hd, if_pos hn, attributesOf_written d.name ha]
  rfl

/-! ## The line -/

theorem line_eq (d : Directive) :
    d.line = '/' :: '/' :: ' ' :: '@' :: (d.name ++ d.attributes.flatMap attributeText) := by
  unfold line; simp

theorem directive?_line {d : Directive} (h : d.isWritable) : Line.directive? d.line = some (.ok d) := by
  rw [line_eq]
  simp only [Line.directive?, Text.after?, if_true, Option.map_some, Text.trimStart,
    List.dropWhile_cons, show Text.isBlank ' ' = true from rfl, show Text.isBlank '@' = false from rfl]
  exact congrArg some (ofBody_written h)

theorem endsSolid_valueText (v : Text) : Text.endsSolid (valueText v) := by
  unfold valueText
  split
  · exact Text.endsSolid_append rfl ('"' :: Text.quotedBody v)
  · next h =>
    obtain ⟨hne, hv⟩ := not_blank_of_not_needsQuotes (by simpa using h)
    exact (Text.ends_of_not_blank hne fun c hc => (hv c hc).1).2

theorem newline_not_mem_valueText (v : Text) : '\n' ∉ valueText v := by
  unfold valueText
  split
  · exact Text.newline_not_mem_quote v
  · next h =>
    intro hm
    have := ((not_blank_of_not_needsQuotes (by simpa using h)).2 _ hm).1
    cases this

theorem endsSolid_attributes {as : List (Text × Text)} (h : as ≠ []) :
    Text.endsSolid (as.flatMap attributeText) := by
  induction as with
  | nil => exact absurd rfl h
  | cons a as ih =>
    cases as with
    | nil =>
      simp only [List.flatMap_cons, List.flatMap_nil, List.append_nil]
      exact Text.endsSolid_cons (Text.endsSolid_append (Text.endsSolid_cons (endsSolid_valueText a.2) _) _) _
    | cons b bs => exact Text.endsSolid_append (ih (by simp)) _

theorem trim_line {d : Directive} (h : d.isWritable) : Text.trim d.line = d.line := by
  obtain ⟨hn, -⟩ := isWritable_iff.1 h
  have hname : Text.endsSolid d.name := by
    refine (Text.ends_of_not_blank (Text.ne_nil_of_shaped hn) ?_).2
    exact Text.not_blank_of_isIdChar (Text.isIdChar_of_isAttributeKey hn)
  apply Text.trim_of_solid rfl
  unfold line
  rw [List.append_assoc]
  refine Text.endsSolid_append ?_ _
  by_cases ha : d.attributes = []
  · simpa [ha] using hname
  · exact Text.endsSolid_append (endsSolid_attributes ha) _

theorem newline_not_mem_line {d : Directive} (h : d.isWritable) : '\n' ∉ d.line := by
  obtain ⟨hn, ha⟩ := isWritable_iff.1 h
  have h1 := Text.not_mem_of_isIdChar (Text.isIdChar_of_isAttributeKey hn) (d := '\n') rfl
  have h2 : ∀ a ∈ d.attributes, '\n' ∉ attributeText a := by
    rintro ⟨key, v⟩ hkv
    have := Text.not_mem_of_isIdChar (Text.isIdChar_of_isAttributeKey (ha _ hkv)) (d := '\n') rfl
    simp [attributeText, this, newline_not_mem_valueText]
  rw [line_eq]
  simp only [List.mem_cons, List.mem_append, List.mem_flatMap, not_or, not_exists, not_and]
  exact ⟨by decide, by decide, by decide, by decide, h1, h2⟩

/-! ## What was read has well-formed keys -/

theorem isAttributeKey_of_readAttribute {name s rest : Text} {a : Text × Text}
    (h : readAttribute name s = .ok (a, rest)) : Text.isAttributeKey a.1 := by
  unfold readAttribute at h
  split at h
  · next r hd =>
    dsimp only at h
    split at h
    · next hk =>
      cases hv : readValue (s.takeWhile (!endsKey ·)) r with
      | error e => simp [hv, Except.map] at h
      | ok p => simp only [hv, Except.map, Except.ok.injEq, Prod.mk.injEq] at h; rw [← h.1]; exact hk
    · cases h
  · cases h

theorem isAttributeKey_of_attributesOf {name s : Text} {as : List (Text × Text)}
    (h : attributesOf name s = .ok as) : ∀ a ∈ as, Text.isAttributeKey a.1 := by
  induction hn : s.length using Nat.strongRecOn generalizing s as with
  | ind n ih =>
    rw [attributesOf_eq] at h
    split at h
    · cases h; simp
    · next c r hs =>
      split at h
      · cases h
      · next a rest hr =>
        have hlt : rest.length < s.length := by
          have h1 := readAttribute_length_lt hr
          have h2 : (Text.trimStart s).length ≤ s.length := length_dropWhile_le _ _
          rw [hs] at h2; omega
        cases ho : attributesOf name rest with
        | error e => simp [ho, Except.map] at h
        | ok bs =>
          simp only [ho, Except.map, Except.ok.injEq] at h
          subst h
          intro b hb
          rcases List.mem_cons.1 hb with rfl | hb
          · exact isAttributeKey_of_readAttribute hr
          · exact ih rest.length (by omega) ho rfl b hb

/-- What is read from a line can be written. -/
theorem isWritable_of_directive? {l : Text} {d : Directive} (h : Line.directive? l = some (.ok d)) : d.isWritable := by
  unfold Line.directive? at h
  split at h
  · next body hb =>
    simp only [Option.some.injEq, ofBody] at h
    split at h
    · next hname =>
      cases ho : attributesOf (body.takeWhile (!Text.isBlank ·)) (body.dropWhile (!Text.isBlank ·)) with
      | error e => simp [ho, Except.map] at h
      | ok as =>
        simp only [ho, Except.map, Except.ok.injEq] at h
        subst h
        exact isWritable_iff.2 ⟨hname, isAttributeKey_of_attributesOf ho⟩
    · cases h
  · cases h

theorem isAttributeKey_of_directive? {l : Text} {d : Directive} (h : Line.directive? l = some (.ok d)) :
    ∀ a ∈ d.attributes, Text.isAttributeKey a.1 := (isWritable_iff.1 (isWritable_of_directive? h)).2

/-! ## Written and read -/

/-- A directive is written on one line without blank ends, and read back from it with all its attributes in order,
exactly when its name and its keys are well formed, whatever its values are. Every directive that was read from some line
is read back as well, however that line is spelled. -/
theorem directive?_line_iff (d : Directive) :
    ((Text.isAttributeKey d.name ∧ ∀ a ∈ d.attributes, Text.isAttributeKey a.1) ↔
      '\n' ∉ d.line ∧ Text.trim d.line = d.line ∧ Line.directive? d.line = some (.ok d)) ∧
    ∀ l, Line.directive? l = some (.ok d) → Line.directive? d.line = some (.ok d) := by
  rw [← isWritable_iff]
  refine ⟨⟨fun hd => ?_, fun hline => isWritable_of_directive? hline.2.2⟩, fun l hl => ?_⟩
  · exact ⟨newline_not_mem_line hd, trim_line hd, directive?_line hd⟩
  · exact directive?_line (isWritable_of_directive? hl)

/-- A directive with a key that repeats, and with values that cannot all be written as they are. -/
def knotted : Directive :=
  ⟨"graph".toList, [("id".toList, "tavern".toList), ("title".toList, "The \"Rusty\" \\ \r\n Tavern".toList),
    ("id".toList, []), ("x".toList, "a\u2003=b".toList)]⟩

/-- A line of that directive with other gaps, with quotes and backslashes that are not needed, and with nothing for the
empty value. -/
def looseLine : Text :=
  "//\t@graph   id=\"tav\\ern\"title=\"The \\\"Rusty\\\" \\\\ \r\\n Tavern\" id= x=\"a\u2003=b\" ".toList

theorem directive?_line_knotted : Line.directive? looseLine = some (.ok knotted) ∧ knotted.line ≠ looseLine ∧
    '\n' ∉ knotted.line ∧ Text.trim knotted.line = knotted.line ∧
    Line.directive? knotted.line = some (.ok knotted) := by
  obtain ⟨hwritten, hread⟩ := directive?_line_iff knotted
  have hloose : Line.directive? looseLine = some (.ok knotted) := by with_unfolding_all rfl
  obtain ⟨hnewline, htrim, -⟩ := hwritten.1 ⟨by decide, by decide⟩
  exact ⟨hloose, by decide, hnewline, htrim, hread looseLine hloose⟩

end Directive
end DialogueScript
