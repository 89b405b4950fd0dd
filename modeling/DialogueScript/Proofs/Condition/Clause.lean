import DialogueScript.Condition.Clause
import DialogueScript.Proofs.Decimal.Numeral
import DialogueScript.Proofs.Text.Name
/-!
# One condition is read back

The three written forms of a condition start with different characters or are told apart by what follows the
flag, and the written form of a literal is read as that literal: a text is always in quotes, so it is never
taken for a number or a truth value.

Results:
* `Literal.ofOperand_written`: a literal is read back from its written form.
* `clause?_text`: a condition that can be written is read back.
* `writable_of_clause?`: a clause that states a condition states one that can be written.
-/
namespace DialogueScript

/-! ## Literals -/

namespace Literal

/-- A literal is written on one line, with solid ends. -/
theorem written_ends {l : Literal} (h : l.isFinite) : Text.startsSolid l.written ∧ Text.endsSolid l.written := by
  cases l with
  | bool b => cases b <;> decide
  | number x =>
    apply Text.ends_of_not_blank (Binary64.text_ne_nil h)
    intro c hc
    exact Text.isBlank_of_isIdChar (Binary64.isIdChar_of_isNumeralChar (Binary64.isNumeralChar_of_mem_text h c hc))
  | text t => exact ⟨rfl, Text.endsSolid_append rfl ('"' :: Text.quotedBody t)⟩

theorem newline_not_mem_written {l : Literal} (h : l.isFinite) : '\n' ∉ l.written := by
  cases l with
  | bool b => cases b <;> decide
  | number x => intro hn; cases Binary64.isNumeralChar_of_mem_text h _ hn
  | text t => exact Text.newline_not_mem_quote t

/-- Quotes are in no numeral. -/
theorem isForeign_quote {c : Char} (h : c = '"' ∨ c = '\'') : Binary64.IsForeign c := by
  rcases h with rfl | rfl <;> exact ⟨rfl, by decide, by decide⟩

theorem read?_quote (t : Text) : Binary64.read? (Text.quote t) = none :=
  Binary64.read?_eq_none (isForeign_quote (.inl rfl)) List.mem_cons_self

theorem ofWord_quote (t : Text) : ofWord (Text.quote t) = .text t := by
  have hq : ∀ w : Text, w.head? ≠ some '"' → Text.quote t ≠ w := by rintro w hw rfl; exact hw rfl
  rw [ofWord, if_neg (hq _ (by decide)), if_neg (hq _ (by decide)), Text.unquote_quote]

theorem ofOperand_written {l : Literal} (h : l.isFinite) : ofOperand l.written = l := by
  obtain ⟨hs, he⟩ := written_ends h
  unfold ofOperand
  rw [Text.trim_of_solid hs he]
  cases l with
  | bool b => cases b <;> decide
  | number x =>
    simp only [isFinite] at h
    simp only [written, Binary64.read?_text h, h, if_true]
  | text t => simp only [written, read?_quote, ofWord_quote]

theorem isFinite_ofOperand (operand : Text) : (ofOperand operand).isFinite := by
  have hw : ∀ s, (ofWord s).isFinite := by
    intro s
    unfold ofWord
    repeat' split
    all_goals rfl
  unfold ofOperand
  dsimp only
  split
  · split
    · next hx => exact hx
    · exact hw _
  · exact hw _

end Literal

namespace Condition

/-- A condition that can be written: on a flag, with a literal exactly when the operator compares with one,
and with no number that is infinite or undefined. -/
structure Writable (c : Condition) : Prop where
  isFlag : Text.isFlag c.flag
  isWellFormed : c.isWellFormed
  isFinite : ∀ l ∈ c.literal?, l.isFinite

theorem writable_iff {c : Condition} :
    c.Writable ↔ Text.isFlag c.flag ∧ c.isWellFormed ∧ ∀ l ∈ c.literal?, l.isFinite :=
  ⟨fun h => ⟨h.isFlag, h.isWellFormed, h.isFinite⟩, fun h => ⟨h.1, h.2.1, h.2.2⟩⟩

instance (c : Condition) : Decidable c.Writable := decidable_of_iff _ writable_iff.symm

/-- A condition that can be written asks whether a flag is set, or compares it with a literal by a symbol. -/
theorem Writable.cases {c : Condition} (h : c.Writable) :
    c = isSet c.flag ∨ c = isNotSet c.flag ∨
      ∃ o symbol l, c = compare c.flag o l ∧ o.symbol? = some symbol ∧ l.isFinite := by
  obtain ⟨flag, o, l⟩ := c
  have hw := h.isWellFormed
  have hf := h.isFinite
  simp only [Condition.isWellFormed, Operator.takesLiteral, beq_iff_eq] at hw
  cases hs : o.symbol? with
  | none =>
    rw [hs] at hw
    obtain rfl : l = none := by cases l <;> simp_all
    cases o <;> simp_all [isSet, isNotSet, Operator.symbol?]
  | some symbol =>
    rw [hs] at hw
    obtain ⟨l, rfl⟩ : ∃ l', l = some l' := by cases l <;> simp_all
    exact .inr (.inr ⟨o, symbol, l, rfl, hs, hf l rfl⟩)

theorem text_compare {o : Operator} {symbol : Text} (hs : o.symbol? = some symbol) (flag : Text) (l : Literal) :
    (compare flag o l).text = '$' :: (flag ++ ' ' :: (symbol ++ ' ' :: l.written)) := by
  simp only [text, compare, hs]

/-! ## One clause -/

theorem flag?_isFlag {flag : Text} (h : Text.isFlag flag) : flag? ('$' :: flag) = some flag := by
  simp [flag?, h]

/-- What starts with a flag is no negation. -/
theorem negation?_flag (s : Text) : negation? ('$' :: s) = none := by
  unfold negation?
  split
  · next h => cases h
  · next n o t c r h =>
    cases h
    apply if_neg
    intro h
    have hd : '$'.toLower = 'n' := (List.cons.inj h.1).1
    exact absurd hd (by decide)
  · rfl

theorem clause?_isNotSet {flag : Text} (h : Text.isFlag flag) :
    clause? (isNotSet flag).text = some (isNotSet flag) := by
  have hs : Text.trimStart ('$' :: flag) = '$' :: flag := Text.trimStart_of_startsSolid rfl
  have hn : negation? (isNotSet flag).text = (flag? (Text.trimStart ('$' :: flag))).map isNotSet := rfl
  rw [clause?, hn, hs, flag?_isFlag h]
  rfl

theorem clause?_isSet {flag : Text} (h : Text.isFlag flag) : clause? (isSet flag).text = some (isSet flag) := by
  have hc : comparison? ('$' :: flag) = none := by
    have hname : Text.name? Text.isWordStart Text.isFlagChar (flag ++ []) = some (flag, []) :=
      Text.name?_append h (by simp)
    rw [List.append_nil] at hname
    rw [comparison?, hname]
    rfl
  show clause? ('$' :: flag) = _
  rw [clause?, negation?_flag, hc, flag?_isFlag h]
  rfl

/-- Of the symbols that start the text behind a flag, the one that was written is tried first. -/
theorem symbols_space {o : Operator} {symbol : Text} (hs : o.symbol? = some symbol) (r : Text) :
    ∃ others, symbols (symbol ++ ' ' :: r) = (o, ' ' :: r) :: others := by
  cases o <;> cases hs <;> exact ⟨_, rfl⟩

theorem startsSolid_symbol {o : Operator} {symbol : Text} (hs : o.symbol? = some symbol) : Text.startsSolid symbol := by
  cases o <;> cases hs <;> rfl

theorem remainder?_space {s : Text} (h : Text.startsSolid s) (hn : '\n' ∉ s) : Text.remainder? (' ' :: s) = some s := by
  have ht : Text.trimStart (' ' :: s) = s :=
    (Text.trimStart_blank_append (b := [' ']) (by simp [Text.isBlank]) s).trans (Text.trimStart_of_startsSolid h)
  have hne := Text.ne_nil_of_startsSolid h
  simp [Text.remainder?, ht, hn, hne]

/-- A flag, a symbol and an operand between spaces are a comparison. -/
theorem clause?_symbol {flag symbol operand : Text} {o : Operator} (h : Text.isFlag flag) (hs : o.symbol? = some symbol)
    (hw : Text.startsSolid operand) (hn : '\n' ∉ operand) :
    clause? ('$' :: (flag ++ ' ' :: (symbol ++ ' ' :: operand))) = some (compare flag o (.ofOperand operand)) := by
  have hsymbol := startsSolid_symbol hs
  have hb : bySymbol? (' ' :: (symbol ++ ' ' :: operand)) = some (o, operand) := by
    have ht : Text.trimStart (' ' :: (symbol ++ ' ' :: operand)) = symbol ++ ' ' :: operand :=
      (Text.trimStart_blank_append (b := [' ']) (by simp [Text.isBlank]) _).trans
        (Text.trimStart_of_startsSolid (Text.startsSolid_append hsymbol _))
    obtain ⟨others, ho⟩ := symbols_space hs operand
    rw [bySymbol?, ht, ho]
    simp [remainder?_space hw hn]
  have hc : comparison? ('$' :: (flag ++ ' ' :: (symbol ++ ' ' :: operand))) =
      some (compare flag o (.ofOperand operand)) := by
    rw [comparison?, Text.name?_append h (by simp; rfl)]
    simp only [hb, Option.some_or, Option.map_some]
  rw [clause?, negation?_flag, hc]
  rfl

theorem clause?_compare {flag symbol : Text} {o : Operator} {l : Literal} (h : Text.isFlag flag)
    (hs : o.symbol? = some symbol) (hl : l.isFinite) :
    clause? (compare flag o l).text = some (compare flag o l) := by
  rw [text_compare hs, clause?_symbol h hs (Literal.written_ends hl).1 (Literal.newline_not_mem_written hl),
    Literal.ofOperand_written hl]

theorem clause?_text {c : Condition} (h : c.Writable) : clause? c.text = some c := by
  rcases h.cases with he | he | ⟨o, symbol, l, he, hs, hl⟩ <;> rw [he]
  · exact clause?_isSet h.isFlag
  · exact clause?_isNotSet h.isFlag
  · exact clause?_compare h.isFlag hs hl

/-! ## What was read can be written -/

theorem isFlag_of_flag? {s flag : Text} (h : flag? s = some flag) : Text.isFlag flag := by
  unfold flag? at h
  split at h
  · split at h
    · next hf => cases h; exact hf
    · cases h
  · cases h

theorem writable_isSet {flag : Text} (h : Text.isFlag flag) : (isSet flag).Writable := ⟨h, rfl, by simp [isSet]⟩

theorem writable_isNotSet {flag : Text} (h : Text.isFlag flag) : (isNotSet flag).Writable :=
  ⟨h, rfl, by simp [isNotSet]⟩

theorem writable_of_negation? {s : Text} {c : Condition} (h : negation? s = some c) : c.Writable := by
  have key : ∀ t, (flag? t).map isNotSet = some c → c.Writable := by
    intro t ht
    obtain ⟨flag, hf, rfl⟩ := Option.map_eq_some_iff.1 ht
    exact writable_isNotSet (isFlag_of_flag? hf)
  unfold negation? at h
  split at h
  · exact key _ h
  · split at h
    · exact key _ h
    · cases h
  · cases h

theorem takesLiteral_of_symbols {s r : Text} {o : Operator} (h : (o, r) ∈ symbols s) : o.takesLiteral := by
  unfold symbols at h
  split at h <;> simp only [List.mem_cons, List.not_mem_nil, or_false, Prod.mk.injEq] at h
  all_goals first
    | exact h.1 ▸ rfl
    | exact h.elim (fun h => h.1 ▸ rfl) (fun h => h.1 ▸ rfl)

theorem takesLiteral_of_bySymbol? {s operand : Text} {o : Operator} (h : bySymbol? s = some (o, operand)) :
    o.takesLiteral := by
  obtain ⟨⟨o', r⟩, hm, hr⟩ := List.exists_of_findSome?_eq_some h
  obtain ⟨t, -, he⟩ := Option.map_eq_some_iff.1 hr
  cases he
  exact takesLiteral_of_symbols hm

theorem takesLiteral_of_ofWord? {s : Text} {o : Operator} (h : Operator.ofWord? s = some o) : o.takesLiteral := by
  unfold Operator.ofWord? at h
  dsimp only at h
  repeat' split at h
  all_goals cases h
  all_goals rfl

theorem takesLiteral_of_byWord? {s operand : Text} {o : Operator} (h : byWord? s = some (o, operand)) :
    o.takesLiteral := by
  unfold byWord? at h
  split at h
  · cases h
  · dsimp only at h
    split at h
    · split at h
      · next ho _ => cases h; exact takesLiteral_of_ofWord? ho
      · cases h
    · cases h

theorem writable_of_comparison? {s : Text} {c : Condition} (h : comparison? s = some c) : c.Writable := by
  unfold comparison? at h
  split at h
  · split at h
    · next flag t hn =>
      obtain ⟨⟨o, operand⟩, ho, rfl⟩ := Option.map_eq_some_iff.1 h
      have hlit : o.takesLiteral := by
        rcases Option.or_eq_some_iff.1 ho with h | ⟨-, h⟩
        · exact takesLiteral_of_bySymbol? h
        · exact takesLiteral_of_byWord? h
      refine ⟨Text.shaped_of_name? hn, by simp [compare, isWellFormed, hlit], ?_⟩
      rintro l hl
      cases hl
      exact Literal.isFinite_ofOperand operand
    · cases h
  · cases h

theorem writable_of_clause? {s : Text} {c : Condition} (h : clause? s = some c) : c.Writable := by
  unfold clause? at h
  rcases Option.or_eq_some_iff.1 h with h | ⟨-, h⟩
  · exact writable_of_negation? h
  rcases Option.or_eq_some_iff.1 h with h | ⟨-, h⟩
  · exact writable_of_comparison? h
  · obtain ⟨flag, hf, rfl⟩ := Option.map_eq_some_iff.1 h
    exact writable_isSet (isFlag_of_flag? hf)

end Condition
end DialogueScript
