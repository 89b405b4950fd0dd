import DialogueScript.Text.Blank
/-!
# Quoted text

A quoted text stands between double quotes. Inside, a backslash precedes a quote or a backslash, and a
newline is written as a backslash and `n`, so a quoted text is always on one line.

* `quote`: the written form.
* `quoted?`: reads a quoted text after its opening quote, up to the first quote that no backslash
  precedes.
* `unquote`: takes one pair of quotes, double or single, off a text that starts and ends with it.

Results:
* `quoted?_body`: reading inverts writing, whatever follows the closing quote.
* `unquote_quote`: taking the quotes off inverts putting them on.
-/
namespace DialogueScript.Text

/-- The written form of one character between quotes. -/
def quotedChar (c : Char) : Text :=
  if c = '"' then ['\\', '"'] else if c = '\\' then ['\\', '\\'] else if c = '\n' then ['\\', 'n'] else [c]

/-- The written form of a text, without its quotes. -/
def quotedBody (s : Text) : Text := s.flatMap quotedChar

/-- The written form of a text, between double quotes. -/
def quote (s : Text) : Text := '"' :: (quotedBody s ++ ['"'])

/-- What a character means after a backslash: `n` is a newline, any other character itself. -/
def escaped (c : Char) : Char := if c = 'n' then '\n' else c

/-- Reads up to the closing quote: the text and what follows the quote; `none` when no quote closes it. -/
def quoted? : Text → Option (Text × Text)
  | [] => none
  | '"' :: r => some ([], r)
  | ['\\'] => none -- nothing is left that could close it
  | '\\' :: c :: r => (quoted? r).map fun (t, rest) => (escaped c :: t, rest)
  | c :: r => (quoted? r).map fun (t, rest) => (c :: t, rest)

/-- Resolves each backslash and the character after it; a lone backslash at the end stays. -/
def resolve : Text → Text
  | [] => []
  | ['\\'] => ['\\']
  | '\\' :: c :: r => escaped c :: resolve r
  | c :: r => c :: resolve r

/-- Takes off the quotes when the text starts and ends with the same one, and resolves what is between them;
any other text stays as it is. -/
def unquote (s : Text) : Text :=
  match s with
  | q :: c :: r =>
    if (q = '"' ∨ q = '\'') ∧ (c :: r).getLast? = some q then resolve (c :: r).dropLast else s
  | _ => s

/-! ## Laws -/

@[simp] theorem quotedBody_nil : quotedBody [] = [] := rfl

@[simp] theorem quotedBody_cons (c : Char) (s : Text) : quotedBody (c :: s) = quotedChar c ++ quotedBody s := rfl

theorem quoted?_char (c : Char) (r : Text) :
    quoted? (quotedChar c ++ r) = (quoted? r).map fun (t, rest) => (c :: t, rest) := by
  by_cases h1 : c = '"'
  · subst h1; simp [quotedChar, quoted?, escaped]
  by_cases h2 : c = '\\'
  · subst h2; simp [quotedChar, quoted?, escaped]
  by_cases h3 : c = '\n'
  · subst h3; simp [quotedChar, quoted?, escaped]
  · simp only [quotedChar, h1, h2, h3, if_false, List.cons_append, List.nil_append]
    rw [quoted?]
    · simpa using h1
    · intro h _; exact h2 h
    · intro d r' h _; exact h2 h

theorem quoted?_body (s rest : Text) : quoted? (quotedBody s ++ '"' :: rest) = some (s, rest) := by
  induction s with
  | nil => rfl
  | cons c s ih => rw [quotedBody_cons, List.append_assoc, quoted?_char, ih]; rfl

theorem resolve_char (c : Char) (r : Text) : resolve (quotedChar c ++ r) = c :: resolve r := by
  by_cases h1 : c = '"'
  · subst h1; simp [quotedChar, resolve, escaped]
  by_cases h2 : c = '\\'
  · subst h2; simp [quotedChar, resolve, escaped]
  by_cases h3 : c = '\n'
  · subst h3; simp [quotedChar, resolve, escaped]
  · simp only [quotedChar, h1, h2, h3, if_false, List.cons_append, List.nil_append]
    rw [resolve]
    · intro h _; exact h2 h
    · intro d r' h _; exact h2 h

theorem resolve_body (s : Text) : resolve (quotedBody s) = s := by
  induction s with
  | nil => rfl
  | cons c s ih => rw [quotedBody_cons, resolve_char, ih]

theorem unquote_quote (s : Text) : unquote (quote s) = s := by
  have key : ∀ b : Text, unquote ('"' :: (b ++ ['"'])) = resolve b := by
    intro b
    cases b with
    | nil => rfl
    | cons c r =>
      have h : (c :: (r ++ ['"'])) = (c :: r) ++ ['"'] := rfl
      simp only [unquote, List.cons_append]
      rw [h, List.getLast?_concat, List.dropLast_concat]; simp
  rw [quote, key, resolve_body]

theorem newline_not_mem_quotedChar (c : Char) : '\n' ∉ quotedChar c := by
  unfold quotedChar
  by_cases h1 : c = '"' <;> by_cases h2 : c = '\\' <;> by_cases h3 : c = '\n' <;> simp_all
  exact Ne.symm h3

theorem newline_not_mem_quote (s : Text) : '\n' ∉ quote s := by
  have h : '\n' ∉ quotedBody s := by
    induction s with
    | nil => simp
    | cons c s ih => simp [newline_not_mem_quotedChar, ih]
  simp [quote, h]

end DialogueScript.Text
