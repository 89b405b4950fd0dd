import DialogueScript.Condition.Basic
import DialogueScript.Text.Name
/-!
# Clauses

The text of conditions is cut into clauses at the word `and`, in any case and between blank characters,
wherever it is not inside quotes. A clause is then tried as a negation, a comparison by symbol, a comparison
by word and a lone flag, in this order.

* `clauses`: the clauses of a text.
* `clause?`: the condition that a clause states.
-/
namespace DialogueScript.Condition

/-! ## One clause -/

/-- A flag behind `$`, and nothing else. -/
def flag? : Text → Option Text
  | '$' :: r => if Text.isFlag r then some r else none
  | _ => none

/-- A flag behind `!` or, in any case, behind the word `not`. -/
def negation? : Text → Option Condition
  | '!' :: r => (flag? (Text.trimStart r)).map isNotSet
  | n :: o :: t :: c :: r =>
    if Text.lower [n, o, t] = "not".toList ∧ Text.isBlank c then (flag? (Text.trimStart r)).map isNotSet else none
  | _ => none

/-- The operators whose symbols start a text, each with what follows its symbol, the longer symbol first. -/
def symbols : Text → List (Operator × Text)
  | '=' :: '=' :: r => [(.equals, r)]
  | '!' :: '=' :: r => [(.notEquals, r)]
  -- where nothing follows `>=`, the `=` is the operand of `>`
  | '>' :: '=' :: r => [(.greaterEqual, r), (.greaterThan, '=' :: r)]
  | '<' :: '=' :: r => [(.lessEqual, r), (.lessThan, '=' :: r)]
  | '>' :: r => [(.greaterThan, r)]
  | '<' :: r => [(.lessThan, r)]
  | _ => []

/-- The operator and the operand behind a flag, by symbol: the first symbol that leaves an operand. -/
def bySymbol? (s : Text) : Option (Operator × Text) :=
  (symbols (Text.trimStart s)).findSome? fun (o, r) => (Text.remainder? r).map (o, ·)

/-- The operator and the operand behind a flag, by word: blank characters stand around the word. -/
def byWord? : Text → Option (Operator × Text)
  | [] => none
  | c :: r =>
    if Text.isBlank c then
      let s := Text.trimStart r
      match Operator.ofWord? (s.takeWhile (!Text.isBlank ·)), Text.remainder? (s.dropWhile (!Text.isBlank ·)) with
      | some o, some operand => some (o, operand)
      | _, _ => none
    else none

def comparison? : Text → Option Condition
  | '$' :: r =>
    -- the flag goes as far as it can: what ends it has to be blank, or to start a symbol
    match Text.name? Text.isWordStart Text.isFlagChar r with
    | some (flag, s) => ((bySymbol? s).or (byWord? s)).map fun (o, operand) => compare flag o (.ofOperand operand)
    | none => none
  | _ => none

/-- A negation, a comparison or a lone flag; the first of them that the clause can be. -/
def clause? (s : Text) : Option Condition :=
  (negation? s).or ((comparison? s).or ((flag? s).map isSet))

/-! ## The clauses of a text -/

/-- What follows blank characters, the word `and` and blank characters again. -/
def afterAnd? : Text → Option Text
  | [] => none
  | c :: r =>
    if Text.isBlank c then
      match Text.trimStart r with
      | a :: n :: d :: b :: s =>
        if Text.lower [a, n, d] = "and".toList ∧ Text.isBlank b then some (Text.trimStart s) else none
      | _ => none
    else none

/-- The text in front of the first `and` outside of quotes, and the text behind it. The first argument is the
quote that is open: a quote of its kind that no backslash precedes closes it. -/
def cut? : Option Char → Text → Option (Text × Text)
  | _, [] => none
  | some q, '\\' :: c :: r => (cut? (some q) r).map fun (s, t) => ('\\' :: c :: s, t)
  | some q, c :: r => (cut? (if c = q then none else some q) r).map fun (s, t) => (c :: s, t)
  | none, c :: r =>
    -- an apostrophe opens a quote wherever it stands, inside a word too
    if c = '"' ∨ c = '\'' then (cut? (some c) r).map fun (s, t) => (c :: s, t)
    else match afterAnd? (c :: r) with
      | some t => some ([], t)
      | none => (cut? none r).map fun (s, t) => (c :: s, t)

theorem trimStart_length_le (s : Text) : (Text.trimStart s).length ≤ s.length :=
  (List.dropWhile_sublist _).length_le

theorem afterAnd?_length_lt {s t : Text} (h : afterAnd? s = some t) : t.length < s.length := by
  cases s with
  | nil => simp [afterAnd?] at h
  | cons c r =>
    simp only [afterAnd?] at h
    split at h
    · split at h
      · next a n d b u hu =>
        split at h
        · have h1 := trimStart_length_le r
          have h2 := trimStart_length_le u
          cases h; rw [hu] at h1; simp only [List.length_cons] at h1 ⊢; omega
        · simp at h
      · simp at h
    · simp at h

theorem cut?_length_lt {q : Option Char} {s t u : Text} (h : cut? q s = some (t, u)) : u.length < s.length := by
  fun_induction cut? q s generalizing t u with
  | case1 => simp at h
  | case2 q c r ih =>
    obtain ⟨⟨a, b⟩, hp, he⟩ := Option.map_eq_some_iff.1 h
    cases he; have := ih hp; simp only [List.length_cons]; omega
  | case3 q c r _ ih =>
    obtain ⟨⟨a, b⟩, hp, he⟩ := Option.map_eq_some_iff.1 h
    cases he; have := ih hp; simp only [List.length_cons]; omega
  | case4 c r _ ih =>
    obtain ⟨⟨a, b⟩, hp, he⟩ := Option.map_eq_some_iff.1 h
    cases he; have := ih hp; simp only [List.length_cons]; omega
  | case5 c r _ v hv => cases h; exact afterAnd?_length_lt hv
  | case6 c r _ _ ih =>
    obtain ⟨⟨a, b⟩, hp, he⟩ := Option.map_eq_some_iff.1 h
    cases he; have := ih hp; simp only [List.length_cons]; omega

/-- The clauses of a text that is not empty. -/
def clausesFrom (s : Text) : List Text :=
  match _h : cut? none s with
  | some (t, u) => Text.trim t :: clausesFrom u
  | none => [Text.trim s]
termination_by s.length
decreasing_by exact cut?_length_lt _h

/-- The clauses of a text. A text of blank characters has none. -/
def clauses (s : Text) : List Text :=
  match Text.trim s with
  | [] => []
  | c :: r => clausesFrom (c :: r)

end DialogueScript.Condition
