import DialogueScript.Proofs.Condition.Conjunction
/-!
# Symbols of two characters

`>=` and `<=` start like `>` and `<`. The longer symbol is tried first, so it is the one that is read whenever
something follows it. Where a clause ends behind it nothing is left to compare with; the reader then goes back to
the shorter symbol and takes the `=` for the operand.

Results:
* `clause?_orEqual`: which condition such a clause states.
* `longer_symbol_read`: the longer symbol is read unless the clause ends with it.
-/
namespace DialogueScript.Condition

/-- The operators that a symbol stands for with `=` behind it and alone. -/
def orEqual? : Char → Option (Operator × Operator)
  | '>' => some (.greaterEqual, .greaterThan)
  | '<' => some (.lessEqual, .lessThan)
  | _ => none

variable {first : Char} {long short : Operator} {flag gap r : Text}

theorem first_cases (h : orEqual? first = some (long, short)) : first = '>' ∨ first = '<' := by
  unfold orEqual? at h
  split at h
  · exact .inl rfl
  · exact .inr rfl
  · cases h

theorem symbols_orEqual (h : orEqual? first = some (long, short)) (r : Text) :
    symbols (first :: '=' :: r) = [(long, r), (short, '=' :: r)] := by
  rcases first_cases h with rfl | rfl <;> cases h <;> rfl

theorem ofWord?_of_first (h : orEqual? first = some (long, short)) (w : Text) :
    Operator.ofWord? (first :: w) = none := by
  rcases first_cases h with rfl | rfl <;> simp [Operator.ofWord?, Text.lower]

theorem first_solid (h : orEqual? first = some (long, short)) :
    Text.isBlank first = false ∧ Text.isIdChar first = false := by
  rcases first_cases h with rfl | rfl <;> exact ⟨rfl, rfl⟩

theorem byWord?_symbol (h : orEqual? first = some (long, short)) (hgap : ∀ c ∈ gap, Text.isBlank c) (r : Text) :
    byWord? (gap ++ first :: r) = none := by
  have hfirst := (first_solid h).1
  cases gap with
  | nil => simp [byWord?, hfirst]
  | cons c gap =>
    have hstart : Text.trimStart (gap ++ first :: r) = first :: r := by
      rw [Text.trimStart_blank_append fun d hd => hgap d (by simp [hd]), Text.trimStart_of_startsSolid (by simp [hfirst])]
    rw [List.cons_append, byWord?, if_pos (hgap c (by simp))]
    simp only [hstart, List.takeWhile_cons, hfirst, Bool.not_false, if_true, ofWord?_of_first h]

/-- The condition of a clause is a comparison by the longer symbol if that leaves an operand, else by the shorter. -/
theorem clause?_orEqual (h : orEqual? first = some (long, short)) (hflag : Text.isFlag flag)
    (hgap : ∀ c ∈ gap, Text.isBlank c) (r : Text) :
    clause? ('$' :: (flag ++ (gap ++ first :: '=' :: r))) =
      (((Text.remainder? r).map (long, ·)).or ((Text.remainder? ('=' :: r)).map (short, ·))).map
        fun (o, operand) => compare flag o (.ofOperand operand) := by
  obtain ⟨hblank, hid⟩ := first_solid h
  have hfirst : Text.isFlagChar first = false := by
    rw [Bool.eq_false_iff]
    intro hf
    rw [Text.isIdChar_of_isFlagChar hf] at hid
    cases hid
  have hstart : Text.trimStart (gap ++ first :: '=' :: r) = first :: '=' :: r := by
    rw [Text.trimStart_blank_append hgap, Text.trimStart_of_startsSolid (by simp [hblank])]
  have hsymbol : bySymbol? (gap ++ first :: '=' :: r) =
      ((Text.remainder? r).map (long, ·)).or ((Text.remainder? ('=' :: r)).map (short, ·)) := by
    rw [bySymbol?, hstart, symbols_orEqual h]
    cases hlong : Text.remainder? r <;> cases hshort : Text.remainder? ('=' :: r) <;> simp [hlong, hshort]
  have hlone : flag? ('$' :: (flag ++ (gap ++ first :: '=' :: r))) = none := by
    rw [flag?, if_neg]
    intro hf
    exact Text.not_mem_of_isIdChar (Text.isIdChar_of_isFlag hf) hid (by simp)
  rw [clause?, negation?_flag, comparison?, Text.name?_append hflag (Text.isFlagChar_head? hgap hfirst _), hlone]
  simp only [hsymbol, byWord?_symbol h hgap, Option.or_none, Option.none_or, Option.map_none]

/-! ## Clauses are trimmed -/

theorem trimmed_of_mem_clausesFrom {s c : Text} (h : c ∈ clausesFrom s) : ∃ t, c = Text.trim t := by
  induction s using clausesFrom.induct with
  | case1 s t u hcut ih =>
    rw [clausesFrom_eq, hcut] at h
    rcases List.mem_cons.1 h with rfl | h
    · exact ⟨t, rfl⟩
    · exact ih h
  | case2 s hcut =>
    rw [clausesFrom_eq, hcut] at h
    exact ⟨s, List.mem_singleton.1 h⟩

theorem endsSolid_of_mem_clauses {s c : Text} (h : c ∈ clauses s) (hne : c ≠ []) : Text.endsSolid c := by
  unfold clauses at h
  split at h
  · cases h
  · obtain ⟨t, rfl⟩ := trimmed_of_mem_clausesFrom h
    exact Text.endsSolid_trim hne

/-! ## Clauses with a symbol of two characters -/

/-- A clause with a symbol of two characters states a comparison by this symbol with what follows it, which has to be
a single line. Only if nothing follows, the shorter symbol is read, and `=` is compared with. -/
theorem longer_symbol_read {s c flag gap r : Text} {first : Char} {long short : Operator} (hc : c ∈ clauses s)
    (h : orEqual? first = some (long, short)) (hflag : Text.isFlag flag) (hgap : ∀ b ∈ gap, Text.isBlank b)
    (he : c = '$' :: (flag ++ (gap ++ first :: '=' :: r))) :
    (r ≠ [] → '\n' ∉ Text.trim r → clause? c = some (compare flag long (.ofOperand r))) ∧
    (r ≠ [] → '\n' ∈ Text.trim r → clause? c = none) ∧
    (r = [] → clause? c = some (compare flag short (.text ['=']))) := by
  have hclause := clause?_orEqual h hflag hgap r
  rw [← he] at hclause
  have hsolid : r ≠ [] → Text.endsSolid r := by
    intro hne
    have hend := endsSolid_of_mem_clauses hc (by simp [he])
    cases r with
    | nil => exact absurd rfl hne
    | cons d r =>
      have happ : c = ('$' :: (flag ++ (gap ++ [first, '=']))) ++ d :: r := by simp [he]
      rwa [happ, Text.endsSolid_append_cons] at hend
  refine ⟨?_, ?_, ?_⟩
  · intro hne hn
    rw [Text.remainder?_of_endsSolid (hsolid hne) hn] at hclause
    rw [hclause]
    simp [Literal.ofOperand, Text.trim_trim]
  · intro hne hn
    -- the newline is left behind either symbol
    have hmem : '\n' ∈ Text.trimStart r := by rwa [← Text.trim_of_endsSolid (hsolid hne)]
    have hlong : Text.remainder? r = none := Text.remainder?_eq_none hmem
    have hshort : Text.remainder? ('=' :: r) = none := by
      apply Text.remainder?_eq_none
      rw [Text.trimStart_of_startsSolid rfl]
      exact List.mem_cons_of_mem _ ((List.dropWhile_sublist _).subset hmem)
    rw [hclause, hlong, hshort]
    rfl
  · intro hnil
    subst hnil
    rw [hclause]
    rfl

theorem longer_symbol_read_coins : clauses "$coins  >= 3 AND $met<=".toList = ["$coins  >= 3".toList, "$met<=".toList] ∧
    clause? "$coins  >= 3".toList = some (compare "coins".toList .greaterEqual (.ofOperand " 3".toList)) ∧
    clause? "$met<=".toList = some (compare "met".toList .lessThan (.text ['='])) := by
  have hclauses : clauses "$coins  >= 3 AND $met<=".toList = ["$coins  >= 3".toList, "$met<=".toList] := by
    with_unfolding_all rfl
  have hcoins := @longer_symbol_read "$coins  >= 3 AND $met<=".toList "$coins  >= 3".toList "coins".toList [' ', ' ']
    " 3".toList '>' _ _ (by rw [hclauses]; simp) rfl (by decide) (by simp [Text.isBlank]) rfl
  have hmet := @longer_symbol_read "$coins  >= 3 AND $met<=".toList "$met<=".toList "met".toList [] [] '<' _ _
    (by rw [hclauses]; simp) rfl (by decide) (by simp) rfl
  exact ⟨hclauses, hcoins.1 (by decide) (by decide), hmet.2.2 rfl⟩

/-- A condition that is not written to its end is read, as a comparison with `=`. -/
theorem shorter_symbol_read_alone : clauses "$a >=".toList = ["$a >=".toList] ∧
    clause? "$a >=".toList = some (compare ['a'] .greaterThan (.text ['='])) ∧
    read false "$a >=".toList = .ok ([compare ['a'] .greaterThan (.text ['='])], []) ∧
    read true "$a >=".toList = .ok ([compare ['a'] .greaterThan (.text ['='])], []) := by
  refine ⟨?_, ?_, ?_, ?_⟩ <;> with_unfolding_all rfl

end DialogueScript.Condition
