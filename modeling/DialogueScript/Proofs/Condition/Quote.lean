import DialogueScript.Proofs.Condition.Conjunction
/-!
# Quotes inside of operands

An operand that does not start with a quote is taken as it stands, quotes and all. The cuts into clauses do not
know of operands: any quote outside of quotes opens a quoted text, which reaches to the next quote of its kind. So
an operand with quotes in pairs is left alone, and behind an operand with a quote too many the word `and` does not
cut until another quote of its kind has come.

Results:
* `openAfter`, `cut?_word`: which quote is open behind an operand, and what that means for the cuts behind it.
* `clauses_behind_closed`: behind an operand that leaves no quote open the clauses are those of the rest.
* `clauses_behind_open`, `clause?_behind_open`: behind an operand that leaves a quote open the first clause goes on,
  and the operand with it.
* `read_behind_operand`: which conditions are read in both cases.
-/
namespace DialogueScript.Condition

/-! ## Quotes that are open -/

/-- The two kinds of quotes. -/
def isQuote (c : Char) : Bool := c = '"' ∨ c = '\''

/-- The quote that is open behind a text, given the one that is open in front of it. -/
def openAfter : Option Char → Text → Option Char
  | q, [] => q
  | some q, '\\' :: _ :: r => openAfter (some q) r
  | some q, c :: r => openAfter (if c = q then none else some q) r
  | none, c :: r => openAfter (if isQuote c then some c else none) r

theorem isQuote_cases {c : Char} (h : isQuote c) : c = '"' ∨ c = '\'' := of_decide_eq_true h

theorem cut?_some_cons {q c : Char} (hc : c ≠ '\\') (r : Text) :
    cut? (some q) (c :: r) = (cut? (if c = q then none else some q) r).map (prepend [c]) := by
  rw [cut?]
  · rfl
  · intro d s he
    cases he
    exact absurd rfl hc

theorem cut?_escaped (q c : Char) (r : Text) :
    cut? (some q) ('\\' :: c :: r) = (cut? (some q) r).map (prepend ['\\', c]) := by
  rw [cut?]
  rfl

theorem cut?_none_cons {c : Char} {r : Text} (ha : afterAnd? (c :: r) = none) :
    cut? none (c :: r) = (cut? (if isQuote c then some c else none) r).map (prepend [c]) := by
  by_cases hc : isQuote c
  · rw [cut?, if_pos (isQuote_cases hc), if_pos hc]
    rfl
  · have hplain : c ≠ '"' ∧ c ≠ '\'' := by simpa [isQuote] using hc
    rw [cut?_cons hplain ha, if_neg hc]

/-- A word is passed over as a whole, and what is behind it is cut under the quote that the word leaves open. -/
theorem cut?_word (q : Option Char) (w r : Text) (hq : ∀ p ∈ q, isQuote p) (hw : ∀ c ∈ w, Text.isBlank c = false) :
    cut? q (w ++ ' ' :: r) = (cut? (openAfter q w) (' ' :: r)).map (prepend w) := by
  fun_induction openAfter q w with
  | case1 q => simp
  | case2 q c w ih =>
    rw [List.cons_append, List.cons_append, cut?_escaped, ih hq fun d hd => hw d (by simp [hd]), map_prepend_prepend]
    rfl
  | case3 q c w hnot ih =>
    have hquote := isQuote_cases (hq q rfl)
    have hq' : ∀ p ∈ (if c = q then none else some q), isQuote p := by
      split
      · exact nofun
      · exact hq
    by_cases hc : c = '\\'
    · -- the backslash in front of the space takes nothing from the quote
      subst hc
      cases w with
      | nil =>
        have hne : ('\\' : Char) ≠ q ∧ ' ' ≠ q := by rcases hquote with rfl | rfl <;> decide
        show cut? (some q) ('\\' :: ' ' :: r) = (cut? (if '\\' = q then none else some q) (' ' :: r)).map _
        rw [cut?_escaped, if_neg hne.1, cut?_some_cons (by decide), if_neg hne.2, map_prepend_prepend]
        rfl
      | cons d w => exact absurd rfl (hnot d w rfl)
    · rw [List.cons_append, cut?_some_cons hc, ih hq' fun d hd => hw d (by simp [hd]), map_prepend_prepend]
      rfl
  | case4 c w ih =>
    have ha : afterAnd? (c :: (w ++ ' ' :: r)) = none := by simp [afterAnd?, hw c (by simp)]
    have hq' : ∀ p ∈ (if isQuote c then some c else none), isQuote p := by
      split
      · next hc => intro p hp; obtain rfl := Option.some.inj hp; exact hc
      · exact nofun
    rw [List.cons_append, cut?_none_cons ha, ih hq' fun d hd => hw d (by simp [hd]), map_prepend_prepend]
    rfl

/-- Under a quote all is passed over that is neither the quote nor a backslash. -/
theorem cut?_some_append {q : Char} {v : Text} (h : ∀ c ∈ v, c ≠ '\\' ∧ c ≠ q) (r : Text) :
    cut? (some q) (v ++ r) = (cut? (some q) r).map (prepend v) := by
  induction v with
  | nil => simp
  | cons c v ih =>
    obtain ⟨hc, hq⟩ := h c (by simp)
    rw [List.cons_append, cut?_some_cons hc, if_neg hq, ih fun d hd => h d (by simp [hd]), map_prepend_prepend]
    rfl

/-- Under a quote nothing is cut off until the quote comes again. -/
theorem cut?_of_not_mem {q : Char} {r : Text} (h : q ∉ r) : cut? (some q) r = none := by
  generalize ho : some q = o
  fun_induction cut? o r with
  | case1 => rfl
  | case2 p c r ih =>
    simp only [List.mem_cons, not_or] at h
    rw [ih h.2.2 ho]
    rfl
  | case3 p c r _ ih =>
    simp only [List.mem_cons, not_or] at h
    obtain rfl := Option.some.inj ho
    rw [if_neg (Ne.symm h.1)] at ih ⊢
    rw [ih h.2 rfl]
    rfl
  | case4 => cases ho
  | case5 => cases ho
  | case6 => cases ho

/-- What is in front of a cut is the start of the text. -/
theorem prefix_of_cut? {q : Option Char} {s t u : Text} (h : cut? q s = some (t, u)) : t <+: s := by
  fun_induction cut? q s generalizing t u with
  | case1 => cases h
  | case2 q c r ih | case3 q c r _ ih | case4 c r _ ih =>
    obtain ⟨⟨a, b⟩, hcut, he⟩ := Option.map_eq_some_iff.1 h
    cases he
    simpa [List.cons_prefix_cons] using ih hcut
  | case5 c r _ v hv =>
    cases h
    exact List.nil_prefix
  | case6 c r _ _ ih =>
    obtain ⟨⟨a, b⟩, hcut, he⟩ := Option.map_eq_some_iff.1 h
    cases he
    simpa [List.cons_prefix_cons] using ih hcut

theorem mem_of_openAfter {o : Option Char} {w : Text} {q : Char} (h : openAfter o w = some q) :
    o = some q ∨ q ∈ w ∧ isQuote q := by
  fun_induction openAfter o w with
  | case1 o => exact .inl h
  | case2 p c w ih =>
    rcases ih h with ho | hq
    · exact .inl ho
    · exact .inr ⟨by simp [hq.1], hq.2⟩
  | case3 p c w _ ih =>
    rcases ih h with ho | hq
    · split at ho
      · cases ho
      · exact .inl ho
    · exact .inr ⟨by simp [hq.1], hq.2⟩
  | case4 c w ih =>
    rcases ih h with ho | hq
    · split at ho
      · next hc => cases ho; exact .inr ⟨by simp, hc⟩
      · cases ho
    · exact .inr ⟨by simp [hq.1], hq.2⟩

/-! ## Operands without quotes around them -/

/-- An operand without quotes around it: one word other than `and`, which starts with no quote. -/
structure IsBare (w : Text) : Prop where
  isWord : Text.isWord w
  unquoted : ∀ c ∈ w.head?, isQuote c = false
  notAnd : Text.lower w ≠ "and".toList

/-- The text of a comparison with an operand. -/
def comparing (flag symbol operand : Text) : Text := '$' :: (flag ++ ' ' :: (symbol ++ ' ' :: operand))

/-- No cut falls in front of the operand. -/
theorem afterAnd?_word {w : Text} (h : IsBare w) (r : Text) : afterAnd? (' ' :: (w ++ ' ' :: r)) = none := by
  obtain ⟨hne, hw⟩ := h.isWord
  have ht : Text.trimStart (w ++ ' ' :: r) = w ++ ' ' :: r :=
    Text.trimStart_of_startsSolid (Text.startsSolid_append (Text.ends_of_not_blank hne hw).1 _)
  rw [afterAnd?, if_pos (show Text.isBlank ' ' = true from rfl), ht]
  split
  · next a n d b s he =>
    apply if_neg
    intro hand
    -- a shorter word has a space among the three letters, and a longer one goes on behind them
    rcases w with _ | ⟨x, _ | ⟨y, _ | ⟨z, _ | ⟨v, w⟩⟩⟩⟩
    · exact hne rfl
    · cases he; exact absurd hand.1 (by simp [Text.lower])
    · cases he; exact absurd hand.1 (by simp [Text.lower])
    · cases he; exact h.notAnd hand.1
    · cases he
      rw [hw b (by simp)] at hand
      cases hand.2
  · rfl

section Operand

variable {flag symbol w C : Text} {o : Operator}

theorem comparing_append (flag symbol v t : Text) : comparing flag symbol (v ++ t) = comparing flag symbol v ++ t := by
  simp [comparing]

theorem cut?_comparing (hflag : Text.isFlag flag) (hs : o.symbol? = some symbol) (hw : IsBare w) (r : Text) :
    cut? none (comparing flag symbol (w ++ ' ' :: r)) =
      (cut? (openAfter none w) (' ' :: r)).map (prepend (comparing flag symbol w)) := by
  have hsplit : comparing flag symbol (w ++ ' ' :: r) =
      ('$' :: flag) ++ ((' ' :: symbol) ++ (' ' :: (w ++ ' ' :: r))) := by
    simp [comparing]
  rw [hsplit, uncut_flag hflag, uncut_symbol hs, cut?_none_cons (afterAnd?_word hw r),
    cut?_word _ w r (by simp [isQuote]) hw.isWord.2]
  simp only [map_prepend_prepend]
  have hopen : (if isQuote ' ' then some ' ' else none) = none := rfl
  rw [hopen]
  simp [comparing]

theorem clauses_of_trim_ne_nil {s : Text} (h : Text.trim s ≠ []) : clauses s = clausesFrom (Text.trim s) := by
  unfold clauses
  split
  · next hs => exact absurd hs h
  · next c r hs => rw [hs]

/-- The text of a comparison with something behind it has no blank characters to lose but those at its end. -/
theorem trim_comparing (flag symbol v : Text) {t : Text} (ht : Text.trim t ≠ []) :
    Text.trim (comparing flag symbol (v ++ t)) = comparing flag symbol (v ++ Text.trimEnd t) := by
  rw [comparing_append, comparing_append]
  exact Text.trim_append (p := comparing flag symbol v) rfl ht

theorem clauses_comparing_and (flag symbol w : Text) (hC : Text.trim C ≠ []) :
    clauses (comparing flag symbol (w ++ " and ".toList ++ C)) =
      clausesFrom (comparing flag symbol (w ++ ' ' :: ("and ".toList ++ Text.trimEnd C))) := by
  have htrim := trim_comparing flag symbol (w ++ " and ".toList) hC
  rw [clauses_of_trim_ne_nil (by rw [htrim]; exact List.cons_ne_nil _ _), htrim, List.append_assoc]
  rfl

/-- Behind an operand that leaves no quote open the clauses are those of the rest. -/
theorem clauses_behind_closed (hflag : Text.isFlag flag) (hs : o.symbol? = some symbol) (hw : IsBare w)
    (hC : Text.trim C ≠ []) (hclosed : openAfter none w = none) :
    clauses (comparing flag symbol (w ++ " and ".toList ++ C)) = comparing flag symbol w :: clauses C := by
  have hand : cut? none (' ' :: ("and ".toList ++ Text.trimEnd C)) = some ([], Text.trim C) := by
    show cut? none (' ' :: 'a' :: 'n' :: 'd' :: ' ' :: Text.trimEnd C) = _
    rw [cut?, if_neg (by decide), afterAnd?_and, Text.trimStart_trimEnd]
  have htrim : Text.trim (comparing flag symbol w) = comparing flag symbol w :=
    comparing_append flag symbol [] w ▸
      Text.trim_append_of_solid (s := comparing flag symbol []) rfl (Text.ends_of_not_blank hw.isWord.1 hw.isWord.2).2
  rw [clauses_comparing_and flag symbol w hC, clausesFrom_eq, cut?_comparing hflag hs hw, hclosed, hand]
  simp only [Option.map_some, prepend, List.append_nil, htrim, clauses_of_trim_ne_nil hC]

theorem cut?_behind_open (hflag : Text.isFlag flag) (hs : o.symbol? = some symbol) (hw : IsBare w) {q : Char}
    (hopen : openAfter none w = some q) (r : Text) :
    cut? none (comparing flag symbol (w ++ ' ' :: ("and ".toList ++ r))) =
      (cut? (some q) r).map (prepend (comparing flag symbol (w ++ " and ".toList))) := by
  have hquote : isQuote q := by
    rcases mem_of_openAfter hopen with h | h
    · cases h
    · exact h.2
  have hpassed : ∀ c ∈ " and ".toList, c ≠ '\\' ∧ c ≠ q := by
    rcases isQuote_cases hquote with rfl | rfl <;> simp
  have hand : cut? (some q) (' ' :: ("and ".toList ++ r)) = (cut? (some q) r).map (prepend " and ".toList) :=
    cut?_some_append hpassed r
  rw [cut?_comparing hflag hs hw, hopen, hand, map_prepend_prepend, ← comparing_append]

/-- Behind an operand that leaves a quote open the first clause goes on, to its end if the quote does not come
again. -/
theorem clauses_behind_open (hflag : Text.isFlag flag) (hs : o.symbol? = some symbol) (hw : IsBare w)
    (hC : Text.trim C ≠ []) {q : Char} (hopen : openAfter none w = some q) :
    ∃ t others, t <+: C ∧ (q ∉ C → t = C ∧ others = []) ∧
      clauses (comparing flag symbol (w ++ " and ".toList ++ C)) =
        Text.trim (comparing flag symbol (w ++ " and ".toList ++ t)) :: others := by
  have hcut := cut?_behind_open hflag hs hw hopen (Text.trimEnd C)
  rw [clauses_comparing_and flag symbol w hC, clausesFrom_eq, hcut]
  cases hc : cut? (some q) (Text.trimEnd C) with
  | none =>
    refine ⟨C, [], List.prefix_refl C, fun _ => ⟨rfl, rfl⟩, ?_⟩
    have htrim := trim_comparing flag symbol (w ++ " and ".toList) hC
    rw [List.append_assoc w _ (Text.trimEnd C)] at htrim
    show [Text.trim (comparing flag symbol (w ++ (" and ".toList ++ Text.trimEnd C)))] = _
    rw [← htrim, Text.trim_trim]
  | some p =>
    obtain ⟨t, u⟩ := p
    have hinitial := (prefix_of_cut? hc).trans (Text.isPrefix_trimEnd C)
    refine ⟨t, clausesFrom u, hinitial, ?_, ?_⟩
    · intro hq
      rw [cut?_of_not_mem fun hm => hq ((Text.isPrefix_trimEnd C).subset hm)] at hc
      cases hc
    · rw [comparing_append flag symbol _ t]
      rfl

/-- A text with a quote in it, but not in front, is an operand that stands for itself. -/
theorem ofOperand_bare {v : Text} {q : Char} (hhead : ∀ c ∈ (Text.trim v).head?, isQuote c = false) (hq : isQuote q)
    (hm : q ∈ Text.trim v) : Literal.ofOperand v = .text (Text.trim v) := by
  have hread := Binary64.read?_eq_none (Literal.isForeign_quote (isQuote_cases hq)) hm
  have hword : ∀ word : Text, q ∉ word → Text.trim v ≠ word := fun word hn he => hn (he ▸ hm)
  have hunquote : Text.unquote (Text.trim v) = Text.trim v := by
    unfold Text.unquote
    split
    · next p c r he =>
      rw [he] at hhead
      have hp := hhead p rfl
      rw [if_neg]
      intro h
      rw [isQuote, decide_eq_true h.1] at hp
      cases hp
    · rfl
  have htrue : q ∉ "true".toList := by rcases isQuote_cases hq with rfl | rfl <;> decide
  have hfalse : q ∉ "false".toList := by rcases isQuote_cases hq with rfl | rfl <;> decide
  simp only [Literal.ofOperand, hread, Literal.ofWord, if_neg (hword _ htrue), if_neg (hword _ hfalse), hunquote]

/-- The first clause behind an operand that leaves a quote open: what follows the operand belongs to it. -/
theorem clause?_behind_open (hflag : Text.isFlag flag) (hs : o.symbol? = some symbol) (hw : IsBare w)
    {q : Char} (hopen : openAfter none w = some q) {t : Text} (hn : '\n' ∉ t) :
    clause? (Text.trim (comparing flag symbol (w ++ " and ".toList ++ t))) =
      some (compare flag o (.text (Text.trim (w ++ " and ".toList ++ t)))) := by
  obtain ⟨hmem, hquote⟩ : q ∈ w ∧ isQuote q := by
    rcases mem_of_openAfter hopen with h | h
    · cases h
    · exact h
  have hblank : Text.isBlank q = false := by rcases isQuote_cases hquote with rfl | rfl <;> rfl
  have hstart : Text.startsSolid (w ++ " and ".toList ++ t) := by
    rw [List.append_assoc]
    exact Text.startsSolid_append (Text.ends_of_not_blank hw.isWord.1 hw.isWord.2).1 _
  have hhead : ∀ c ∈ (w ++ " and ".toList ++ t).head?, isQuote c = false := by
    intro c hc
    apply hw.unquoted
    cases hcs : w with
    | nil => exact absurd hcs hw.isWord.1
    | cons d r => rw [hcs] at hc; exact hc
  have hline : '\n' ∉ w ++ " and ".toList ++ t := by
    simp [Text.newline_not_mem_of_isWord hw.isWord, hn]
  have hq : q ∈ w ++ " and ".toList ++ t := by simp [hmem]
  generalize w ++ " and ".toList ++ t = v at hstart hhead hline hq ⊢
  have htrim := Text.mem_trim hq hblank
  have hend : Text.trim v = Text.trimEnd v := by rw [Text.trim, Text.trimStart_of_startsSolid hstart]
  have hclause : Text.trim (comparing flag symbol v) = comparing flag symbol (Text.trim v) := by
    rw [hend]
    exact trim_comparing flag symbol [] (List.ne_nil_of_mem htrim)
  have hhead' : ∀ c ∈ (Text.trim v).head?, isQuote c = false := by
    intro c hc
    obtain ⟨b, hb⟩ := Text.isPrefix_trimEnd v
    rw [← hend] at hb
    apply hhead
    rw [← hb, List.head?_append, Option.mem_def.1 hc]
    rfl
  have hread : clause? (comparing flag symbol (Text.trim v)) = some (compare flag o (.ofOperand (Text.trim v))) :=
    clause?_symbol hflag hs (Text.startsSolid_trim (List.ne_nil_of_mem htrim)) fun hm =>
      hline ((Text.trim_sublist v).subset hm)
  rw [← Text.trim_trim] at hhead' htrim
  rw [hclause, hread, ofOperand_bare hhead' hquote htrim, Text.trim_trim]

/-- Behind an operand in which no quote is left open a condition is read with this operand, and the rest is read as
if it stood alone. Where a quote is left open, what follows the operand becomes a part of it; up to the end, if the
quote does not come again, and then nothing is dropped. -/
theorem read_behind_operand (hflag : Text.isFlag flag) (hs : o.symbol? = some symbol) (hw : IsBare w)
    (hC : Text.trim C ≠ []) :
    (openAfter none w = none → read false (comparing flag symbol (w ++ " and ".toList ++ C)) =
      .ok (compare flag o (.ofOperand w) :: kept C, dropped C)) ∧
    ∀ q, openAfter none w = some q → '\n' ∉ C →
      (∃ t others, t <+: C ∧ kept (comparing flag symbol (w ++ " and ".toList ++ C)) =
        compare flag o (.text (Text.trim (w ++ " and ".toList ++ t))) :: others) ∧
      (q ∉ C → ∀ strict, read strict (comparing flag symbol (w ++ " and ".toList ++ C)) =
        .ok ([compare flag o (.text (Text.trim (w ++ " and ".toList ++ C)))], [])) := by
  constructor
  · intro hclosed
    have hclauses := clauses_behind_closed hflag hs hw hC hclosed
    have hclause : clause? (comparing flag symbol w) = some (compare flag o (.ofOperand w)) :=
      clause?_symbol hflag hs (Text.ends_of_not_blank hw.isWord.1 hw.isWord.2).1
        (Text.newline_not_mem_of_isWord hw.isWord)
    have hkept : kept (comparing flag symbol (w ++ " and ".toList ++ C)) = compare flag o (.ofOperand w) :: kept C := by
      rw [kept, hclauses, List.filterMap_cons, hclause]
      rfl
    have hdropped : dropped (comparing flag symbol (w ++ " and ".toList ++ C)) = dropped C := by
      rw [dropped, hclauses, List.filter_cons_of_neg (by simp [hclause])]
      rfl
    rw [read_false, hkept, hdropped]
  · intro q hopen hn
    obtain ⟨t, others, hinitial, hrest, hclauses⟩ := clauses_behind_open hflag hs hw hC hopen
    have hclause := clause?_behind_open hflag hs hw hopen fun hm => hn (hinitial.subset hm)
    refine ⟨⟨t, others.filterMap clause?, hinitial, ?_⟩, ?_⟩
    · rw [kept, hclauses, List.filterMap_cons, hclause]
    · intro hq strict
      obtain ⟨rfl, rfl⟩ := hrest hq
      have hdropped : dropped (comparing flag symbol (w ++ " and ".toList ++ t)) = [] := by
        rw [dropped, hclauses, List.filter_cons_of_neg (by rw [hclause]; simp)]
        rfl
      rw [read_of_dropped_nil strict hdropped, kept, hclauses, List.filterMap_cons, hclause]
      rfl

theorem read_behind_operand_pairs :
    read false "$who != a'b'\\ and $c and it".toList =
      .ok ([compare "who".toList .notEquals (.ofOperand "a'b'\\".toList), isSet ['c']], ["it".toList]) ∧
    read true "$who == O'Brien and $c".toList =
      .ok ([compare "who".toList .equals (.text "O'Brien and $c".toList)], []) := by
  have hpairs := (@read_behind_operand "who".toList "!=".toList "a'b'\\".toList "$c and it".toList .notEquals
    (by decide) rfl ⟨⟨by decide, by simp [Text.isBlank]⟩, by simp [isQuote], by decide⟩ (by decide)).1 rfl
  have hopen := (@read_behind_operand "who".toList "==".toList "O'Brien".toList "$c".toList .equals (by decide) rfl
    ⟨⟨by decide, by simp [Text.isBlank]⟩, by simp [isQuote], by decide⟩ (by decide)).2 '\'' rfl (by decide)
  have hrest : kept "$c and it".toList = [isSet ['c']] ∧ dropped "$c and it".toList = ["it".toList] := by
    constructor <;> with_unfolding_all rfl
  rw [hrest.1, hrest.2] at hpairs
  exact ⟨hpairs, hopen.2 (by decide) true⟩

/-- The second condition is read as a part of the name in front of it. -/
theorem obrien_swallows : IsBare "O'Brien".toList ∧
    read false "$a == O'Brien and $b".toList = .ok ([compare ['a'] .equals (.text "O'Brien and $b".toList)], []) ∧
    read false "$a == O'Brien and $b".toList ≠
      .ok (compare ['a'] .equals (.ofOperand "O'Brien".toList) :: kept "$b".toList, dropped "$b".toList) := by
  have hread : read false "$a == O'Brien and $b".toList =
      .ok ([compare ['a'] .equals (.text "O'Brien and $b".toList)], []) := by with_unfolding_all rfl
  refine ⟨⟨⟨by decide, by simp [Text.isBlank]⟩, by simp [isQuote], by decide⟩, hread, ?_⟩
  rw [hread]
  intro h
  have hkept : kept "$b".toList = [isSet ['b']] := by with_unfolding_all rfl
  rw [hkept] at h
  simp at h

end Operand

end DialogueScript.Condition
