import DialogueScript.Condition.Conjunction
import DialogueScript.Proofs.Condition.Clause
/-!
# Conditions that hold together are read back

The text of conditions is cut at the word `and` outside of quotes. No cut falls inside of a written
condition: behind each of its spaces stands a symbol, a flag or a literal, none of which starts like `and`,
and whatever a quoted text holds, its own quotes and backslashes are escaped, so the quote that closes it is
the one that was written last.

Clauses are read one after another. What is kept and dropped on the way is told apart by looking at each clause for
itself, and a strict reading ends at the first clause that is dropped.

Results:
* `Uncut`: what no cut falls into; `uncut_text`: the written form of a condition.
* `clauses_joined`: the clauses of joined conditions are their written forms.
* `read_false`, `read_true`: what a lenient and a strict reading give, in terms of what is kept and dropped.
* `read_joined`: conditions that hold together are read back, strictly or not.
* `writable_of_read`: conditions that were read can be written.
-/
namespace DialogueScript.Condition

/-! ## What no cut falls into -/

/-- The pieces of a cut with a text in front of the first one. -/
def prepend (w : Text) (p : Text × Text) : Text × Text := (w ++ p.1, p.2)

@[simp] theorem map_prepend_nil (o : Option (Text × Text)) : o.map (prepend []) = o := by
  have h : prepend [] = id := rfl
  rw [h, Option.map_id, id]

theorem map_prepend_prepend (v w : Text) (o : Option (Text × Text)) :
    (o.map (prepend w)).map (prepend v) = o.map (prepend (v ++ w)) := by
  rw [Option.map_map]
  congr 1
  funext p
  simp [prepend]

/-- No cut falls into the text or between the text and what follows it, and no quote is open behind it. -/
def Uncut (w : Text) : Prop := ∀ rest, cut? none (w ++ rest) = (cut? none rest).map (prepend w)

theorem Uncut.append {v w : Text} (hv : Uncut v) (hw : Uncut w) : Uncut (v ++ w) := by
  intro rest
  rw [List.append_assoc, hv, hw, map_prepend_prepend]

theorem cut?_cons {c : Char} {r : Text} (hq : c ≠ '"' ∧ c ≠ '\'') (ha : afterAnd? (c :: r) = none) :
    cut? none (c :: r) = (cut? none r).map (prepend [c]) := by
  rw [cut?, if_neg (by simp [hq]), ha]
  rfl

/-- The character neither separates clauses nor belongs to a quote. -/
def isPlain (c : Char) : Bool := !Text.isBlank c && c != '"' && c != '\''

theorem uncut_of_plain {w : Text} (h : w.all isPlain) : Uncut w := by
  induction w with
  | nil => intro rest; simp
  | cons c w ih =>
    simp only [List.all_cons, isPlain, Bool.and_eq_true, Bool.not_eq_true', bne_iff_ne] at h
    obtain ⟨⟨⟨hb, hdouble⟩, hsingle⟩, hw⟩ := h
    intro rest
    have ha : afterAnd? (c :: (w ++ rest)) = none := by simp [afterAnd?, hb]
    rw [List.cons_append, cut?_cons ⟨hdouble, hsingle⟩ ha, ih hw rest, map_prepend_prepend]
    rfl

theorem isPlain_of_isIdChar {c : Char} (h : Text.isIdChar c) : isPlain c := by
  have hdouble : c ≠ '"' := by rintro rfl; cases h
  have hsingle : c ≠ '\'' := by rintro rfl; cases h
  simp [isPlain, Text.isBlank_of_isIdChar h, hdouble, hsingle]

theorem uncut_of_isIdChar {w : Text} (h : ∀ c ∈ w, Text.isIdChar c) : Uncut w :=
  uncut_of_plain (List.all_eq_true.2 fun c hc => isPlain_of_isIdChar (h c hc))

theorem afterAnd?_of_ne {c : Char} (hb : Text.isBlank c = false) (hc : c.toLower ≠ 'a') (w : Text) :
    afterAnd? (' ' :: c :: w) = none := by
  have ht : Text.trimStart (c :: w) = c :: w := Text.trimStart_of_startsSolid (by simp [hb])
  rw [afterAnd?, if_pos (show Text.isBlank ' ' = true from rfl), ht]
  split
  · next he =>
    cases he
    exact if_neg fun h => hc (List.cons.inj h.1).1
  · rfl

theorem afterAnd?_and (s : Text) : afterAnd? (' ' :: 'a' :: 'n' :: 'd' :: ' ' :: s) = some (Text.trimStart s) := by
  have ht : Text.trimStart ('a' :: 'n' :: 'd' :: ' ' :: s) = 'a' :: 'n' :: 'd' :: ' ' :: s :=
    Text.trimStart_of_startsSolid rfl
  rw [afterAnd?, if_pos (show Text.isBlank ' ' = true from rfl), ht]
  simp only
  rw [if_pos (by decide)]

/-- No cut falls before a word that does not start like `and`. -/
theorem uncut_space {c : Char} {w : Text} (hb : Text.isBlank c = false) (hc : c.toLower ≠ 'a') (hw : Uncut (c :: w)) :
    Uncut (' ' :: c :: w) := by
  intro rest
  have hcut := cut?_cons (by decide) (afterAnd?_of_ne hb hc (w ++ rest))
  rw [← List.cons_append, hw rest, map_prepend_prepend] at hcut
  exact hcut

/-! ## Quotes -/

theorem cut?_quotedChar (c : Char) (r : Text) :
    cut? (some '"') (Text.quotedChar c ++ r) = (cut? (some '"') r).map (prepend (Text.quotedChar c)) := by
  by_cases h1 : c = '"'
  · subst h1; rfl
  by_cases h2 : c = '\\'
  · subst h2; rfl
  by_cases h3 : c = '\n'
  · subst h3; rfl
  · simp only [Text.quotedChar, h1, h2, h3, if_false, List.cons_append, List.nil_append]
    rw [cut?]
    · rw [if_neg h1]; rfl
    · rintro d s rfl; exact absurd rfl h2

theorem cut?_quotedBody (s r : Text) :
    cut? (some '"') (Text.quotedBody s ++ r) = (cut? (some '"') r).map (prepend (Text.quotedBody s)) := by
  induction s with
  | nil => simp
  | cons c s ih => rw [Text.quotedBody_cons, List.append_assoc, cut?_quotedChar, ih, map_prepend_prepend]

theorem uncut_quote (s : Text) : Uncut (Text.quote s) := by
  intro rest
  have hopen : ∀ r, cut? none ('"' :: r) = (cut? (some '"') r).map (prepend ['"']) := by
    intro r
    rw [cut?, if_pos (.inl rfl)]
    rfl
  have hclose : cut? (some '"') ('"' :: rest) = (cut? none rest).map (prepend ['"']) := by
    rw [cut?, if_pos rfl]
    · rfl
    · simp
  rw [Text.quote, List.cons_append, List.append_assoc, List.singleton_append, hopen, cut?_quotedBody, hclose,
    map_prepend_prepend, map_prepend_prepend]
  rfl

/-! ## Written conditions -/

theorem uncut_written {l : Literal} (h : l.isFinite) : Uncut l.written := by
  cases l with
  | bool b => cases b <;> exact uncut_of_plain (by decide)
  | number x => exact uncut_of_isIdChar fun c hc =>
      Binary64.isIdChar_of_isNumeralChar (Binary64.isNumeralChar_of_mem_text h c hc)
  | text t => exact uncut_quote t

/-- No literal starts like `and`. -/
theorem head_written {l : Literal} (h : l.isFinite) : ∀ c ∈ l.written.head?, c.toLower ≠ 'a' := by
  cases l with
  | bool b => cases b <;> (rintro _ ⟨⟩; decide)
  | number x =>
    intro c hc
    have hn := Binary64.isNumeralChar_of_mem_text h c (List.mem_of_mem_head? hc)
    simp only [Binary64.isNumeralChar, Bool.or_eq_true, beq_iff_eq] at hn
    rcases hn with (hn | rfl) | rfl
    · rw [Binary64.toLower_of_isDigit hn]; rintro rfl; cases hn
    · decide
    · decide
  | text t => simp [Literal.written, Text.quote]

theorem uncut_operand {l : Literal} (h : l.isFinite) : Uncut (' ' :: l.written) := by
  have hw := uncut_written h
  have ha := head_written h
  have hs := (Literal.written_ends h).1
  cases hl : l.written with
  | nil => rw [hl] at hs; cases hs
  | cons c r =>
    rw [hl] at hw ha hs
    exact uncut_space (by simpa using hs) (ha c rfl) hw

theorem uncut_symbol {o : Operator} {symbol : Text} (hs : o.symbol? = some symbol) : Uncut (' ' :: symbol) := by
  cases o <;> cases hs <;> exact uncut_space rfl (by decide) (uncut_of_plain (by decide))

theorem uncut_flag {flag : Text} (h : Text.isFlag flag) : Uncut ('$' :: flag) :=
  Uncut.append (v := ['$']) (uncut_of_plain (by decide)) (uncut_of_isIdChar (Text.isIdChar_of_isFlag h))

theorem uncut_text {c : Condition} (h : c.Writable) : Uncut c.text := by
  rcases h.cases with he | he | ⟨o, symbol, l, he, hs, hl⟩ <;> rw [he]
  · exact uncut_flag h.isFlag
  · exact Uncut.append (v := "not".toList) (uncut_of_plain (by decide))
      (uncut_space rfl (by decide) (uncut_flag h.isFlag))
  · have hu := (uncut_flag h.isFlag).append ((uncut_symbol hs).append (uncut_operand hl))
    rw [text_compare hs]
    simpa using hu

/-- A written condition has solid ends. -/
theorem text_ends {c : Condition} (h : c.Writable) : Text.startsSolid c.text ∧ Text.endsSolid c.text := by
  have hf := (Text.ends_of_not_blank (Text.ne_nil_of_shaped h.isFlag)
    (Text.not_blank_of_isIdChar (Text.isIdChar_of_isFlag h.isFlag))).2
  rcases h.cases with he | he | ⟨o, symbol, l, he, hs, hl⟩ <;> rw [he]
  · exact ⟨rfl, Text.endsSolid_cons hf _⟩
  · exact ⟨rfl, Text.endsSolid_append hf "not $".toList⟩
  · rw [text_compare hs]
    refine ⟨rfl, Text.endsSolid_cons (Text.endsSolid_append (Text.endsSolid_cons (Text.endsSolid_append ?_ _) _) _) _⟩
    exact Text.endsSolid_cons (Literal.written_ends hl).2 _

theorem newline_not_mem_text {c : Condition} (h : c.Writable) : '\n' ∉ c.text := by
  have hf := Text.not_mem_of_isIdChar (Text.isIdChar_of_isFlag h.isFlag) (d := '\n') rfl
  rcases h.cases with he | he | ⟨o, symbol, l, he, hs, hl⟩ <;> rw [he]
  · show '\n' ∉ '$' :: c.flag
    simp [hf]
  · show '\n' ∉ "not $".toList ++ c.flag
    simp [hf]
  · have hsym : '\n' ∉ symbol := by cases o <;> cases hs <;> decide
    have hw := Literal.newline_not_mem_written hl
    rw [text_compare hs]
    simp [hf, hsym, hw]

/-! ## Joined conditions -/

theorem joined_cons_cons (c d : Condition) (cs : List Condition) :
    joined (c :: d :: cs) = c.text ++ " and ".toList ++ joined (d :: cs) := rfl

theorem joined_ends {cs : List Condition} (hne : cs ≠ []) (h : ∀ c ∈ cs, c.Writable) :
    Text.startsSolid (joined cs) ∧ Text.endsSolid (joined cs) := by
  induction cs with
  | nil => exact absurd rfl hne
  | cons c cs ih =>
    have hc := text_ends (h c (by simp))
    cases cs with
    | nil => exact hc
    | cons d ds =>
      have hr := ih (by simp) fun x hx => h x (by simp [hx])
      rw [joined_cons_cons, List.append_assoc]
      exact ⟨Text.startsSolid_append hc.1 _, Text.endsSolid_append (Text.endsSolid_append hr.2 _) _⟩

theorem newline_not_mem_joined {cs : List Condition} (h : ∀ c ∈ cs, c.Writable) : '\n' ∉ joined cs := by
  induction cs with
  | nil => simp [joined]
  | cons c cs ih =>
    have hc := newline_not_mem_text (h c (by simp))
    cases cs with
    | nil => exact hc
    | cons d ds =>
      have hr := ih fun x hx => h x (by simp [hx])
      rw [joined_cons_cons]
      simp [hc, hr]

theorem clausesFrom_eq (s : Text) : clausesFrom s =
    match cut? none s with
    | some (t, u) => Text.trim t :: clausesFrom u
    | none => [Text.trim s] := by
  rw [clausesFrom]
  split <;> simp [*]

theorem cut?_and {w : Text} (hw : Uncut w) (s : Text) :
    cut? none (w ++ " and ".toList ++ s) = some (w, Text.trimStart s) := by
  have ha : cut? none (" and ".toList ++ s) = some ([], Text.trimStart s) := by
    show cut? none (' ' :: 'a' :: 'n' :: 'd' :: ' ' :: s) = _
    rw [cut?, if_neg (by decide), afterAnd?_and]
  rw [List.append_assoc, hw, ha]
  simp [prepend]

theorem clausesFrom_joined {cs : List Condition} (hne : cs ≠ []) (h : ∀ c ∈ cs, c.Writable) :
    clausesFrom (joined cs) = cs.map text := by
  induction cs with
  | nil => exact absurd rfl hne
  | cons c cs ih =>
    have hc := h c (by simp)
    have htrim := Text.trim_of_solid (text_ends hc).1 (text_ends hc).2
    cases cs with
    | nil =>
      have hcut : cut? none c.text = none := by
        have := uncut_text hc []
        rwa [List.append_nil] at this
      rw [joined, clausesFrom_eq, hcut]
      simp [htrim]
    | cons d ds =>
      have hr : ∀ x ∈ d :: ds, x.Writable := fun x hx => h x (by simp [hx])
      -- no clause holds a cut, so the first one is found right behind the first clause
      rw [joined_cons_cons, clausesFrom_eq, cut?_and (uncut_text hc),
        Text.trimStart_of_startsSolid (joined_ends (by simp) hr).1]
      simp only [htrim, ih (by simp) hr, List.map_cons]

theorem clauses_joined {cs : List Condition} (h : ∀ c ∈ cs, c.Writable) : clauses (joined cs) = cs.map text := by
  by_cases hne : cs = []
  · subst hne; rfl
  · obtain ⟨hs, he⟩ := joined_ends hne h
    unfold clauses
    rw [Text.trim_of_solid hs he]
    cases hj : joined cs with
    | nil => rw [hj] at hs; cases hs
    | cons c r =>
      simp only
      rw [← hj, clausesFrom_joined hne h]

/-! ## What is kept and what is dropped -/

theorem foldlM_readClause_false (cs : List Text) (ks : List Condition) (ds : List Text) :
    cs.foldlM (readClause false) (ks, ds) =
      .ok (ks ++ cs.filterMap clause?, ds ++ cs.filter fun c => (clause? c).isNone) := by
  induction cs generalizing ks ds with
  | nil => simp; rfl
  | cons c cs ih =>
    cases hc : clause? c with
    | some k =>
      have hstep : readClause false (ks, ds) c = .ok (ks ++ [k], ds) := by rw [readClause, hc]
      rw [List.foldlM_cons, hstep]
      exact (ih (ks ++ [k]) ds).trans (by simp [hc])
    | none =>
      have hstep : readClause false (ks, ds) c = .ok (ks, ds ++ [c]) := by
        rw [readClause, hc]
        rfl
      rw [List.foldlM_cons, hstep]
      exact (ih ks (ds ++ [c])).trans (by simp [hc])

/-- Up to the first clause that would be dropped a strict reading is like a lenient one. -/
theorem foldlM_readClause_true (cs : List Text) (ks : List Condition) (ds : List Text) :
    cs.foldlM (readClause true) (ks, ds) =
      match cs.filter fun c => (clause? c).isNone with
      | [] => .ok (ks ++ cs.filterMap clause?, ds)
      | c :: _ => .error ⟨c⟩ := by
  induction cs generalizing ks with
  | nil => simp; rfl
  | cons c cs ih =>
    cases hc : clause? c with
    | some k =>
      have hstep : readClause true (ks, ds) c = .ok (ks ++ [k], ds) := by rw [readClause, hc]
      rw [List.foldlM_cons, hstep]
      exact (ih (ks ++ [k])).trans (by simp [hc])
    | none =>
      have hstep : readClause true (ks, ds) c = .error ⟨c⟩ := by
        rw [readClause, hc]
        rfl
      rw [List.foldlM_cons, hstep, List.filter_cons_of_pos (by simp [hc])]
      rfl

/-- A lenient reading never fails. -/
theorem read_false (s : Text) : read false s = .ok (kept s, dropped s) := foldlM_readClause_false (clauses s) [] []

theorem read_true (s : Text) : read true s =
    match dropped s with
    | [] => .ok (kept s, [])
    | c :: _ => .error ⟨c⟩ := foldlM_readClause_true (clauses s) [] []

/-- When nothing is dropped, both readings give what is kept. -/
theorem read_of_dropped_nil (strict : Bool) {s : Text} (h : dropped s = []) : read strict s = .ok (kept s, []) := by
  cases strict with
  | false => rw [read_false, h]
  | true => rw [read_true, h]

/-- Whatever a reading gives is what is kept. -/
theorem eq_kept_of_read {strict : Bool} {s : Text} {cs : List Condition} {ds : List Text}
    (h : read strict s = .ok (cs, ds)) : cs = kept s := by
  cases strict with
  | false =>
    rw [read_false] at h
    cases h
    rfl
  | true =>
    rw [read_true] at h
    split at h
    · cases h; rfl
    · cases h

/-! ## Joined conditions are read back -/

theorem kept_joined {cs : List Condition} (h : ∀ c ∈ cs, c.Writable) : kept (joined cs) = cs := by
  rw [kept, clauses_joined h]
  induction cs with
  | nil => rfl
  | cons c cs ih =>
    rw [List.map_cons, List.filterMap_cons, clause?_text (h c (by simp))]
    simp only
    rw [ih fun x hx => h x (by simp [hx])]

theorem dropped_joined {cs : List Condition} (h : ∀ c ∈ cs, c.Writable) : dropped (joined cs) = [] := by
  rw [dropped, clauses_joined h, List.filter_eq_nil_iff]
  intro s hs
  obtain ⟨c, hc, rfl⟩ := List.mem_map.1 hs
  simp [clause?_text (h c hc)]

/-- Conditions that can be written are read back in the same order, and nothing is dropped: a strict reading
does not fail on them, and a lenient one has nothing to report. -/
theorem read_joined (strict : Bool) {cs : List Condition} (h : ∀ c ∈ cs, c.Writable) :
    read strict (joined cs) = .ok (cs, []) := by
  rw [read_of_dropped_nil strict (dropped_joined h), kept_joined h]

theorem read_joined_quotes :
    read true (joined [compare ['a'] .equals (.text "' and \"b\\ >> $c\n".toList), isNotSet ['d'],
        compare ['e'] .lessEqual (.number .zero)]) =
      .ok ([compare ['a'] .equals (.text "' and \"b\\ >> $c\n".toList), isNotSet ['d'],
        compare ['e'] .lessEqual (.number .zero)], []) :=
  read_joined true (by decide)

/-! ## What was read can be written -/

theorem writable_of_kept {s : Text} : ∀ c ∈ kept s, c.Writable := by
  intro c hc
  obtain ⟨t, -, ht⟩ := List.mem_filterMap.1 hc
  exact writable_of_clause? ht

theorem writable_of_read {strict : Bool} {s : Text} {cs : List Condition} {ds : List Text}
    (h : read strict s = .ok (cs, ds)) : ∀ c ∈ cs, c.Writable := by
  rw [eq_kept_of_read h]
  exact writable_of_kept

end DialogueScript.Condition
