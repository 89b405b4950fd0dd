import DialogueScript.Proofs.Line.Command
/-!
# Which flag a command sets

Behind `$` and the flag a command that sets a flag has a sign and a value. The sign is `=`, or the word `to` in any
case with blank characters on both sides; in front of neither can the flag go on. The reader also takes the two
letters `to` for a sign where they touch what is around them: the end of a longer name, or the start of a longer
word behind the name.

Results:
* `command?_eq_set_iff`: a command sets a flag when its argument does.
* `named_or_split_of_command?`: the flag that is set was written as a whole, or `to` touches it or the value.
* `command?_of_named`: a flag that was written as a whole is the one that is set.
-/
namespace DialogueScript.Line

/-! ## Commands and arguments -/

/-- The argument of a command line with a keyword. -/
def argument? (keyword line : Text) : Option Text := (bracketed? line).bind fun inner =>
  if inner.takeWhile (!Text.isBlank ·) = keyword then some (Text.trim (inner.dropWhile (!Text.isBlank ·))) else none

theorem command?_eq_set_iff {line flag value : Text} : command? line = some (.set flag value) ↔
    ∃ argument, argument? "set".toList line = some argument ∧ setting? argument = some (flag, value) := by
  constructor
  · intro h
    obtain ⟨inner, hinner, he⟩ := Option.map_eq_some_iff.1 h
    obtain ⟨hk, hs⟩ := ofParts_eq_set_iff.1 he
    exact ⟨_, by rw [argument?, hinner, Option.bind_some, if_pos hk], hs⟩
  · intro h
    obtain ⟨argument, ha, hs⟩ := h
    obtain ⟨inner, hinner, he⟩ := Option.bind_eq_some_iff.1 ha
    split at he
    · next hk =>
      cases he
      rw [command?, hinner, Option.map_some, ofParts_eq_set_iff.2 ⟨hk, hs⟩]
    · cases he

/-- An argument is trimmed. -/
theorem endsSolid_of_argument? {keyword line argument : Text} (h : argument? keyword line = some argument)
    (hne : argument ≠ []) : Text.endsSolid argument := by
  obtain ⟨inner, -, he⟩ := Option.bind_eq_some_iff.1 h
  split at he
  · cases he
    exact Text.endsSolid_trim hne
  · cases he

/-! ## Signs and values -/

/-- The two letters are those of the word `to`, in any case. -/
def isTo (t o : Char) : Bool := t.toLower = 't' ∧ o.toLower = 'o'

/-- What is written behind a whole flag: a sign and a value. -/
inductive Assigns : Text → Text → Prop
  | equals {gap v : Text} (blank : ∀ c ∈ gap, Text.isBlank c) : Assigns (gap ++ '=' :: v) (Text.trim v)
  | toWord {gap v : Text} {t o b : Char} (blank : ∀ c ∈ gap, Text.isBlank c) (apart : gap ≠ []) (word : isTo t o)
      (behind : Text.isBlank b) : Assigns (gap ++ t :: o :: b :: v) (Text.trim v)

/-- What else is taken for a sign and a value: letters `to` that touch the flag in front or the value behind. -/
inductive Touches : Text → Text → Prop
  | front {v : Text} {t o : Char} (word : isTo t o) : Touches (t :: o :: v) (Text.trim v)
  | back {gap v : Text} {t o : Char} (blank : ∀ c ∈ gap, Text.isBlank c) (apart : gap ≠ []) (word : isTo t o)
      (solid : Text.startsSolid v) : Touches (gap ++ t :: o :: v) (Text.trim v)

theorem Assigns.trim_eq {rest value : Text} (h : Assigns rest value) : Text.trim value = value := by
  cases h <;> exact Text.trim_trim _

theorem Assigns.ne_nil {rest value : Text} (h : Assigns rest value) : rest ≠ [] := by
  cases h <;> simp

/-- A whole flag ends where a sign begins. -/
theorem Assigns.isFlagChar_head? {rest value : Text} (h : Assigns rest value) :
    ∀ c ∈ rest.head?, Text.isFlagChar c = false := by
  cases h with
  | @equals gap v blank => exact Text.isFlagChar_head? blank rfl v
  | @toWord gap v t o b blank apart word behind =>
    cases gap with
    | nil => exact absurd rfl apart
    | cons d gap =>
      intro c hc
      obtain rfl := Option.some.inj hc
      exact Text.isFlagChar_of_isBlank (blank d (by simp))

/-- An assignment is a sign and a value, or has `to` where it touches something. -/
theorem assigns_or_touches {rest v : Text} (h : assignment? rest = some v) :
    Assigns rest (Text.trim v) ∨ Touches rest (Text.trim v) := by
  have hsplit : rest.takeWhile Text.isBlank ++ Text.trimStart rest = rest := List.takeWhile_append_dropWhile
  have hblank : ∀ c ∈ rest.takeWhile Text.isBlank, Text.isBlank c := List.all_eq_true.1 List.all_takeWhile
  generalize rest.takeWhile Text.isBlank = gap at hsplit hblank
  unfold assignment? at h
  split at h
  · next r hr =>
    obtain ⟨rfl, -⟩ := Text.remainder?_eq_some_iff.1 h
    rw [hr] at hsplit
    rw [← hsplit, Text.trim_trimStart]
    exact .inl (.equals hblank)
  · next t o r _ hr =>
    rw [hr] at hsplit
    split at h
    · next hto =>
      obtain ⟨rfl, hne, -⟩ := Text.remainder?_eq_some_iff.1 h
      have hword : isTo t o := decide_eq_true hto
      rw [← hsplit, Text.trim_trimStart]
      by_cases hgap : gap = []
      · subst hgap
        exact .inr (.front hword)
      · cases r with
        | nil => exact absurd rfl hne
        | cons b v =>
          by_cases hb : Text.isBlank b
          · have htrim : Text.trim (b :: v) = Text.trim v := Text.trim_blank_append (b := [b]) (by simp [hb]) v
            rw [htrim]
            exact .inl (.toWord hblank hgap hword hb)
          · exact .inr (.back hblank hgap hword (by simpa using hb))
    · cases h
  · cases h

/-- What is behind the sign ends with the value, so the value is the remainder. -/
theorem remainder?_behind {c : Char} {v : Text} (h : Text.endsSolid (c :: v)) (hne : Text.trim v ≠ [])
    (hn : '\n' ∉ Text.trim v) : Text.remainder? v = some (Text.trim v) := by
  have hv : Text.endsSolid v := by
    cases v with
    | nil => exact absurd rfl hne
    | cons d r => rwa [← Text.endsSolid_append_cons [c] d r]
  exact Text.remainder?_of_endsSolid hv hn

theorem toLower_of_isBlank {c : Char} (h : Text.isBlank c) : c.toLower = c := by
  unfold Char.toLower
  split
  · next hu =>
    have hlower : 65 ≤ c.val.toNat := UInt32.le_iff_toNat_le.1 hu.1
    have hupper : c.val.toNat ≤ 90 := UInt32.le_iff_toNat_le.1 hu.2
    rw [Text.isBlank_of_val ⟨by omega, by omega⟩] at h
    cases h
  · rfl

theorem isTo_solid {t o : Char} (h : isTo t o) : Text.isBlank t = false ∧ t ≠ '=' := by
  have ht : t.toLower = 't' := (of_decide_eq_true h).1
  constructor
  · rw [Bool.eq_false_iff]
    intro hb
    rw [toLower_of_isBlank hb] at ht
    rw [ht] at hb
    cases hb
  · intro he
    rw [he] at ht
    cases ht

/-- A sign and a value are an assignment. -/
theorem Assigns.assignment?_eq {rest value : Text} (h : Assigns rest value) (hsolid : Text.endsSolid rest)
    (hne : value ≠ []) (hn : '\n' ∉ value) : assignment? rest = some value := by
  cases h with
  | @equals gap v blank =>
    have hstart : Text.trimStart (gap ++ '=' :: v) = '=' :: v := Text.trimStart_blank_append blank _
    rw [Text.endsSolid_append_cons] at hsolid
    rw [assignment?, hstart]
    exact remainder?_behind hsolid hne hn
  | @toWord gap v t o b blank apart word behind =>
    obtain ⟨hblank, heq⟩ := isTo_solid word
    have hstart : Text.trimStart (gap ++ t :: o :: b :: v) = t :: o :: b :: v := by
      rw [Text.trimStart_blank_append blank, Text.trimStart_of_startsSolid (by simp [hblank])]
    have htrim : Text.trim (b :: v) = Text.trim v := Text.trim_blank_append (b := [b]) (by simp [behind]) v
    have hend : Text.endsSolid (o :: b :: v) := by
      rw [Text.endsSolid_append_cons] at hsolid
      rwa [← Text.endsSolid_append_cons [t] o (b :: v)]
    rw [← htrim] at hne hn ⊢
    rw [assignment?, hstart]
    split
    · next hr => exact absurd (List.cons.inj hr).1 heq
    · next hr =>
      cases hr
      rw [if_pos (of_decide_eq_true word)]
      exact remainder?_behind hend hne hn
    · next hnone => exact absurd rfl (hnone t o (b :: v))

/-- Letters `to` that touch something are no sign. -/
theorem Touches.not_assigns {rest value other : Text} (h : Touches rest value) : ¬ Assigns rest other := by
  intro ha
  -- the first character that is not blank tells `=` from `to`; what is next to the letters tells the rest apart
  cases h with
  | @front v t o word =>
    obtain ⟨hblank, heq⟩ := isTo_solid word
    have hstart : Text.trimStart (t :: o :: v) = t :: o :: v := Text.trimStart_of_startsSolid (by simp [hblank])
    generalize hr : t :: o :: v = rest at ha
    cases ha with
    | @equals gap w blank =>
      rw [hr, Text.trimStart_blank_append blank, Text.trimStart_of_startsSolid rfl, ← hr] at hstart
      exact heq (List.cons.inj hstart).1.symm
    | @toWord gap w t' o' b blank apart _ _ =>
      cases gap with
      | nil => exact apart rfl
      | cons d gap =>
        obtain rfl := (List.cons.inj hr).1
        rw [blank t (by simp)] at hblank
        cases hblank
  | @back gap v t o blank apart word solid =>
    obtain ⟨hblank, heq⟩ := isTo_solid word
    have hstart : Text.trimStart (gap ++ t :: o :: v) = t :: o :: v := by
      rw [Text.trimStart_blank_append blank, Text.trimStart_of_startsSolid (by simp [hblank])]
    generalize gap ++ t :: o :: v = rest at ha hstart
    cases ha with
    | @equals gap w blank =>
      rw [Text.trimStart_blank_append blank, Text.trimStart_of_startsSolid rfl] at hstart
      exact heq (List.cons.inj hstart).1.symm
    | @toWord gap w t' o' b blank _ word behind =>
      rw [Text.trimStart_blank_append blank, Text.trimStart_of_startsSolid (by simp [(isTo_solid word).1])] at hstart
      cases hstart
      simp [behind] at solid

/-! ## Flags -/

/-- A name is split off in front of an assignment. -/
theorem flagAssignment?_eq_some {s flag v : Text} (h : flagAssignment? s = some (flag, v)) :
    ∃ rest, s = flag ++ rest ∧ assignment? rest = some v := by
  induction s generalizing flag with
  | nil => cases h
  | cons c r ih =>
    have hhere : (assignment? (c :: r)).map (fun v => (([] : Text), v)) = some (flag, v) →
        ∃ rest, c :: r = flag ++ rest ∧ assignment? rest = some v := by
      intro h
      obtain ⟨w, hw, he⟩ := Option.map_eq_some_iff.1 h
      cases he
      exact ⟨c :: r, rfl, hw⟩
    simp only [flagAssignment?] at h
    split at h
    · split at h
      · next f w hf =>
        cases h
        obtain ⟨rest, hr, hw⟩ := ih hf
        exact ⟨rest, by rw [hr]; rfl, hw⟩
      · exact hhere h
    · exact hhere h

/-- The whole name is split off when an assignment follows it. -/
theorem flagAssignment?_append {flag rest v : Text} (hflag : ∀ c ∈ flag, Text.isFlagChar c)
    (hhead : ∀ c ∈ rest.head?, Text.isFlagChar c = false) (h : assignment? rest = some v) :
    flagAssignment? (flag ++ rest) = some (flag, v) := by
  induction flag with
  | nil =>
    cases rest with
    | nil => cases h
    | cons c r => simp [flagAssignment?, hhead c rfl, h]
  | cons c flag ih =>
    rw [List.cons_append, flagAssignment?]
    simp only [hflag c (by simp), if_true, ih fun d hd => hflag d (by simp [hd])]

theorem setting?_eq_some {s flag value : Text} (h : setting? s = some (flag, value)) :
    ∃ rest v, s = '$' :: (flag ++ rest) ∧ assignment? rest = some v ∧ value = Text.trim v := by
  unfold setting? at h
  split at h
  · split at h
    · obtain ⟨⟨f, v⟩, hf, he⟩ := Option.map_eq_some_iff.1 h
      cases he
      obtain ⟨rest, rfl, hv⟩ := flagAssignment?_eq_some hf
      exact ⟨rest, v, rfl, hv, rfl⟩
    · cases h
  · cases h

theorem setting?_append {flag rest v : Text} (hflag : Text.isFlag flag)
    (hhead : ∀ c ∈ rest.head?, Text.isFlagChar c = false) (h : assignment? rest = some v) :
    setting? ('$' :: (flag ++ rest)) = some (flag, Text.trim v) := by
  cases flag with
  | nil => cases hflag
  | cons c r =>
    simp only [Text.isFlag, Text.shaped, Bool.and_eq_true, List.all_eq_true] at hflag
    rw [List.cons_append, setting?, if_pos hflag.1, flagAssignment?_append hflag.2 hhead h]
    rfl

/-! ## Commands -/

/-- The command is `set`, and its argument is `$`, the whole of the flag, a sign and the value. -/
def Names (flag value line : Text) : Prop :=
  ∃ rest, argument? "set".toList line = some ('$' :: (flag ++ rest)) ∧ Text.isFlag flag ∧
    (∀ c ∈ rest.head?, Text.isFlagChar c = false) ∧ Assigns rest value

/-- The command is `set`, and in its argument letters `to` between the flag and the value touch one of them. -/
def Splits (flag value line : Text) : Prop :=
  ∃ rest, argument? "set".toList line = some ('$' :: (flag ++ rest)) ∧ Text.isFlag flag ∧ Touches rest value

/-- The flag that a command sets was written as a whole, unless letters `to` touch it or the value. -/
theorem named_or_split_of_command? {line flag value : Text} (h : command? line = some (.set flag value)) :
    Names flag value line ∨ Splits flag value line := by
  have hflag := isFlag_of_command? h
  obtain ⟨argument, ha, hs⟩ := command?_eq_set_iff.1 h
  obtain ⟨rest, v, rfl, hv, rfl⟩ := setting?_eq_some hs
  rcases assigns_or_touches hv with hassigns | htouches
  · exact .inl ⟨rest, ha, hflag, hassigns.isFlagChar_head?, hassigns⟩
  · exact .inr ⟨rest, ha, hflag, htouches⟩

/-- A line is not both. -/
theorem Names.not_splits {flag value line : Text} (h : Names flag value line) : ¬ Splits flag value line := by
  rintro ⟨rest, hargument, -, htouches⟩
  obtain ⟨rest', hargument', -, -, hassigns⟩ := h
  have hrest : '$' :: (flag ++ rest) = '$' :: (flag ++ rest') := Option.some.inj (hargument.symm.trans hargument')
  obtain rfl := List.append_cancel_left (List.cons.inj hrest).2
  exact htouches.not_assigns hassigns

/-- A flag that was written as a whole, in front of a value, is set to it. -/
theorem command?_of_named {line flag value : Text} (h : Names flag value line) (hne : value ≠ [])
    (hn : '\n' ∉ value) : command? line = some (.set flag value) := by
  obtain ⟨rest, ha, hflag, hhead, hassigns⟩ := h
  have hsolid : Text.endsSolid rest := by
    have hend := endsSolid_of_argument? ha (List.cons_ne_nil _ _)
    cases rest with
    | nil => exact absurd rfl hassigns.ne_nil
    | cons c r => rwa [← Text.endsSolid_append_cons ('$' :: flag) c r]
  have hset := setting?_append hflag hhead (hassigns.assignment?_eq hsolid hne hn)
  rw [hassigns.trim_eq] at hset
  exact command?_eq_set_iff.2 ⟨_, ha, hset⟩

end DialogueScript.Line
