import DialogueScript.Proofs.Node.Menu
/-!
# The choices of a menu

Choices come one after another: a line that begins one puts it behind those that were read, and a line that sets a flag
puts the flag behind those of the choice that is open. No other line changes the ids, the texts and the flags of the
choices, and nothing that was read is changed later. So what a menu has of each of them is read off its lines in order.

Results:
* `Menu.Progress.Grows`: how the choices grow by one more choice or flag, or by neither.
* `Menu.grows_of_readLine`: what a line adds to the choices.
-/
namespace DialogueScript

/-! ## The flag that a line sets -/

def SourceLine.setFlag? (l : SourceLine) : Option Text :=
  match Line.command? l.text with
  | some (.set flag value) => if value = "true".toList then some flag else none
  | _ => none

namespace SourceLine

variable {l : SourceLine}

theorem setFlag?_of_set {flag : Text} (h : Line.command? l.text = some (.set flag "true".toList)) :
    l.setFlag? = some flag := by
  rw [setFlag?, h]
  exact if_pos rfl

theorem setFlag?_eq_some_iff {flag : Text} :
    l.setFlag? = some flag ↔ Line.command? l.text = some (.set flag "true".toList) := by
  refine ⟨fun h => ?_, setFlag?_of_set⟩
  unfold setFlag? at h
  split at h
  · next hc =>
    split at h
    · next hvalue => cases h; rw [hc, hvalue]
    · cases h
  · cases h

theorem setFlag?_of_none (h : Line.command? l.text = none) : l.setFlag? = none := by rw [setFlag?, h]

theorem setFlag?_of_isComment (h : Line.isComment l.text) : l.setFlag? = none :=
  setFlag?_of_none (Line.of_isComment h).1

theorem setFlag?_of_choice? {c : Text × Option Text} (h : Line.choice? l.text = some c) : l.setFlag? = none := by
  cases hc : Line.command? l.text with
  | none => exact setFlag?_of_none hc
  | some d => rw [Line.choice?_of_command? hc] at h; cases h

theorem setFlag?_of_command? {c : Line.Command} (h : Line.command? l.text = some c)
    (hc : ∀ flag value, c ≠ .set flag value) : l.setFlag? = none := by
  rw [setFlag?, h]
  split
  · next flag value he => exact absurd (Option.some.inj he) (hc flag value)
  · rfl

end SourceLine

/-! ## What is added to the choices -/

namespace Menu

def Event.choice? : Event → Option (Text × Option Text)
  | .choice text id => some (text, id)
  | _ => none

def Event.setFlag? : Event → Option Text
  | .set flag => some flag
  | _ => none

/-- The choices grow by the one that begins, or the flags by the one that is set. -/
structure Progress.Grows (node : Text) (p q : Progress) (choice : Option (Text × Option Text)) (flag : Option Text) :
    Prop where
  ids : q.choices.map (·.id) = p.choices.map (·.id) ++ (choice.map fun (_, id) => id.getD (p.defaultId node)).toList
  texts : q.choices.map (·.text) = p.choices.map (·.text) ++ (choice.map (·.1)).toList
  setFlags : q.choices.flatMap (·.setFlags) = p.choices.flatMap (·.setFlags) ++ flag.toList

variable {ctx : Node.Context} {node : Text} {p q : Progress} {e : Event} {l : SourceLine}

theorem Progress.grows_refl (node : Text) (p : Progress) : p.Grows node p none none := ⟨by simp, by simp, by simp⟩

theorem Progress.grows_of_step (h : p.Step node e q) : p.Grows node q e.choice? e.setFlag? := by
  cases h with
  | choice =>
    exact ⟨by simp [choices, Event.choice?], by simp [choices, Event.choice?], by simp [choices, Event.setFlag?]⟩
  | jump hc =>
    exact ⟨by simp [choices, hc, Event.choice?], by simp [choices, hc, Event.choice?],
      by simp [choices, hc, Event.setFlag?]⟩
  | set hc =>
    exact ⟨by simp [choices, hc, Event.choice?], by simp [choices, hc, Event.choice?],
      by simp [choices, hc, Event.setFlag?]⟩
  | ifThen | endIf =>
    exact ⟨by simp [choices, Event.choice?], by simp [choices, Event.choice?], by simp [choices, Event.setFlag?]⟩

/-- The event of a line begins the choice that the line begins, and sets the flag that it sets. -/
theorem Event.ofLine_eq (h : e.OfLine ctx l) : e.choice? = Line.choice? l.text ∧ e.setFlag? = l.setFlag? := by
  cases h with
  | choice hc => exact ⟨hc.symm, (SourceLine.setFlag?_of_choice? hc).symm⟩
  | set hc => exact ⟨(Line.choice?_of_command? hc).symm, (SourceLine.setFlag?_of_set hc).symm⟩
  | jump hc | ifThen hc | endIf hc =>
    exact ⟨(Line.choice?_of_command? hc).symm, (SourceLine.setFlag?_of_command? hc nofun).symm⟩

theorem grows_of_readLine {s s' : Progress × Nat} (h : (readLine ctx s l).result = .ok s') :
    s.1.Grows ctx.node s'.1 (Line.choice? l.text) l.setFlag? := by
  obtain ⟨hcomment, rfl⟩ | ⟨e, he, hstep⟩ := readLine_cases h
  · rw [Line.choice?_of_isComment hcomment, SourceLine.setFlag?_of_isComment hcomment]
    exact Progress.grows_refl _ _
  · obtain ⟨hchoice, hflag⟩ := Event.ofLine_eq he
    rw [← hchoice, ← hflag]
    exact Progress.grows_of_step hstep

end Menu
end DialogueScript
