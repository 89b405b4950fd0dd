import DialogueScript.Proofs.Node.Dispatch
/-!
# Passages

A jump leaves the node, so a line behind it does nothing, unless a choice or a line of a bracket begins the next passage
before it comes. A line that would act there is dead; all others are live.

Results:
* `countP_liveLines`: the lines that act are those that are dead and those that act among the live ones.
* `Kind.Settles`: lines of which none is dead, put together from the front to the back.
-/
namespace DialogueScript

/-! ## Passages -/

namespace Line

/-- The line goes on at another node. -/
def isJump (line : Text) : Bool :=
  match command? line with
  | some (.jump _) => true
  | _ => false

/-- The line sets a flag. -/
def isSet (line : Text) : Bool :=
  match command? line with
  | some (.set ..) => true
  | _ => false

/-- A passage of a body begins at a choice and at each line of a bracket. -/
def opensPassage (line : Text) : Bool :=
  (choice? line).isSome || match command? line with
    | some (.ifThen _) | some (.elseIf _) | some .orElse | some .endIf => true
    | _ => false

/-- Whether the passage is left behind a line, given whether it was left in front of it. -/
def leaves (gone : Bool) (line : Text) : Bool := !opensPassage line && (gone || isJump line)

end Line

/-- A line that does something, in the body of a node: it is spoken or sets a flag, or is part of what a branch says,
or states a part of a storylet or a pool. -/
def Kind.acts : Kind → Text → Bool
  | speech, line => (Line.dialogue? line).isSome || Line.isSet line
  | menu, line => Line.isSet line
  | branching, line => !Line.isComment line && (Line.command? line).isNone && (Line.choice? line).isNone
  | storylet, line | pool, line => (Line.directive? line).isSome

/-- The lines that would act, but stand behind a jump in their passage. -/
def deadLines (k : Kind) : Bool → List SourceLine → List SourceLine
  | _, [] => []
  | gone, l :: ls =>
    if gone && k.acts l.text then l :: deadLines k (Line.leaves gone l.text) ls
    else deadLines k (Line.leaves gone l.text) ls

/-- All other lines. -/
def liveLines (k : Kind) : Bool → List SourceLine → List SourceLine
  | _, [] => []
  | gone, l :: ls =>
    if gone && k.acts l.text then liveLines k (Line.leaves gone l.text) ls
    else l :: liveLines k (Line.leaves gone l.text) ls

namespace Block

/-- The dead lines of a block that is a node of a kind. -/
def dead (b : Block) (k : Kind) : List SourceLine := deadLines k false b.meaningful

/-- The block without its dead lines. -/
def alive (b : Block) (k : Kind) : Block := { b with body := liveLines k false b.meaningful }

end Block

variable {k : Kind} {gone : Bool} {l : SourceLine} {ls : List SourceLine}

/-! ## Dead and live lines -/

theorem liveLines_of_dead_nil (h : deadLines k gone ls = []) : liveLines k gone ls = ls := by
  induction ls generalizing gone with
  | nil => rfl
  | cons l ls ih =>
    rw [deadLines] at h
    rw [liveLines]
    split at h
    · cases h
    · next hl => rw [if_neg hl, ih h]

theorem liveLines_sublist (k : Kind) (gone : Bool) (ls : List SourceLine) : (liveLines k gone ls).Sublist ls := by
  induction ls generalizing gone with
  | nil => exact .slnil
  | cons l ls ih =>
    rw [liveLines]
    split
    · exact .cons _ (ih _)
    · exact .cons_cons _ (ih _)

/-- Every line that acts is dead or among the live ones. -/
theorem countP_liveLines (k : Kind) (gone : Bool) (ls : List SourceLine) :
    (liveLines k gone ls).countP (k.acts ·.text) + (deadLines k gone ls).length = ls.countP (k.acts ·.text) := by
  induction ls generalizing gone with
  | nil => rfl
  | cons l ls ih =>
    have := ih (Line.leaves gone l.text)
    rw [liveLines, deadLines]
    by_cases hl : gone && k.acts l.text
    · have hacts : k.acts l.text := (Bool.and_eq_true_iff.1 hl).2
      rw [if_pos hl, if_pos hl, List.countP_cons, if_pos hacts, List.length_cons]
      omega
    · rw [if_neg hl, if_neg hl, List.countP_cons, List.countP_cons]
      omega

namespace Block

theorem meaningful_alive (b : Block) (k : Kind) : (b.alive k).meaningful = liveLines k false b.meaningful :=
  List.filter_eq_self.2 fun _ hl => (List.mem_filter.1 ((liveLines_sublist k false b.meaningful).subset hl)).2

/-- A block with as many lines that act when its dead lines are gone had none of them. -/
theorem dead_eq_nil_of_count {b : Block}
    (h : (b.alive k).meaningful.countP (k.acts ·.text) = b.meaningful.countP (k.acts ·.text)) : b.dead k = [] := by
  have hcount := countP_liveLines k false b.meaningful
  rw [← meaningful_alive, h] at hcount
  exact List.length_eq_zero_iff.1 (by unfold dead; omega)

end Block

/-! ## What leaves a passage -/

/-- Whether the passage is left behind a command. -/
def Line.Command.leaves (gone : Bool) : Line.Command → Bool
  | .jump _ => true
  | .ifThen _ | .elseIf _ | .orElse | .endIf => false
  | .set .. | .other _ => gone

theorem Line.leaves_of_command? {line : Text} {c : Command} (h : command? line = some c) :
    leaves gone line = c.leaves gone := by
  unfold leaves opensPassage isJump
  rw [choice?_of_command? h, h]
  cases c <;> simp [Command.leaves]

/-- A line that is neither a command nor a choice leaves the passage as it is. -/
theorem Line.leaves_of_none {line : Text} (hcommand : command? line = none) (hchoice : choice? line = none) :
    leaves gone line = gone := by
  unfold leaves opensPassage isJump
  rw [hchoice, hcommand]
  simp

/-! ## Lines of which none is dead -/

/-- None of these lines acts behind a jump; from whether the passage was left in front of them to whether it is left
behind them. -/
inductive Kind.Settles (k : Kind) : Bool → List Text → Bool → Prop
  | nil {gone : Bool} : Settles k gone [] gone
  | cons {gone gone' : Bool} {t : Text} {ts : List Text} (live : (gone && k.acts t) = false)
    (rest : Settles k (Line.leaves gone t) ts gone') : Settles k gone (t :: ts) gone'

namespace Kind.Settles

variable {gone' gone'' : Bool} {t : Text} {ts us : List Text}

theorem append (h : k.Settles gone ts gone') (h' : k.Settles gone' us gone'') : k.Settles gone (ts ++ us) gone'' := by
  induction h with
  | nil => exact h'
  | cons live _ ih => exact .cons live (ih h')

theorem line (h : (gone && k.acts t) = false) : k.Settles gone [t] (Line.leaves gone t) := .cons h .nil

/-- Lines without a jump do not leave the passage. -/
theorem of_no_jump (h : ∀ t ∈ ts, Line.isJump t = false) : k.Settles false ts false := by
  induction ts with
  | nil => exact .nil
  | cons t ts ih =>
    obtain ⟨ht, hts⟩ := List.forall_mem_cons.1 h
    have hleaves : Line.leaves false t = false := by simp [Line.leaves, ht]
    refine .cons rfl ?_
    rw [hleaves]
    exact ih hts

theorem concat {gone' : Bool} {l : SourceLine} {seen : List SourceLine}
    (h : k.Settles gone (seen.map (·.text)) gone') (hl : (gone' && k.acts l.text) = false) :
    k.Settles gone ((seen ++ [l]).map (·.text)) (Line.leaves gone' l.text) := by
  rw [List.map_append]
  exact h.append (.line hl)

theorem dead_eq_nil (h : k.Settles gone (ls.map (·.text)) gone') : deadLines k gone ls = [] := by
  induction ls generalizing gone with
  | nil => rfl
  | cons l ls ih =>
    cases h with
    | cons live rest => rw [deadLines, if_neg (by rw [live]; exact Bool.false_ne_true), ih rest]

end Kind.Settles

end DialogueScript
