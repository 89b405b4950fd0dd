import DialogueScript.Node.Dispatch
/-!
# Renumbering the lines of blocks

Readers of blocks never look at the numbers of lines: they only carry them along, into faults, into notices, and
in their states for what they may still have to report. So the lines of a block can be given other numbers before
it is read as well as after.

Results:
* `relabel`, `Reading.relabel`: a result or a reading with its numbers replaced; `relabel_foldlM`,
  `Reading.relabel_foldlM`: a row of steps commutes with that when one step does.
* `Block.node_renumber`: reading a block commutes with renumbering its lines.
-/
namespace DialogueScript

/-! ## Numbers in lines, blocks, notices and faults -/

def SourceLine.renumber (φ : Nat → Nat) (l : SourceLine) : SourceLine := { l with number := φ l.number }

def Block.renumber (φ : Nat → Nat) (b : Block) : Block :=
  { b with titleLine := φ b.titleLine, body := b.body.map (·.renumber φ) }

def Notice.renumber (φ : Nat → Nat) : Notice → Notice
  | droppedCondition node line clause => .droppedCondition node (φ line) clause
  | ignoredHeader node key => .ignoredHeader node key
  | ignoredDirective line name => .ignoredDirective (φ line) name

def NodeFault.renumber (φ : Nat → Nat) (f : NodeFault) : NodeFault := { f with line := φ f.line }

/-! ## Numbers in results -/

/-- A result through `r`, a fault through `e`. -/
def relabel {ε ε' α β : Type} (e : ε → ε') (r : α → β) : Except ε α → Except ε' β
  | .ok a => .ok (r a)
  | .error f => .error (e f)

section Relabel

variable {ε ε' α β γ δ σ τ : Type} {e : ε → ε'} {r : α → β} {q : γ → δ}

theorem toOption_relabel (x : Except ε α) : (relabel e r x).toOption = x.toOption.map r := by
  cases x <;> rfl

theorem relabel_map {x : Except ε α} {f : α → γ} {f' : β → δ} (h : ∀ a, f' (r a) = q (f a)) :
    (relabel e r x).map f' = relabel e q (x.map f) := by
  cases x with
  | ok a => exact congrArg Except.ok (h a)
  | error f => rfl

theorem relabel_bind {x : Except ε α} {f : α → Except ε γ} {f' : β → Except ε' δ}
    (h : ∀ a, f' (r a) = relabel e q (f a)) : (relabel e r x).bind f' = relabel e q (x.bind f) := by
  cases x with
  | ok a => exact h a
  | error f => rfl

/-- A row of steps commutes with relabelling when each step does. -/
theorem relabel_foldlM {step : σ → α → Except ε σ} {step' : τ → β → Except ε' τ} {g : α → β} {r : σ → τ}
    (h : ∀ s a, step' (r s) (g a) = relabel e r (step s a)) (as : List α) (s : σ) :
    (as.map g).foldlM step' (r s) = relabel e r (as.foldlM step s) := by
  induction as generalizing s with
  | nil => rfl
  | cons a as ih =>
    rw [List.map_cons, List.foldlM_cons, List.foldlM_cons, h]
    exact relabel_bind fun t => ih t

/-- A row of steps commutes with relabelling, and those that are not kept can be left out, when it is so for each. -/
theorem relabel_foldlM_filter {step : σ → α → Except ε σ} {step' : τ → α → Except ε' τ} {keep : α → Bool} {r : σ → τ}
    (hkeep : ∀ s a, keep a → step' (r s) a = relabel e r (step s a))
    (hskip : ∀ s a, keep a = false → relabel e r (step s a) = .ok (r s)) (as : List α) (s : σ) :
    (as.filter keep).foldlM step' (r s) = relabel e r (as.foldlM step s) := by
  induction as generalizing s with
  | nil => rfl
  | cons a as ih =>
    rw [List.foldlM_cons]
    cases ha : keep a with
    | true =>
      rw [List.filter_cons_of_pos ha, List.foldlM_cons, hkeep s a ha]
      exact relabel_bind fun t => ih t
    | false =>
      have hs := hskip s a ha
      rw [List.filter_cons_of_neg (by simp [ha])]
      cases hstep : step s a with
      | error f => rw [hstep] at hs; cases hs
      | ok t =>
        rw [hstep] at hs
        have hr : r t = r s := Except.ok.inj hs
        rw [← hr]
        exact ih t

theorem relabel_foldlM_bind {step : σ → α → Except ε σ} {step' : τ → β → Except ε' τ} {g : α → β} {r : σ → τ}
    {f : σ → Except ε γ} {f' : τ → Except ε' δ} (h : ∀ s a, step' (r s) (g a) = relabel e r (step s a))
    (hf : ∀ s, f' (r s) = relabel e q (f s)) (as : List α) (s : σ) :
    ((as.map g).foldlM step' (r s)).bind f' = relabel e q ((as.foldlM step s).bind f) := by
  rw [relabel_foldlM h]
  exact relabel_bind hf

end Relabel

namespace Reading

variable {ε ε' α β γ δ σ τ : Type} {e : ε → ε'} {r : α → β} {q : γ → δ}

/-- A result through `r`, a fault through `e`, and notices with their lines renumbered. -/
def relabel (φ : Nat → Nat) (e : ε → ε') (r : α → β) (x : Reading ε α) : Reading ε' β :=
  ⟨x.notices.map (Notice.renumber φ), DialogueScript.relabel e r x.result⟩

theorem result_relabel (φ : Nat → Nat) (x : Reading ε α) :
    (x.relabel φ e r).result = DialogueScript.relabel e r x.result := rfl

theorem relabel_ofExcept (φ : Nat → Nat) (x : Except ε α) :
    ofExcept (DialogueScript.relabel e r x) = (ofExcept x).relabel φ e r := rfl

variable {φ : Nat → Nat}

theorem relabel_mapError {x : Reading ε α} {κ κ' : Type} {f : ε → κ} {f' : ε' → κ'} {e' : κ → κ'}
    (h : ∀ a, f' (e a) = e' (f a)) : (x.relabel φ e r).mapError f' = (x.mapError f).relabel φ e' r := by
  obtain ⟨ns, result⟩ := x
  cases result with
  | ok a => rfl
  | error a => exact congrArg (fun b => (⟨ns.map (Notice.renumber φ), .error b⟩ : Reading κ' β)) (h a)

theorem relabel_andThen {x : Reading ε α} {f : α → Reading ε γ} {f' : β → Reading ε' δ}
    (h : ∀ a, f' (r a) = (f a).relabel φ e q) : (x.relabel φ e r).andThen f' = (x.andThen f).relabel φ e q := by
  obtain ⟨ns, result⟩ := x
  cases result with
  | error f => rfl
  | ok a =>
    show (⟨ns.map (Notice.renumber φ) ++ (f' (r a)).notices, (f' (r a)).result⟩ : Reading ε' δ) = _
    rw [h]
    simp [andThen, relabel]

/-- A row of steps commutes with relabelling when each step does. -/
theorem relabel_foldlM {step : σ → α → Reading ε σ} {step' : τ → β → Reading ε' τ} {g : α → β} {r : σ → τ}
    (h : ∀ s a, step' (r s) (g a) = (step s a).relabel φ e r) (as : List α) (s : σ) :
    (as.map g).foldlM step' (r s) = (as.foldlM step s).relabel φ e r := by
  induction as generalizing s with
  | nil => rfl
  | cons a as ih =>
    rw [List.map_cons, List.foldlM_cons, List.foldlM_cons, h]
    exact relabel_andThen fun t => ih t

theorem relabel_foldlM_andThen {step : σ → α → Reading ε σ} {step' : τ → β → Reading ε' τ} {g : α → β} {r : σ → τ}
    {f : σ → Reading ε γ} {f' : τ → Reading ε' δ} (h : ∀ s a, step' (r s) (g a) = (step s a).relabel φ e r)
    (hf : ∀ s, f' (r s) = (f s).relabel φ e q) (as : List α) (s : σ) :
    ((as.map g).foldlM step' (r s)).andThen f' = ((as.foldlM step s).andThen f).relabel φ e q := by
  rw [relabel_foldlM h]
  exact relabel_andThen hf

end Reading

/-- A result that holds no numbers, with the line of its fault renumbered. -/
abbrev renumberFault {α : Type} (φ : Nat → Nat) : Except NodeFault α → Except NodeFault α :=
  relabel (NodeFault.renumber φ) id

/-- A reading whose result holds no numbers, with the lines of its fault and its notices renumbered. -/
abbrev Reading.renumber {α : Type} (φ : Nat → Nat) : Reading NodeFault α → Reading NodeFault α :=
  relabel φ (NodeFault.renumber φ) id

variable (φ : Nat → Nat)

/-! ## Steps that all readers share -/

namespace Node

theorem readTarget_renumber (n : Nat) (target : Text) :
    readTarget (φ n) target = renumberFault φ (readTarget n target) := by
  unfold readTarget
  split <;> rfl

theorem readFlag_renumber (n : Nat) (flag value : Text) :
    readFlag (φ n) flag value = renumberFault φ (readFlag n flag value) := by
  unfold readFlag
  split <;> rfl

theorem readConditions_renumber (ctx : Context) (n : Nat) (t : Text) :
    readConditions ctx (φ n) t = (readConditions ctx n t).renumber φ := by
  unfold readConditions
  split
  · simp [Reading.relabel, relabel, Notice.renumber]
  · rfl

end Node

theorem Block.meaningful_renumber (b : Block) : (b.renumber φ).meaningful = b.meaningful.map (·.renumber φ) :=
  List.filter_map

/-! ## Speeches -/

namespace Speech

theorem Progress.addDialogue_renumber (p : Progress) (n : Nat) (who text : Text) :
    p.addDialogue (φ n) who text = renumberFault φ (p.addDialogue n who text) := by
  unfold addDialogue
  split
  · split <;> rfl
  · rfl

theorem Progress.step_renumber (p : Progress) (l : SourceLine) :
    p.step (l.renumber φ) = renumberFault φ (p.step l) := by
  unfold step
  simp only [SourceLine.renumber, Node.readTarget_renumber, Node.readFlag_renumber, addDialogue_renumber]
  split
  · rfl
  · split
    · split
      · rfl
      · exact relabel_map fun _ => rfl
    · exact relabel_map fun _ => rfl
    · rfl
    · split <;> rfl

theorem Progress.finish_renumber (p : Progress) (n : Nat) : p.finish (φ n) = renumberFault φ (p.finish n) := by
  unfold finish
  split <;> rfl

theorem read_renumber (b : Block) : read (b.renumber φ) = renumberFault φ (read b) := by
  unfold read
  rw [Block.meaningful_renumber]
  exact relabel_foldlM_bind (r := id) (Progress.step_renumber φ) (fun p => p.finish_renumber φ b.titleLine) _ _

end Speech

/-! ## Storylets and pools -/

theorem Directive.required_renumber (d : Directive) (n : Nat) (key : Text) :
    d.required (φ n) key = renumberFault φ (d.required n key) := by
  unfold required
  split <;> rfl

theorem Directive.policy_renumber {α : Type} (d : Directive) (n : Nat) (key : Text) (ofName? : Text → Option α)
    (default : α) : d.policy (φ n) key ofName? default = renumberFault φ (d.policy n key ofName? default) := by
  unfold policy
  split
  · rfl
  · split <;> rfl

namespace Storylet

theorem ofDirective_renumber (n : Nat) (d : Directive) : ofDirective (φ n) d = renumberFault φ (ofDirective n d) := by
  unfold ofDirective
  simp only [Directive.required_renumber, Directive.policy_renumber]
  refine relabel_bind fun template => relabel_bind fun entry => relabel_bind fun exit => rfl

theorem step_renumber (found : Option Storylet) (l : SourceLine) :
    step found (l.renumber φ) = renumberFault φ (step found l) := by
  unfold step
  simp only [SourceLine.renumber, ofDirective_renumber]
  split
  · rfl
  · split
    · split
      · rfl
      · exact relabel_map fun _ => rfl
    · rfl
  · rfl

theorem read_renumber (b : Block) : read (b.renumber φ) = renumberFault φ (read b) := by
  unfold read
  rw [Block.meaningful_renumber]
  exact relabel_foldlM_bind (r := id) (step_renumber φ) (fun found => by cases found <;> rfl) _ none

end Storylet

namespace Pool

theorem ofDirective_renumber (n : Nat) (d : Directive) : ofDirective (φ n) d = renumberFault φ (ofDirective n d) := by
  unfold ofDirective
  simp only [Directive.required_renumber, Directive.policy_renumber]
  exact relabel_bind fun pool => relabel_bind fun selection => rfl

theorem memberWeight_renumber (n : Nat) (d : Directive) :
    memberWeight (φ n) d = renumberFault φ (memberWeight n d) := by
  unfold memberWeight
  split
  · rfl
  · split <;> rfl

theorem memberOfDirective_renumber (n : Nat) (d : Directive) :
    memberOfDirective (φ n) d = renumberFault φ (memberOfDirective n d) := by
  unfold memberOfDirective
  simp only [memberWeight_renumber, Directive.required_renumber]
  split
  · rfl
  · exact relabel_bind fun weight => relabel_bind fun template => rfl

theorem Progress.readDirective_renumber (p : Progress) (n : Nat) (d : Directive) :
    p.readDirective (φ n) d = renumberFault φ (p.readDirective n d) := by
  unfold readDirective
  simp only [ofDirective_renumber, memberOfDirective_renumber]
  split
  · split
    · rfl
    · exact relabel_map fun _ => rfl
  · split
    · exact relabel_map fun _ => rfl
    · rfl

theorem Progress.step_renumber (p : Progress) (l : SourceLine) :
    p.step (l.renumber φ) = renumberFault φ (p.step l) := by
  unfold step
  simp only [SourceLine.renumber, Node.readTarget_renumber, readDirective_renumber]
  split
  · split
    · rfl
    · exact relabel_map fun _ => rfl
  · split
    · rfl
    · split <;> rfl

theorem Progress.finish_renumber (p : Progress) (n : Nat) : p.finish (φ n) = renumberFault φ (p.finish n) := by
  unfold finish
  split <;> rfl

theorem read_renumber (b : Block) : read (b.renumber φ) = renumberFault φ (read b) := by
  unfold read
  rw [Block.meaningful_renumber]
  exact relabel_foldlM_bind (r := id) (Progress.step_renumber φ) (fun p => p.finish_renumber φ b.titleLine) _ _

end Pool

/-! ## Menus -/

namespace Menu

theorem event_renumber (ctx : Node.Context) (k : Nat) (l : SourceLine) :
    event ctx (φ k) (l.renumber φ) = (event ctx k l).relabel φ (NodeFault.renumber φ) (Prod.map id φ) := by
  unfold event
  simp only [SourceLine.renumber, Node.readTarget_renumber, Node.readFlag_renumber, Node.readConditions_renumber]
  split
  · rfl
  · split
    · exact congrArg Reading.ofExcept (relabel_map fun _ => rfl)
    · exact congrArg Reading.ofExcept (relabel_map fun _ => rfl)
    · exact Reading.relabel_andThen fun _ => rfl
    · rfl
    · rfl

theorem Progress.step_relabel (p : Progress) (node : Text) (n k : Nat) (e : Event) :
    (((p.step node e).mapError fun f => (⟨φ n, .menu f⟩ : NodeFault)).map (·, φ k)) =
      relabel (NodeFault.renumber φ) (Prod.map id φ)
        (((p.step node e).mapError fun f => (⟨n, .menu f⟩ : NodeFault)).map (·, k)) := by
  cases p.step node e <;> rfl

theorem readLine_renumber (ctx : Node.Context) (s : Progress × Nat) (l : SourceLine) :
    readLine ctx (Prod.map id φ s) (l.renumber φ) =
      (readLine ctx s l).relabel φ (NodeFault.renumber φ) (Prod.map id φ) := by
  have htext : (l.renumber φ).text = l.text := rfl
  unfold readLine
  rw [htext]
  split
  · rfl
  · rw [show (Prod.map id φ s).2 = φ s.2 from rfl, event_renumber]
    exact Reading.relabel_andThen fun a => congrArg Reading.ofExcept (s.1.step_relabel φ ctx.node l.number a.2 a.1)

theorem finish_renumber (n : Nat) (s : Progress × Nat) :
    finish (φ n) (Prod.map id φ s) = renumberFault φ (finish n s) := by
  unfold finish
  simp only [Prod.map, id]
  split
  · rfl
  · split <;> rfl

theorem read_renumber (ctx : Node.Context) (b : Block) : read ctx (b.renumber φ) = (read ctx b).renumber φ := by
  unfold read
  rw [Block.meaningful_renumber]
  exact Reading.relabel_foldlM_andThen (r := Prod.map id φ) (readLine_renumber φ ctx)
    (fun s => congrArg Reading.ofExcept (finish_renumber φ b.titleLine s)) _ (.start, b.titleLine)

end Menu

/-! ## Branchings -/

namespace Branching

def OpenBranch.renumber (b : OpenBranch) : OpenBranch := { b with line := φ b.line }

def Progress.renumber (p : Progress) : Progress := { p with current := p.current.map (·.renumber φ) }

theorem OpenBranch.finish_renumber (node : Text) (count : Nat) (b : OpenBranch) :
    (b.renumber φ).finish node count = renumberFault φ (b.finish node count) := by
  unfold finish
  simp only [renumber]
  split <;> rfl

theorem OpenBranch.addContent_renumber (b : OpenBranch) (l : SourceLine) :
    (b.renumber φ).addContent (l.renumber φ) =
      relabel (NodeFault.renumber φ) (OpenBranch.renumber φ) (b.addContent l) := by
  have htext : (l.renumber φ).text = l.text := rfl
  have hnarrated : (b.renumber φ).isNarrated = b.isNarrated := rfl
  have hspeaker : (b.renumber φ).speaker = b.speaker := rfl
  unfold addContent
  rw [htext, hnarrated, hspeaker]
  split
  · split
    · rfl
    · split
      · split <;> rfl
      · rfl
  · split <;> rfl

namespace Progress

theorem openBranch_renumber (p : Progress) (n : Nat) :
    (p.renumber φ).openBranch (φ n) = relabel (NodeFault.renumber φ) (OpenBranch.renumber φ) (p.openBranch n) := by
  unfold openBranch
  cases hc : p.current <;> simp only [renumber, hc] <;> rfl

theorem closeBranch_renumber (node : Text) (p : Progress) (n : Nat) (keyword : Text) :
    (p.renumber φ).closeBranch node (φ n) keyword =
      relabel (NodeFault.renumber φ) (renumber φ) (p.closeBranch node n keyword) := by
  unfold closeBranch
  cases hc : p.current with
  | none => simp only [renumber, hc]; rfl
  | some b =>
    simp only [renumber, hc, Option.map_some, OpenBranch.finish_renumber]
    rw [show (b.renumber φ).kind = b.kind from rfl]
    split
    · rfl
    · exact relabel_map fun _ => rfl

theorem readDirective_renumber (p : Progress) (n : Nat) (d : Except Directive.Fault Directive) :
    (p.renumber φ).readDirective (φ n) d = relabel (NodeFault.renumber φ) (renumber φ) (p.readDirective n d) := by
  unfold readDirective
  cases d with
  | error f => rfl
  | ok d =>
    cases hc : p.current with
    | none => simp only [renumber, hc]; rfl
    | some b =>
      simp only [renumber, hc, Option.map_some]
      rw [show (b.renumber φ).isUntouched = b.isUntouched from rfl]
      split
      · split <;> rfl
      · rfl

theorem readJump_renumber (p : Progress) (n : Nat) (target : Text) :
    (p.renumber φ).readJump (φ n) target = relabel (NodeFault.renumber φ) (renumber φ) (p.readJump n target) := by
  unfold readJump
  rw [Node.readTarget_renumber, openBranch_renumber]
  refine relabel_bind fun t => relabel_bind fun b => ?_
  rw [show (b.renumber φ).next = b.next from rfl]
  split <;> rfl

theorem readContent_renumber (p : Progress) (l : SourceLine) :
    (p.renumber φ).readContent (l.renumber φ) =
      relabel (NodeFault.renumber φ) (renumber φ) (p.readContent l) := by
  unfold readContent
  rw [show (l.renumber φ).number = φ l.number from rfl, openBranch_renumber]
  refine relabel_bind fun b => ?_
  rw [show (b.renumber φ).next = b.next from rfl, OpenBranch.addContent_renumber]
  split
  · rfl
  · exact relabel_map fun _ => rfl

theorem openGuarded_renumber (ctx : Node.Context) (p : Progress) (n : Nat) (kind : BranchKind) (condition : Text) :
    (p.renumber φ).openGuarded ctx (φ n) kind condition =
      (p.openGuarded ctx n kind condition).relabel φ (NodeFault.renumber φ) (renumber φ) := by
  unfold openGuarded
  rw [Node.readConditions_renumber]
  exact Reading.relabel_andThen fun _ => rfl

theorem readCommand_renumber (ctx : Node.Context) (p : Progress) (l : SourceLine) (c : Line.Command) :
    (p.renumber φ).readCommand ctx (l.renumber φ) c =
      (p.readCommand ctx l c).relabel φ (NodeFault.renumber φ) (renumber φ) := by
  have hnumber : (l.renumber φ).number = φ l.number := rfl
  cases c with
  | ifThen condition =>
    simp only [readCommand, hnumber, openGuarded_renumber]
    rw [show (p.renumber φ).isBegun = p.isBegun from rfl]
    split <;> rfl
  | elseIf condition =>
    simp only [readCommand, hnumber, closeBranch_renumber]
    rw [Reading.relabel_ofExcept φ]
    exact Reading.relabel_andThen fun q => q.openGuarded_renumber φ ctx l.number .elseIf condition
  | orElse =>
    simp only [readCommand, hnumber, closeBranch_renumber]
    exact congrArg Reading.ofExcept (relabel_map fun _ => rfl)
  | endIf =>
    simp only [readCommand, hnumber, closeBranch_renumber]
    exact congrArg Reading.ofExcept (relabel_map fun _ => rfl)
  | jump target => exact congrArg Reading.ofExcept (p.readJump_renumber φ l.number target)
  | set flag value => rfl
  | other inner => rfl

theorem step_renumber (ctx : Node.Context) (p : Progress) (l : SourceLine) :
    (p.renumber φ).step ctx (l.renumber φ) =
      (p.step ctx l).relabel φ (NodeFault.renumber φ) (renumber φ) := by
  have htext : (l.renumber φ).text = l.text := rfl
  have hended : (p.renumber φ).isEnded = p.isEnded := rfl
  unfold step
  rw [htext, hended]
  split
  · rfl
  · split
    · exact congrArg Reading.ofExcept (p.readDirective_renumber φ l.number _)
    · exact p.readCommand_renumber φ ctx l _
    · split
      · rfl
      · split
        · rfl
        · exact congrArg Reading.ofExcept (p.readContent_renumber φ l)

theorem finish_renumber (p : Progress) (n : Nat) :
    (p.renumber φ).finish (φ n) = renumberFault φ (p.finish n) := by
  unfold finish
  cases hc : p.current with
  | some b => simp only [renumber, hc]; rfl
  | none =>
    simp only [renumber, hc, Option.map_none]
    split <;> rfl

end Progress

theorem read_renumber (ctx : Node.Context) (b : Block) : read ctx (b.renumber φ) = (read ctx b).renumber φ := by
  unfold read
  rw [Block.meaningful_renumber]
  exact Reading.relabel_foldlM_andThen (r := Progress.renumber φ) (Progress.step_renumber φ ctx)
    (fun p => congrArg Reading.ofExcept (p.finish_renumber φ b.titleLine)) _ .start

end Branching

/-! ## Blocks -/

namespace Block

theorem kind_renumber (b : Block) : (b.renumber φ).kind = renumberFault φ b.kind := by
  have hdirectives : ((b.renumber φ).meaningful.findSome? fun l => l.directive?.bind Directive.kind?) =
      b.meaningful.findSome? fun l => l.directive?.bind Directive.kind? := by
    rw [meaningful_renumber, List.findSome?_map]
    rfl
  have hfirst : (b.renumber φ).firstLine? = b.firstLine?.map (·.renumber φ) := by
    unfold firstLine?
    rw [meaningful_renumber, List.find?_map]
    rfl
  have hchoices : ((b.renumber φ).body.any fun l => (Line.choice? l.text).isSome) =
      b.body.any fun l => (Line.choice? l.text).isSome := List.any_map
  unfold kind
  rw [hdirectives, hfirst]
  split
  · rfl
  · cases b.firstLine? with
    | none => rfl
    | some l =>
      simp only [Option.map_some, kindOfLine, hchoices]
      rw [show (l.renumber φ).text = l.text from rfl]
      split
      · rfl
      · split
        · rfl
        · split <;> rfl

theorem payload_renumber (b : Block) (ctx : Node.Context) (k : Kind) :
    (b.renumber φ).payload ctx k = (b.payload ctx k).renumber φ := by
  cases k with
  | speech =>
    simp only [payload, Speech.read_renumber]
    exact congrArg Reading.ofExcept (relabel_map fun _ => rfl)
  | menu =>
    simp only [payload, Menu.read_renumber]
    exact Reading.relabel_andThen fun _ => rfl
  | branching =>
    simp only [payload, Branching.read_renumber]
    exact Reading.relabel_andThen fun _ => rfl
  | storylet =>
    simp only [payload, Storylet.read_renumber]
    exact congrArg Reading.ofExcept (relabel_map fun _ => rfl)
  | pool =>
    simp only [payload, Pool.read_renumber]
    exact congrArg Reading.ofExcept (relabel_map fun _ => rfl)

theorem readHeader_renumber (b : Block) (position : Option Position) (header : Text × Text) :
    (b.renumber φ).readHeader position header = (b.readHeader position header).renumber φ := by
  unfold readHeader
  dsimp only
  split
  · split <;> rfl
  · rfl

/-- Reading a block commutes with renumbering its lines. -/
theorem node_renumber (b : Block) (strict : Bool) : (b.renumber φ).node strict = (b.node strict).renumber φ := by
  have hheaders : b.headers.foldlM (b.renumber φ).readHeader none =
      (b.headers.foldlM b.readHeader none).renumber φ := by
    have := Reading.relabel_foldlM (g := id) (r := id) (b.readHeader_renumber φ) b.headers none
    rwa [List.map_id] at this
  unfold node
  rw [kind_renumber, renumberFault, Reading.relabel_ofExcept φ]
  refine Reading.relabel_andThen fun k => ?_
  refine Eq.trans (congrArg (Reading.andThen · _) hheaders) ?_
  refine Reading.relabel_andThen fun position => ?_
  refine Eq.trans (congrArg (Reading.andThen · _) (b.payload_renumber φ ⟨b.title, strict⟩ k)) ?_
  exact Reading.relabel_andThen fun _ => rfl

end Block
end DialogueScript
