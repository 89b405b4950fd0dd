import DialogueScript.Proofs.Line.Setting
import DialogueScript.Proofs.Node.Choices
import DialogueScript.Proofs.Node.Dispatch
/-!
# Which flags a node sets

Speeches and the choices of menus set flags; no other node does. While a body is read each command that sets a flag
puts the flag behind those that were set before, so the flags of the node are those of its commands in order.

Results:
* `Speech.setFlags_of_read`, `Menu.setFlags_of_read`: the flags of speeches and menus.
* `Block.exists_set_of_node`: every flag that a node sets is set by a line of its body.
-/
namespace DialogueScript

def Block.setFlags (b : Block) : List Text := b.body.filterMap SourceLine.setFlag?

def Payload.setFlags : Payload → List Text
  | speech s => s.setFlags
  | menu m => m.choices.flatMap (·.setFlags)
  | branching _ | storylet _ | pool _ => []

/-- Lines that are passed over set no flag. -/
theorem Block.setFlags_meaningful (b : Block) : b.meaningful.filterMap SourceLine.setFlag? = b.setFlags := by
  unfold Block.meaningful Block.setFlags
  rw [List.filterMap_filter]
  congr 1
  funext l
  split
  · rfl
  · next hl =>
    have hc : Line.isComment l.text := by
      simp only [SourceLine.isMeaningful, Bool.or_eq_true, Bool.not_eq_true', not_or, Bool.not_eq_false] at hl
      exact hl.1
    exact (SourceLine.setFlag?_of_isComment hc).symm

/-! ## Speeches -/

theorem Speech.Progress.setFlags_step {p q : Progress} {l : SourceLine} (h : p.step l = .ok q) :
    q.setFlags = p.setFlags ++ l.setFlag?.toList := by
  cases step_cases h with
  | comment hl => simp [SourceLine.setFlag?_of_isComment hl]
  | jump hc => simp [SourceLine.setFlag?_of_command? hc nofun]
  | set hc => simp [SourceLine.setFlag?_of_set hc]
  | dialogue hd => simp [SourceLine.setFlag?_of_none (Line.command?_of_dialogue? hd)]

/-- A speech sets the flags that its lines set. -/
theorem Speech.setFlags_of_read {b : Block} {s : Speech} (h : read b = .ok s) : s.setFlags = b.setFlags := by
  obtain ⟨p, hp, -, hs⟩ := run_of_read h
  have hflags : p.setFlags = [] ++ b.meaningful.filterMap SourceLine.setFlag? :=
    except_foldlM_collects (fun l q q' hstep => Progress.setFlags_step hstep) hp
  rw [hs, ← b.setFlags_meaningful]
  exact hflags

/-! ## Menus -/

/-- The choices of a menu set the flags that its lines set. -/
theorem Menu.setFlags_of_read {ctx : Node.Context} {b : Block} {m : Menu} (h : (read ctx b).result = .ok m) :
    m.choices.flatMap (·.setFlags) = b.setFlags := by
  obtain ⟨s, hfold, hm, -⟩ := run_of_read h
  have hstep (l : SourceLine) (t t' : Progress × Nat) (h : (readLine ctx t l).result = .ok t') :
      t'.1.choices.flatMap (·.setFlags) = t.1.choices.flatMap (·.setFlags) ++ l.setFlag?.toList :=
    (grows_of_readLine h).setFlags
  have hflags : s.1.choices.flatMap (·.setFlags) = [] ++ b.meaningful.filterMap SourceLine.setFlag? :=
    Reading.foldlM_collects hstep hfold
  rw [hm, ← b.setFlags_meaningful]
  exact hflags

/-! ## Nodes -/

/-- Every flag that a node sets is set by a line of its body. -/
theorem Block.exists_set_of_node {b : Block} {strict : Bool} {n : Node} (h : (b.node strict).result = .ok n) :
    ∀ f ∈ n.payload.setFlags, ∃ l ∈ b.body, Line.command? l.text = some (.set f "true".toList) := by
  obtain ⟨kind, -, h⟩ := Reading.andThen_eq_ok h
  obtain ⟨position, -, h⟩ := Reading.andThen_eq_ok h
  obtain ⟨payload, hpayload, h⟩ := Reading.andThen_eq_ok h
  cases h
  have hlines : ∀ f ∈ b.setFlags, ∃ l ∈ b.body, Line.command? l.text = some (.set f "true".toList) := by
    intro f hf
    obtain ⟨l, hl, he⟩ := List.mem_filterMap.1 hf
    exact ⟨l, hl, SourceLine.setFlag?_eq_some_iff.1 he⟩
  cases kind with
  | speech =>
    obtain ⟨s, hs, rfl⟩ := except_map_eq_ok hpayload
    rw [← Speech.setFlags_of_read hs] at hlines
    exact hlines
  | menu =>
    obtain ⟨m, hm, hpayload⟩ := Reading.andThen_eq_ok hpayload
    cases hpayload
    rw [← Menu.setFlags_of_read hm] at hlines
    exact hlines
  | branching =>
    obtain ⟨c, -, hpayload⟩ := Reading.andThen_eq_ok hpayload
    cases hpayload
    exact nofun
  | storylet => obtain ⟨s, -, rfl⟩ := except_map_eq_ok hpayload; exact nofun
  | pool => obtain ⟨p, -, rfl⟩ := except_map_eq_ok hpayload; exact nofun

end DialogueScript
