import DialogueScript.Node.Dispatch
import DialogueScript.Proofs.Condition.Conjunction
import DialogueScript.Proofs.Node.Reading
/-!
# Strict and lenient reading of blocks

A strict reading and a lenient one differ in one place only: where a clause of a condition cannot be read, one
fails and the other drops the clause with a notice and reads on. What happens after that, in whatever state the
reader is, cannot mend it: a notice that was given is not taken back. So the two readings of a block are the same
when the lenient one drops nothing, and otherwise the strict one fails.

Results:
* `Reading.Tightens`: the relation between the two readings; `Tightens.andThen`, `Tightens.foldlM`: it is kept by
  reading on.
* `Reading.Tightens.eq_ok_iff`: what a strict reading gives, in terms of the lenient one.
* `Menu.tightens_read`, `Branching.tightens_read`, `Block.tightens_node`: the readers of blocks.
-/
namespace DialogueScript

/-- The notice tells of a clause that was dropped. -/
def Notice.isDropped : Notice → Bool
  | droppedCondition .. => true
  | ignoredHeader .. | ignoredDirective .. => false

namespace Reading

variable {ε ε' α β σ : Type}

/-! ## Readings that drop nothing -/

/-- No clause was dropped on the way. -/
def IsWhole (x : Reading ε α) : Prop := ∀ n ∈ x.notices, n.isDropped = false

theorem isWhole_ofExcept (r : Except ε α) : (ofExcept r).IsWhole := by simp [IsWhole, ofExcept]

theorem isWhole_ok (a : α) : (ok a : Reading ε α).IsWhole := isWhole_ofExcept (.ok a)

theorem isWhole_fail (e : ε) : (fail e : Reading ε α).IsWhole := isWhole_ofExcept (.error e)

theorem isWhole_mapError {x : Reading ε α} {f : ε → ε'} : (x.mapError f).IsWhole ↔ x.IsWhole := Iff.rfl

theorem andThen_of_ok {x : Reading ε α} {a : α} (h : x.result = .ok a) (f : α → Reading ε β) :
    x.andThen f = ⟨x.notices ++ (f a).notices, (f a).result⟩ := by
  simp only [andThen, h]

theorem andThen_of_error {x : Reading ε α} {e : ε} (h : x.result = .error e) (f : α → Reading ε β) :
    x.andThen f = ⟨x.notices, .error e⟩ := by
  simp only [andThen, h]

/-- Reading on takes no notice back. -/
theorem isWhole_of_andThen {x : Reading ε α} {f : α → Reading ε β} (h : (x.andThen f).IsWhole) : x.IsWhole := by
  intro n hn
  apply h
  cases hr : x.result with
  | ok a => rw [andThen_of_ok hr]; exact List.mem_append_left _ hn
  | error e => rw [andThen_of_error hr]; exact hn

theorem isWhole_andThen_iff {x : Reading ε α} (hx : x.IsWhole) {a : α} (h : x.result = .ok a) {f : α → Reading ε β} :
    (x.andThen f).IsWhole ↔ (f a).IsWhole := by
  rw [andThen_of_ok h]
  simp only [IsWhole, List.mem_append]
  exact ⟨fun hw n hn => hw n (.inr hn), fun hw n hn => hn.elim (hx n) (hw n)⟩

theorem isWhole_andThen {x : Reading ε α} (hx : x.IsWhole) {f : α → Reading ε β} (hf : ∀ a, (f a).IsWhole) :
    (x.andThen f).IsWhole := by
  cases hr : x.result with
  | ok a => exact (isWhole_andThen_iff hx hr).2 (hf a)
  | error e => rw [andThen_of_error hr]; exact hx

theorem isWhole_foldlM {step : σ → α → Reading ε σ} (h : ∀ s a, (step s a).IsWhole) (as : List α) (s : σ) :
    (as.foldlM step s).IsWhole := by
  induction as generalizing s with
  | nil => exact isWhole_ok s
  | cons a as ih =>
    rw [List.foldlM_cons]
    exact isWhole_andThen (h s a) fun t => ih t

/-! ## Strict readings -/

/-- The first reading is the strict form of the second: the same if that one drops nothing, and else a failure. -/
structure Tightens (strict lenient : Reading ε α) : Prop where
  same : lenient.IsWhole → strict = lenient
  fails : ¬ lenient.IsWhole → ∃ e, strict.result = .error e

theorem tightens_refl {x : Reading ε α} (h : x.IsWhole) : Tightens x x := ⟨fun _ => rfl, fun hn => absurd h hn⟩

theorem Tightens.mapError {x y : Reading ε α} (h : Tightens x y) (f : ε → ε') :
    Tightens (x.mapError f) (y.mapError f) := by
  refine ⟨fun hy => by rw [h.same (isWhole_mapError.1 hy)], fun hy => ?_⟩
  obtain ⟨e, he⟩ := h.fails fun hw => hy (isWhole_mapError.2 hw)
  refine ⟨f e, ?_⟩
  rw [Reading.mapError, he]
  rfl

theorem Tightens.andThen {x y : Reading ε α} {f g : α → Reading ε β} (h : Tightens x y)
    (hf : ∀ a, Tightens (f a) (g a)) : Tightens (x.andThen f) (y.andThen g) := by
  by_cases hy : y.IsWhole
  · obtain rfl := h.same hy
    cases hr : x.result with
    | error e => rw [andThen_of_error hr, andThen_of_error hr]; exact tightens_refl hy
    | ok a =>
      have hwhole := isWhole_andThen_iff hy hr (f := g)
      refine ⟨fun hw => ?_, fun hn => ?_⟩
      · rw [andThen_of_ok hr, andThen_of_ok hr, (hf a).same (hwhole.1 hw)]
      · rw [andThen_of_ok hr]
        exact (hf a).fails fun hg => hn (hwhole.2 hg)
  · -- a clause was dropped already, so the strict reading ended before its continuation
    obtain ⟨e, he⟩ := h.fails hy
    exact ⟨fun hw => absurd (isWhole_of_andThen hw) hy, fun _ => ⟨e, by rw [andThen_of_error he]⟩⟩

theorem Tightens.foldlM {step step' : σ → α → Reading ε σ} (h : ∀ s a, Tightens (step s a) (step' s a))
    (as : List α) (s : σ) : Tightens (as.foldlM step s) (as.foldlM step' s) := by
  induction as generalizing s with
  | nil => exact tightens_refl (isWhole_ok s)
  | cons a as ih =>
    rw [List.foldlM_cons, List.foldlM_cons]
    exact (h s a).andThen fun t => ih t

/-- A strict reading gives what the lenient one gives without dropping anything, with the same notices. -/
theorem Tightens.eq_ok_iff {x y : Reading ε α} (h : Tightens x y) {ns : List Notice} {a : α} :
    x = ⟨ns, .ok a⟩ ↔ y = ⟨ns, .ok a⟩ ∧ y.IsWhole := by
  constructor
  · rintro rfl
    by_cases hy : y.IsWhole
    · exact ⟨(h.same hy).symm, hy⟩
    · obtain ⟨e, he⟩ := h.fails hy
      cases he
  · rintro ⟨rfl, hy⟩
    exact h.same hy

end Reading

open Reading

/-! ## Conditions -/

theorem Condition.read_strict_eq_ok_iff {t : Text} {cs : List Condition} {ds : List Text} :
    Condition.read true t = .ok (cs, ds) ↔ Condition.read false t = .ok (cs, []) ∧ ds = [] := by
  rw [Condition.read_true, Condition.read_false]
  cases Condition.dropped t <;> simp [eq_comm]

theorem Condition.read_strict_eq_error_iff {t : Text} {u : Condition.Unreadable} :
    Condition.read true t = .error u ↔ ∃ cs ds, Condition.read false t = .ok (cs, u.clause :: ds) := by
  obtain ⟨clause⟩ := u
  rw [Condition.read_true, Condition.read_false]
  cases Condition.dropped t <;> simp

theorem Node.tightens_readConditions (node : Text) (n : Nat) (t : Text) :
    Tightens (Node.readConditions ⟨node, true⟩ n t) (Node.readConditions ⟨node, false⟩ n t) := by
  have hlenient := Condition.read_false t
  cases hd : Condition.dropped t with
  | nil =>
    rw [hd] at hlenient
    have hstrict := Condition.read_strict_eq_ok_iff.2 ⟨hlenient, rfl⟩
    simp only [Node.readConditions, hstrict, hlenient]
    exact tightens_refl (by simp [IsWhole])
  | cons c cs =>
    rw [hd] at hlenient
    have hstrict : Condition.read true t = .error ⟨c⟩ := Condition.read_strict_eq_error_iff.2 ⟨_, cs, hlenient⟩
    simp only [Node.readConditions, hstrict, hlenient]
    refine ⟨fun hw => ?_, fun _ => ⟨⟨n, .condition ⟨c⟩⟩, rfl⟩⟩
    cases hw (.droppedCondition node n c) (by simp)

/-! ## Menus -/

namespace Menu

theorem tightens_event (node : Text) (k : Nat) (l : SourceLine) :
    Tightens (event ⟨node, true⟩ k l) (event ⟨node, false⟩ k l) := by
  unfold event
  split
  · exact tightens_refl (isWhole_ok _)
  · split
    · exact tightens_refl (isWhole_ofExcept _)
    · exact tightens_refl (isWhole_ofExcept _)
    · exact (Node.tightens_readConditions node l.number _).andThen fun cs => tightens_refl (isWhole_ok _)
    · exact tightens_refl (isWhole_ok _)
    · exact tightens_refl (isWhole_fail _)

theorem tightens_readLine (node : Text) (s : Progress × Nat) (l : SourceLine) :
    Tightens (readLine ⟨node, true⟩ s l) (readLine ⟨node, false⟩ s l) := by
  unfold readLine
  split
  · exact tightens_refl (isWhole_ok _)
  · exact (tightens_event node s.2 l).andThen fun e => tightens_refl (isWhole_ofExcept _)

theorem tightens_read (node : Text) (b : Block) : Tightens (read ⟨node, true⟩ b) (read ⟨node, false⟩ b) :=
  (Tightens.foldlM (tightens_readLine node) b.meaningful _).andThen fun _ => tightens_refl (isWhole_ofExcept _)

end Menu

/-! ## Branchings -/

namespace Branching

theorem Progress.tightens_openGuarded (node : Text) (p : Progress) (n : Nat) (kind : BranchKind) (condition : Text) :
    Tightens (p.openGuarded ⟨node, true⟩ n kind condition) (p.openGuarded ⟨node, false⟩ n kind condition) :=
  (Node.tightens_readConditions node n condition).andThen fun _ => tightens_refl (isWhole_ok _)

theorem Progress.tightens_readCommand (node : Text) (p : Progress) (l : SourceLine) (c : Line.Command) :
    Tightens (p.readCommand ⟨node, true⟩ l c) (p.readCommand ⟨node, false⟩ l c) := by
  cases c with
  | ifThen condition =>
    simp only [readCommand]
    split
    · exact tightens_refl (isWhole_fail _)
    · exact tightens_openGuarded node p l.number .ifThen condition
  | elseIf condition =>
    exact (tightens_refl (isWhole_ofExcept _)).andThen fun q => tightens_openGuarded node q l.number .elseIf condition
  | orElse => exact tightens_refl (isWhole_ofExcept _)
  | endIf => exact tightens_refl (isWhole_ofExcept _)
  | jump target => exact tightens_refl (isWhole_ofExcept _)
  | set flag value => exact tightens_refl (isWhole_fail _)
  | other inner => exact tightens_refl (isWhole_fail _)

theorem Progress.tightens_step (node : Text) (p : Progress) (l : SourceLine) :
    Tightens (p.step ⟨node, true⟩ l) (p.step ⟨node, false⟩ l) := by
  unfold step
  split
  · exact tightens_refl (isWhole_fail _)
  · split
    · exact tightens_refl (isWhole_ofExcept _)
    · exact tightens_readCommand node p l _
    · split
      · exact tightens_refl (isWhole_ok _)
      · split
        · exact tightens_refl (isWhole_fail _)
        · exact tightens_refl (isWhole_ofExcept _)

theorem tightens_read (node : Text) (b : Block) : Tightens (read ⟨node, true⟩ b) (read ⟨node, false⟩ b) :=
  (Tightens.foldlM (Progress.tightens_step node) b.meaningful _).andThen fun _ => tightens_refl (isWhole_ofExcept _)

end Branching

/-! ## Blocks -/

namespace Block

theorem tightens_payload (node : Text) (b : Block) (k : Kind) :
    Tightens (b.payload ⟨node, true⟩ k) (b.payload ⟨node, false⟩ k) := by
  cases k with
  | menu => exact (Menu.tightens_read node b).andThen fun _ => tightens_refl (isWhole_ok _)
  | branching => exact (Branching.tightens_read node b).andThen fun _ => tightens_refl (isWhole_ok _)
  | speech => exact tightens_refl (isWhole_ofExcept _)
  | storylet => exact tightens_refl (isWhole_ofExcept _)
  | pool => exact tightens_refl (isWhole_ofExcept _)

theorem isWhole_readHeader (b : Block) (position : Option Position) (header : Text × Text) :
    (b.readHeader position header).IsWhole := by
  unfold readHeader
  dsimp only
  split
  · split
    · exact isWhole_ok _
    · exact isWhole_fail _
  · simp [IsWhole, Notice.isDropped]

theorem tightens_node (b : Block) : Tightens (b.node true) (b.node false) :=
  (tightens_refl (isWhole_ofExcept b.kind)).andThen fun k =>
    (tightens_refl (isWhole_foldlM (isWhole_readHeader b) b.headers none)).andThen fun _ =>
      (tightens_payload b.title b k).andThen fun _ => tightens_refl (isWhole_ok _)

end Block
end DialogueScript
