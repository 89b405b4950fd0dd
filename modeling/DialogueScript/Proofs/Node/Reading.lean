import DialogueScript.Node.Reading
/-!
# Reading line by line

The body of a node is read by a step for each line. Two things are shown about a reader step by step and then
hold for a whole body: that lines of a form lead from one set of states to another (`Takes`), and that an
invariant is kept by whatever lines are read.

Results:
* `Takes.append`, `Takes.cons`: bodies are taken piece by piece.
* `except_foldlM_history`: what each step makes true of the lines so far, a body does; `except_foldlM_invariant`,
  `except_foldlM_collects`: what each step keeps or adds to a list.
* `except_foldlM_eq_error_iff`: what fails is the first step that does.
* `Reading.result_foldlM`: the same holds of steps that give notices, since their results do not depend on them.
-/
namespace DialogueScript

/-! ## Steps that can fail -/

section Except

variable {ε ε' α β σ : Type}

theorem except_bind_eq_ok {x : Except ε α} {f : α → Except ε β} {b : β} (h : x.bind f = .ok b) :
    ∃ a, x = .ok a ∧ f a = .ok b := by
  cases x with
  | error e => cases h
  | ok a => exact ⟨a, rfl, h⟩

theorem except_map_eq_ok {x : Except ε α} {f : α → β} {b : β} (h : x.map f = .ok b) :
    ∃ a, x = .ok a ∧ f a = b := by
  cases x with
  | error e => cases h
  | ok a => cases h; exact ⟨a, rfl, rfl⟩

theorem except_mapError_eq_ok {x : Except ε α} {f : ε → ε'} {a : α} (h : x.mapError f = .ok a) :
    x = .ok a := by
  cases x with
  | error e => cases h
  | ok b => cases h; rfl

/-- What every step makes true of the inputs so far and the state is true of all inputs in the end. -/
theorem except_foldlM_history {step : σ → α → Except ε σ} {I : List α → σ → Prop} {as : List α}
    {s s' : σ} (hstep : ∀ a ∈ as, ∀ seen s s', I seen s → step s a = .ok s' → I (seen ++ [a]) s') (hs : I [] s)
    (h : as.foldlM step s = .ok s') : I as s' := by
  induction as generalizing I s with
  | nil => cases h; exact hs
  | cons a as ih =>
    rw [List.foldlM_cons] at h
    obtain ⟨t, ht, h'⟩ := except_bind_eq_ok h
    -- behind the first input, what is claimed is claimed of the inputs with that one in front
    exact ih (I := fun seen => I (a :: seen)) (fun b hb seen => hstep b (by simp [hb]) (a :: seen))
      (hstep a (by simp) [] s t hs ht) h'

/-- An invariant that every step keeps is kept. -/
theorem except_foldlM_invariant {step : σ → α → Except ε σ} {I : σ → Prop} {as : List α} {s s' : σ}
    (hstep : ∀ a ∈ as, ∀ s s', I s → step s a = .ok s' → I s') (hs : I s) (h : as.foldlM step s = .ok s') : I s' :=
  except_foldlM_history (I := fun _ s => I s) (fun a ha _ => hstep a ha) hs h

/-- What every step puts behind a list is put there one after another. -/
theorem except_foldlM_collects {step : σ → α → Except ε σ} {view : σ → List β} {out : α → Option β}
    {as : List α} {s s' : σ} (hstep : ∀ a s s', step s a = .ok s' → view s' = view s ++ (out a).toList)
    (h : as.foldlM step s = .ok s') : view s' = view s ++ as.filterMap out := by
  refine except_foldlM_history (I := fun seen t => view t = view s ++ seen.filterMap out) ?_ (by simp) h
  intro a _ seen t t' ht hat
  rw [hstep a t t' hat, ht, List.append_assoc, List.filterMap_append]
  cases ha : out a <;> simp [ha]

/-- A failure is that of one step, and all inputs in front of it are taken. -/
theorem except_foldlM_eq_error_iff {step : σ → α → Except ε σ} {as : List α} {s : σ} {e : ε} :
    as.foldlM step s = .error e ↔
      ∃ front a back t, as = front ++ a :: back ∧ front.foldlM step s = .ok t ∧ step t a = .error e := by
  constructor
  · intro h
    induction as generalizing s with
    | nil => cases h
    | cons a as ih =>
      rw [List.foldlM_cons] at h
      cases ha : step s a with
      | error e' =>
        rw [ha] at h
        cases h
        exact ⟨[], a, as, s, rfl, rfl, ha⟩
      | ok t =>
        rw [ha] at h
        obtain ⟨front, b, back, u, rfl, hfront, hb⟩ := ih h
        refine ⟨a :: front, b, back, u, rfl, ?_, hb⟩
        rw [List.foldlM_cons, ha]
        exact hfront
  · rintro ⟨front, a, back, t, rfl, hfront, ha⟩
    rw [List.foldlM_append, hfront]
    show (a :: back).foldlM step t = _
    rw [List.foldlM_cons, ha]
    rfl

end Except

/-! ## Readings -/

namespace Reading

variable {ε ε' α β σ : Type}

theorem ok_andThen (a : α) (f : α → Reading ε β) : (ok a).andThen f = f a := by
  show (⟨[] ++ (f a).notices, (f a).result⟩ : Reading ε β) = f a
  rw [List.nil_append]

theorem andThen_ok (x : Reading ε α) : x.andThen ok = x := by
  obtain ⟨ns, r⟩ := x
  cases r with
  | ok a => show (⟨ns ++ [], .ok a⟩ : Reading ε α) = ⟨ns, .ok a⟩; rw [List.append_nil]
  | error e => rfl

theorem andThen_assoc {γ : Type} (x : Reading ε α) (f : α → Reading ε β) (g : β → Reading ε γ) :
    (x.andThen f).andThen g = x.andThen fun a => (f a).andThen g := by
  obtain ⟨ns, r⟩ := x
  cases r with
  | error e => rfl
  | ok a =>
    cases hf : f a with
    | mk ms q =>
      cases q with
      | error e => simp [andThen, hf]
      | ok b => simp [andThen, hf]

instance : LawfulMonad (Reading ε) :=
  LawfulMonad.mk' (Reading ε) (fun x => andThen_ok x) (fun a f => ok_andThen a f) (fun x f g => andThen_assoc x f g)

theorem andThen_eq_ok_iff {x : Reading ε α} {f : α → Reading ε β} {b : β} :
    (x.andThen f).result = .ok b ↔ ∃ a, x.result = .ok a ∧ (f a).result = .ok b := by
  unfold andThen
  split
  · next a ha => simp [ha]
  · next e he => simp [he]

theorem andThen_eq_ok {x : Reading ε α} {f : α → Reading ε β} {b : β} (h : (x.andThen f).result = .ok b) :
    ∃ a, x.result = .ok a ∧ (f a).result = .ok b := andThen_eq_ok_iff.1 h

theorem notices_andThen {x : Reading ε α} {a : α} (h : x.result = .ok a) (f : α → Reading ε β) :
    (x.andThen f).notices = x.notices ++ (f a).notices := by
  unfold andThen
  rw [h]

theorem mapError_eq_ok_iff {x : Reading ε α} {f : ε → ε'} {a : α} :
    (x.mapError f).result = .ok a ↔ x.result = .ok a := by
  obtain ⟨ns, r⟩ := x
  cases r with
  | ok b => constructor <;> (intro h; cases h; rfl)
  | error e => exact iff_of_false nofun nofun

theorem mapError_eq_ok {x : Reading ε α} {f : ε → ε'} {a : α} (h : (x.mapError f).result = .ok a) :
    x.result = .ok a := mapError_eq_ok_iff.1 h

theorem andThen_eq_error {x : Reading ε α} {f : α → Reading ε β} {e : ε} (h : (x.andThen f).result = .error e) :
    x.result = .error e ∨ ∃ a, x.result = .ok a ∧ (f a).result = .error e := by
  unfold andThen at h
  split at h
  · next a ha => exact .inr ⟨a, ha, h⟩
  · next e' he => exact .inl (by rw [he]; exact congrArg Except.error (Except.error.inj h))

theorem mapError_eq_error {x : Reading ε α} {f : ε → ε'} {e : ε'} (h : (x.mapError f).result = .error e) :
    ∃ e', x.result = .error e' ∧ f e' = e := by
  obtain ⟨ns, r⟩ := x
  cases r with
  | ok a => cases h
  | error e' => exact ⟨e', rfl, Except.error.inj h⟩

theorem foldlM_cons_eq_ok_iff {step : σ → α → Reading ε σ} {a : α} {as : List α} {s u : σ} :
    ((a :: as).foldlM step s).result = .ok u ↔
      ∃ t, (step s a).result = .ok t ∧ (as.foldlM step t).result = .ok u := by
  rw [List.foldlM_cons]
  exact andThen_eq_ok_iff

theorem foldlM_append_eq_ok_iff {step : σ → α → Reading ε σ} {as bs : List α} {s u : σ} :
    ((as ++ bs).foldlM step s).result = .ok u ↔
      ∃ t, (as.foldlM step s).result = .ok t ∧ (bs.foldlM step t).result = .ok u := by
  rw [List.foldlM_append]
  exact andThen_eq_ok_iff

/-- Reading step by step gives what the results of the steps give. -/
theorem result_foldlM (step : σ → α → Reading ε σ) (as : List α) (s : σ) :
    (as.foldlM step s).result = as.foldlM (fun s a => (step s a).result) s := by
  induction as generalizing s with
  | nil => rfl
  | cons a as ih =>
    rw [List.foldlM_cons, List.foldlM_cons]
    show ((step s a).andThen fun t => as.foldlM step t).result = _
    unfold andThen
    cases ha : (step s a).result with
    | error e => rfl
    | ok t => exact ih t

theorem foldlM_history {step : σ → α → Reading ε σ} {I : List α → σ → Prop} {as : List α} {s s' : σ}
    (hstep : ∀ a ∈ as, ∀ seen s s', I seen s → (step s a).result = .ok s' → I (seen ++ [a]) s') (hs : I [] s)
    (h : (as.foldlM step s).result = .ok s') : I as s' :=
  except_foldlM_history hstep hs ((result_foldlM step as s).symm.trans h)

theorem foldlM_invariant {step : σ → α → Reading ε σ} {I : σ → Prop} {as : List α} {s s' : σ}
    (hstep : ∀ a ∈ as, ∀ s s', I s → (step s a).result = .ok s' → I s') (hs : I s)
    (h : (as.foldlM step s).result = .ok s') : I s' :=
  except_foldlM_invariant hstep hs ((result_foldlM step as s).symm.trans h)

theorem foldlM_collects {step : σ → α → Reading ε σ} {view : σ → List β} {out : α → Option β} {as : List α} {s s' : σ}
    (hstep : ∀ a s s', (step s a).result = .ok s' → view s' = view s ++ (out a).toList)
    (h : (as.foldlM step s).result = .ok s') : view s' = view s ++ as.filterMap out :=
  except_foldlM_collects hstep ((result_foldlM step as s).symm.trans h)

end Reading

/-! ## Lines that are taken -/

section Takes

variable {m : Type → Type} [Monad m] {σ : Type} {step : σ → SourceLine → m σ} {P Q R : σ → Prop}

/-- From each state in `P`, lines with these texts are read without a failure or a notice and lead to `Q`. -/
def Takes (step : σ → SourceLine → m σ) (P : σ → Prop) (texts : List Text) (Q : σ → Prop) : Prop :=
  ∀ s (ls : List SourceLine), P s → ls.map (·.text) = texts → ∃ s', ls.foldlM step s = pure s' ∧ Q s'

theorem Takes.nil (h : ∀ s, P s → Q s) : Takes step P [] Q := by
  intro s ls hs hls
  obtain rfl := List.map_eq_nil_iff.1 hls
  exact ⟨s, rfl, h s hs⟩

variable [LawfulMonad m]

theorem Takes.line {t : Text} (h : ∀ s n, P s → ∃ s', step s ⟨n, t⟩ = pure s' ∧ Q s') : Takes step P [t] Q := by
  intro s ls hs hls
  obtain ⟨l, ls', rfl, rfl, hnil⟩ := List.map_eq_cons_iff.1 hls
  obtain rfl := List.map_eq_nil_iff.1 hnil
  obtain ⟨s', hstep, hq⟩ := h s l.number hs
  exact ⟨s', by rw [List.foldlM_cons, hstep, pure_bind]; rfl, hq⟩

theorem Takes.append {a b : List Text} (ha : Takes step P a Q) (hb : Takes step Q b R) : Takes step P (a ++ b) R := by
  intro s ls hs hls
  obtain ⟨la, lb, rfl, hla, hlb⟩ := List.map_eq_append_iff.1 hls
  obtain ⟨s', hfold, hq⟩ := ha s la hs hla
  obtain ⟨s'', hfold', hr⟩ := hb s' lb hq hlb
  exact ⟨s'', by rw [List.foldlM_append, hfold, pure_bind, hfold'], hr⟩

theorem Takes.cons {t : Text} {b : List Text} (ht : ∀ s n, P s → ∃ s', step s ⟨n, t⟩ = pure s' ∧ Q s')
    (hb : Takes step Q b R) : Takes step P (t :: b) R :=
  Takes.append (Takes.line ht) hb

end Takes

/-- A body of lines that are no mere comments is read as it is. -/
theorem Block.meaningful_eq {b : Block} {texts : List Text} (hb : b.body.map (·.text) = texts)
    (h : ∀ t ∈ texts, Line.isComment t = false ∨ (Line.directive? t).isSome) : b.meaningful = b.body := by
  apply List.filter_eq_self.2
  intro l hl
  have := h l.text (hb ▸ List.mem_map_of_mem hl)
  unfold SourceLine.isMeaningful
  rcases this with h | h <;> simp [h]

end DialogueScript
