import DialogueScript.Proofs.Node.Kind
/-!
# Directives in bodies

Some directives say what a node is: that of a storylet, those of a pool and its members, and those that name the
branches of a branching. The readers of these nodes refuse every other directive, and every one that is malformed. The
readers of speeches and menus do not know of directives: they pass over all of them, malformed or not, as they pass over
comments, and give no notice of that.

Results:
* `Payload.States`: what a directive says of a payload.
* `Block.states_of_payload`: every directive in a branching, a storylet or a pool says something of it.
* `Block.node_without`: a speech or a menu is read the same without a directive in its body.
-/
namespace DialogueScript

/-- A directive on the line `n` says a part of a payload. -/
inductive Payload.States (n : Nat) (d : Directive) : Payload → Prop
  | branch {c : Branching} {r : Branch} (name : d.name = Branching.blockName) (mem : r ∈ c.branches)
      (id : d.get? "id".toList = some r.id) : States n d (.branching c)
  | storylet {s : Storylet} (name : d.name = Storylet.directiveName) (stated : Storylet.ofDirective n d = .ok s) :
    States n d (.storylet s)
  | pool {p : Pool} (name : d.name = Pool.directiveName)
      (stated : Pool.ofDirective n d = .ok { p with members := [], next := none }) : States n d (.pool p)
  | member {p : Pool} {m : PoolMember} (name : d.name = Pool.memberName)
      (stated : Pool.memberOfDirective n d = .ok m) (mem : m ∈ p.members) : States n d (.pool p)

/-! ## Directives that are read -/

namespace Branching

variable {ctx : Node.Context} {l : SourceLine} {x : Except Directive.Fault Directive}

theorem Opens.exists_command {kind : BranchKind} {cs : Option (List Condition)} (h : Opens ctx l kind cs) :
    ∃ c, Line.command? l.text = some c := by
  cases h with
  | ifThen hc => exact ⟨_, hc⟩
  | elseIf hc => exact ⟨_, hc⟩
  | orElse hc => exact ⟨_, hc⟩

/-- The only directive among the lines of a part is the one that names it. -/
theorem Part.Makes.names_of_directive {p : Part} {count : Nat} {r : Branch} (h : p.Makes ctx count r)
    (hl : l ∈ p.lines) (hx : Line.directive? l.text = some x) : Names l r.id := by
  have hcommand : ¬∃ c, Line.command? l.text = some c := by
    rintro ⟨c, hc⟩
    rw [Line.directive?_of_command? hc] at hx
    cases hx
  simp only [Part.lines, List.mem_cons, List.mem_append, Option.mem_toList] at hl
  rcases hl with rfl | hname | hsaid | hjump
  · exact absurd h.opens.exists_command hcommand
  · obtain ⟨id, hrel, hid⟩ := h.names
    rw [hname] at hrel
    cases hrel with
    | some hnames =>
      rw [hid]
      exact hnames
  · rw [(h.content l hsaid).directive] at hx
    cases hx
  · have hjumps := h.jumps
    rw [hjump] at hjumps
    generalize r.next = next at hjumps
    cases hjumps with
    | some hj => exact absurd ⟨_, hj.command⟩ hcommand

theorem Row.exists_makes {ps : List Part} {rs : List Branch} (h : Row ctx ps rs) :
    ∀ p ∈ ps, ∃ r ∈ rs, ∃ count, p.Makes ctx count r := by
  induction h with
  | nil => simp
  | @snoc ps rs p r _ hp ih =>
    refine List.forall_mem_append.2 ⟨fun q hq => ?_, by simpa using .inr ⟨_, hp⟩⟩
    obtain ⟨r', hr', hmakes⟩ := ih q hq
    exact ⟨r', List.mem_append_left _ hr', hmakes⟩

theorem names_of_read {b : Block} {c : Branching} (h : (read ctx b).result = .ok c) (hl : l ∈ b.meaningful)
    (hx : Line.directive? l.text = some x) : ∃ r ∈ c.branches, Names l r.id := by
  obtain ⟨ps, last, hlines, hrow, -, hlast⟩ := exists_parts_of_read h
  rw [hlines] at hl
  rcases List.mem_append.1 hl with hl | hl
  · obtain ⟨p, hp, hl⟩ := List.mem_flatMap.1 hl
    obtain ⟨r, hr, _, hmakes⟩ := hrow.exists_makes p hp
    exact ⟨r, hr, hmakes.names_of_directive hl hx⟩
  · rw [List.mem_singleton.1 hl, Line.directive?_of_command? hlast] at hx
    cases hx

end Branching

/-- Every line of a storylet is a directive that states it. -/
theorem Storylet.ofDirective_of_read {b : Block} {s : Storylet} (h : read b = .ok s) : ∀ l ∈ b.meaningful,
    ∃ d, Line.directive? l.text = some (.ok d) ∧ d.name = directiveName ∧ ofDirective l.number d = .ok s := by
  obtain ⟨found, hfound, hf⟩ := except_bind_eq_ok h
  have hlines := except_foldlM_history
    (I := fun seen (found : Option Storylet) => ∀ l ∈ seen, ∃ d s, Line.directive? l.text = some (.ok d) ∧
      d.name = directiveName ∧ found = some s ∧ ofDirective l.number d = .ok s)
    (fun l _ seen found found' hseen hstep => by
      obtain ⟨rfl, d, s, hd, hname, hs, rfl⟩ := step_cases hstep
      refine List.forall_mem_append.2 ⟨fun k hk => ?_, by simpa using ⟨d, hd, hname, hs⟩⟩
      -- nothing has stated the storylet before, so this is the first line
      obtain ⟨_, _, -, -, hsome, -⟩ := hseen k hk
      cases hsome)
    (by simp) hfound
  intro l hl
  obtain ⟨d, s', hd, hname, rfl, hs⟩ := hlines l hl
  cases hf
  exact ⟨d, hd, hname, hs⟩

namespace Pool

variable {p q : Progress} {l : SourceLine}

/-- A directive on the line `n` says a part of a pool that is being read. -/
def Progress.Holds (p : Progress) (n : Nat) (d : Directive) : Prop :=
  (d.name = directiveName ∧ ∃ r, ofDirective n d = .ok r ∧ p.pool = some r) ∨
    (d.name = memberName ∧ ∃ m ∈ p.members, memberOfDirective n d = .ok m)

/-- What a directive said is not taken back. -/
theorem Progress.Holds.step {n : Nat} {d : Directive} (h : p.Holds n d) (hstep : p.step l = .ok q) : q.Holds n d := by
  obtain ⟨-, ⟨_, -, -, rfl⟩ | ⟨e, -, hread⟩⟩ := step_cases hstep
  · exact h
  · obtain ⟨-, hnone, r, -, rfl⟩ | ⟨-, m, -, rfl⟩ := readDirective_cases hread
    · -- the pool has not been stated before, so this was a member
      obtain ⟨-, _, -, hpool⟩ | hmember := h
      · rw [hnone] at hpool
        cases hpool
      · exact .inr hmember
    · obtain hpool | ⟨hname, m', hm', hsays⟩ := h
      · exact .inl hpool
      · exact .inr ⟨hname, m', List.mem_append_left _ hm', hsays⟩

theorem Progress.holds_of_step {x : Except Directive.Fault Directive} (hx : Line.directive? l.text = some x)
    (h : p.step l = .ok q) : ∃ d, x = .ok d ∧ q.Holds l.number d := by
  obtain ⟨-, ⟨target, hc, -⟩ | ⟨d, hd, hread⟩⟩ := step_cases h
  · rw [Line.directive?_of_command? hc] at hx
    cases hx
  · rw [hd] at hx
    cases hx
    refine ⟨d, rfl, ?_⟩
    obtain ⟨hname, -, r, hr, rfl⟩ | ⟨hname, m, hm, rfl⟩ := readDirective_cases hread
    · exact .inl ⟨hname, r, hr, rfl⟩
    · exact .inr ⟨hname, m, by simp, hm⟩

/-- Every directive in a pool states it or one of its members. -/
theorem states_of_read {b : Block} {r : Pool} (h : read b = .ok r) (hl : l ∈ b.meaningful)
    {x : Except Directive.Fault Directive} (hx : Line.directive? l.text = some x) :
    ∃ d, x = .ok d ∧ Payload.States l.number d (.pool r) := by
  obtain ⟨p, s, hp, hs, rfl⟩ := run_of_read h
  have hlines := except_foldlM_history
    (I := fun seen (p : Progress) => ∀ l ∈ seen, ∀ x, Line.directive? l.text = some x →
      ∃ d, x = .ok d ∧ p.Holds l.number d)
    (fun l _ seen p q hseen hstep => by
      refine List.forall_mem_append.2 ⟨fun k hk x hx => ?_, ?_⟩
      · obtain ⟨d, hd, hholds⟩ := hseen k hk x hx
        exact ⟨d, hd, hholds.step hstep⟩
      · rintro k hk x hx
        obtain rfl := List.mem_singleton.1 hk
        exact Progress.holds_of_step hx hstep)
    (by simp) hp
  obtain ⟨d, hd, hholds⟩ := hlines l hl x hx
  refine ⟨d, hd, ?_⟩
  obtain ⟨hname, s', hstated, hs'⟩ | ⟨hname, m, hm, hstated⟩ := hholds
  · obtain rfl : s = s' := Option.some.inj (hs.symm.trans hs')
    obtain ⟨-, hmembers, hnext, -⟩ := required_of_ofDirective hstated
    refine .pool hname ?_
    rw [hstated, ← hmembers, ← hnext]
  · exact .member hname hstated hm

end Pool

namespace Block

variable {b : Block} {ctx : Node.Context} {k : Kind} {p : Payload} {l : SourceLine}
  {x : Except Directive.Fault Directive}

theorem mem_meaningful_of_directive (hl : l ∈ b.body) (hx : Line.directive? l.text = some x) : l ∈ b.meaningful :=
  List.mem_filter.2 ⟨hl, by simp [SourceLine.isMeaningful, hx]⟩

/-- In a branching, a storylet or a pool, every directive is well formed and says something. -/
theorem states_of_payload (h : (b.payload ctx k).result = .ok p) (hspeech : k ≠ .speech) (hmenu : k ≠ .menu)
    (hl : l ∈ b.body) (hx : Line.directive? l.text = some x) : ∃ d, x = .ok d ∧ p.States l.number d := by
  have hl := mem_meaningful_of_directive hl hx
  cases k with
  | speech => exact absurd rfl hspeech
  | menu => exact absurd rfl hmenu
  | branching =>
    obtain ⟨c, hc, he⟩ := Reading.andThen_eq_ok h
    cases he
    obtain ⟨r, hr, d, hd, hname, hid, -⟩ := Branching.names_of_read hc hl hx
    rw [hd] at hx
    exact ⟨d, (Option.some.inj hx).symm, .branch hname hr hid⟩
  | storylet =>
    obtain ⟨s, hs, rfl⟩ := except_map_eq_ok h
    obtain ⟨d, hd, hname, hstated⟩ := Storylet.ofDirective_of_read hs l hl
    rw [hd] at hx
    exact ⟨d, (Option.some.inj hx).symm, .storylet hname hstated⟩
  | pool =>
    obtain ⟨q, hq, rfl⟩ := except_map_eq_ok h
    exact Pool.states_of_read hq hl hx

/-! ## Directives that are passed over -/

/-- The block without a line of its body. -/
def without (l : SourceLine) (b : Block) : Block := { b with body := b.body.filter (· != l) }

theorem without_of_not_mem (hl : l ∉ b.body) : b.without l = b := by
  have hbody : b.body.filter (· != l) = b.body :=
    List.filter_eq_self.2 fun k hk => by simpa using ne_of_mem_of_not_mem hk hl
  unfold without
  rw [hbody]

theorem meaningful_without (l : SourceLine) (b : Block) :
    (b.without l).meaningful = b.meaningful.filter (· != l) := by
  unfold meaningful without
  rw [List.filter_comm]

/-- Lines at which nothing is done can be left out. -/
theorem foldlM_filter_ne {m : Type → Type} [Monad m] [LawfulMonad m] {σ : Type} {step : σ → SourceLine → m σ}
    (h : ∀ s, step s l = pure s) (ls : List SourceLine) (s : σ) :
    (ls.filter (· != l)).foldlM step s = ls.foldlM step s := by
  rw [List.foldlM_filter]
  congr 1
  funext s k
  by_cases hk : k = l
  · simp [hk, h]
  · simp [hk]

theorem payload_without (hcomment : Line.isComment l.text) (hk : k = .speech ∨ k = .menu) :
    (b.without l).payload ctx k = b.payload ctx k := by
  rcases hk with rfl | rfl
  · have hstep : ∀ p : Speech.Progress, p.step l = .ok p := by
      intro p
      rw [Speech.Progress.step, if_pos hcomment]
    simp only [payload, Speech.read, meaningful_without, foldlM_filter_ne hstep]
    rfl
  · have hstep : ∀ s, Menu.readLine ctx s l = .ok s := by
      intro s
      rw [Menu.readLine, if_pos hcomment]
    simp only [payload, Menu.read, meaningful_without, foldlM_filter_ne hstep]
    rfl

/-- A block that is known as a speech or a menu is known by its first line, and no directive shows another kind. -/
theorem kindOfLine_of_kind (h : b.kind = .ok k) (hk : k = .speech ∨ k = .menu) :
    (∀ m ∈ b.body, Line.kind? m.text = none) ∧ ∃ f, b.firstLine? = some f ∧ b.kindOfLine f = .ok k := by
  unfold kind at h
  split at h
  · next k' hfound =>
    cases h
    obtain ⟨m, -, hm⟩ := List.exists_of_findSome?_eq_some hfound
    obtain ⟨d, -, hd⟩ := Option.bind_eq_some_iff.1 hm
    unfold Directive.kind? at hd
    split at hd
    · cases hd; simp at hk
    · split at hd
      · cases hd; simp at hk
      · cases hd
  · next hnone =>
    refine ⟨fun m hm => ?_, ?_⟩
    · cases hd : Line.directive? m.text with
      | none => simp [Line.kind?, hd]
      | some x =>
        rw [← m.kind?_eq]
        exact List.findSome?_eq_none_iff.1 hnone m (mem_meaningful_of_directive hm hd)
    · split at h
      · next f hf => exact ⟨f, hf, h⟩
      · cases h

theorem firstLine?_without {f : SourceLine} (h : b.firstLine? = some f) (hf : f ≠ l) :
    (b.without l).firstLine? = some f := by
  unfold firstLine? at h ⊢
  rw [List.find?_eq_some_iff_append] at h
  obtain ⟨hfirst, front, back, hlines, hfront⟩ := h
  rw [meaningful_without, List.find?_filter, List.find?_eq_some_iff_append]
  refine ⟨by simp [hf, hfirst], front, back, hlines, fun m hm => ?_⟩
  have hdirective : m.directive?.isNone = false := (Bool.not_eq_true' _).mp (hfront m hm)
  simp [hdirective]

theorem any_choice_without (hcomment : Line.isComment l.text) (b : Block) :
    ((b.without l).body.any fun m => (Line.choice? m.text).isSome) =
      b.body.any fun m => (Line.choice? m.text).isSome := by
  unfold without
  rw [List.any_filter]
  congr 1
  funext m
  by_cases hm : m = l
  · simp [hm, Line.choice?_of_isComment hcomment]
  · simp [hm]

/-- The line by which a speech or a menu is known is no directive. -/
theorem kind_without (hx : Line.directive? l.text = some x) (h : b.kind = .ok k) (hk : k = .speech ∨ k = .menu) :
    (b.without l).kind = .ok k := by
  have hcomment := (Line.of_directive? hx).2.2
  obtain ⟨hkinds, f, hf, hkind⟩ := kindOfLine_of_kind h hk
  have hkinds' : ∀ m ∈ (b.without l).body, Line.kind? m.text = none := fun m hm => hkinds m (List.mem_of_mem_filter hm)
  have hchoices := any_choice_without hcomment b
  unfold kindOfLine at hkind
  split at hkind
  · next hany =>
    -- a choice is no comment, so there is still a first line
    cases hkind
    rw [← hchoices, ← any_choice_meaningful] at hany
    obtain ⟨m, hm, hchoice⟩ := List.any_eq_true.1 hany
    obtain ⟨c, hc⟩ := Option.isSome_iff_exists.1 hchoice
    obtain ⟨f', hf'⟩ := exists_firstLine hm (Line.isComment_of_choice? hc)
    rw [kind_eq_kindOfLine hkinds' hf', kindOfLine, ← any_choice_meaningful, hany]
    rfl
  · next hany =>
    have hne : f ≠ l := by
      rintro rfl
      have hbracket : Text.after? "<<if".toList f.text = none := Speech.IsLine.after?_if (.comment hcomment)
      rw [hbracket, (Line.of_isComment hcomment).2] at hkind
      cases hkind
    rw [kind_eq_kindOfLine hkinds' (firstLine?_without hf hne), kindOfLine, hchoices, if_neg hany]
    exact hkind

/-- A speech or a menu is the same node without a directive in its body. -/
theorem node_without {strict : Bool} (hx : Line.directive? l.text = some x) (h : b.kind = .ok k)
    (hk : k = .speech ∨ k = .menu) : (b.without l).node strict = b.node strict := by
  have hpayload : ∀ ctx, (b.without l).payload ctx k = b.payload ctx k := fun ctx =>
    payload_without (Line.of_directive? hx).2.2 hk
  unfold node
  rw [kind_without hx h hk, h]
  show (pure k >>= _) = (pure k >>= _)
  rw [pure_bind, pure_bind, show (b.without l).title = b.title from rfl, hpayload]
  rfl

end Block
end DialogueScript
