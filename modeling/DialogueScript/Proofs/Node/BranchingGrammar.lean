import DialogueScript.Proofs.Node.Branching
/-!
# The grammar of branchings

The body of a branching is one chain of parts and a line `endif`. A part is the line that opens a branch, a directive
that names it or none, lines of what it says, and a jump or none. The first part is opened by `if`, later ones by
`elseif`, and only the last one may be opened by `else`.

The lines that were taken so far are finished parts and a part that can still grow, or they are a whole chain. Each
line makes the last part longer, finishes it and begins the next one, or ends the chain.

Results:
* `Part.Fills`: how the branch that is open goes back to its lines.
* `Taken.step`: what a line does to the lines that were taken.
* `run_row`: parts that make a chain are taken one after another.
* `read_eq_ok_iff_parts`: which bodies are read, and what branches they make.
-/
namespace DialogueScript.Branching

/-! ## Lines and parts -/

/-- A line opens a branch, under the conditions that are kept of its text. Read strictly, none is dropped. -/
inductive Opens (ctx : Node.Context) (l : SourceLine) : BranchKind → Option (List Condition) → Prop
  | ifThen {text : Text} (h : Line.command? l.text = some (.ifThen text))
      (hs : ctx.strict → Condition.dropped text = []) : Opens ctx l .ifThen (some (Condition.kept text))
  | elseIf {text : Text} (h : Line.command? l.text = some (.elseIf text))
      (hs : ctx.strict → Condition.dropped text = []) : Opens ctx l .elseIf (some (Condition.kept text))
  | orElse (h : Line.command? l.text = some .orElse) : Opens ctx l .orElse none

/-- A line is a directive that names a branch. -/
def Names (l : SourceLine) (id : Text) : Prop :=
  ∃ d, Line.directive? l.text = some (.ok d) ∧ d.name = blockName ∧ d.get? "id".toList = some id ∧ id ≠ []

/-- A line is neither a command nor a directive nor a choice. -/
structure IsContent (l : SourceLine) : Prop where
  command : Line.command? l.text = none
  directive : Line.directive? l.text = none
  choice : Line.choice? l.text = none

/-- Lines are all dialogue of one speaker, or all narration. -/
inductive IsSaid : List SourceLine → Option Text → List Text → Prop
  | dialogue {ls : List SourceLine} {who : Text} {ts : List Text} (hne : ls ≠ [])
      (h : ls.map (Line.dialogue? ·.text) = ts.map fun t => some (who, t)) : IsSaid ls (some who) ts
  | narration {ls : List SourceLine} (h : ∀ l ∈ ls, Line.dialogue? l.text = none) :
      IsSaid ls none (ls.map (Text.unescape ·.text))

/-- A line goes on at a node. -/
structure JumpsTo (l : SourceLine) (target : Text) : Prop where
  command : Line.command? l.text = some (.jump target)
  target : Text.isNodeId target

theorem IsSaid.nil : IsSaid [] none [] := by
  have h : ∀ l ∈ ([] : List SourceLine), Line.dialogue? l.text = none := by simp
  exact .narration h

theorem IsSaid.eq_nil {ls : List SourceLine} {who : Option Text} (h : IsSaid ls who []) : ls = [] := by
  generalize hts : ([] : List Text) = ts at h
  cases h with
  | dialogue hne h => subst hts; exact absurd (List.map_eq_nil_iff.1 h) hne
  | narration h => exact List.map_eq_nil_iff.1 hts.symm

theorem IsSaid.narrate {ls : List SourceLine} {ts : List Text} (h : IsSaid ls none ts) {l : SourceLine}
    (hl : Line.dialogue? l.text = none) : IsSaid (ls ++ [l]) none (ts ++ [Text.unescape l.text]) := by
  cases h with
  | narration h =>
    have hall : ∀ k ∈ ls ++ [l], Line.dialogue? k.text = none := List.forall_mem_append.2 ⟨h, by simpa using hl⟩
    simpa using IsSaid.narration hall

theorem IsSaid.speak {ls : List SourceLine} {speaker : Option Text} {ts : List Text} (h : IsSaid ls speaker ts)
    {l : SourceLine} {who t : Text} (hl : Line.dialogue? l.text = some (who, t)) (hwho : ∀ s ∈ speaker, s = who)
    (hnone : speaker = none → ts = []) : IsSaid (ls ++ [l]) (some who) (ts ++ [t]) := by
  refine .dialogue (by simp) ?_
  cases speaker with
  | none =>
    obtain rfl := hnone rfl
    simp [h.eq_nil, hl]
  | some s =>
    obtain rfl := hwho s rfl
    cases h with
    | dialogue hne h => simp [h, hl]

theorem eq_none_of_rel {α β : Type} {r : α → β → Prop} {a : Option α} (h : Option.Rel r a none) : a = none := by
  cases h; rfl

/-- The lines of a branch. -/
structure Part where
  opening : SourceLine
  name : Option SourceLine
  said : List SourceLine
  jump : Option SourceLine

namespace Part

def lines (p : Part) : List SourceLine := p.opening :: (p.name.toList ++ (p.said ++ p.jump.toList))

/-- A part makes the branch that stands behind `count` others. -/
structure Makes (ctx : Node.Context) (count : Nat) (p : Part) (r : Branch) : Prop where
  opens : Opens ctx p.opening r.kind r.condition
  guarded : r.condition ≠ some []
  names : ∃ id, Option.Rel Names p.name id ∧
    r.id = id.getD (ctx.node ++ "-block-".toList ++ Decimal.digits (count + 1))
  content : ∀ l ∈ p.said, IsContent l
  speech : ∃ ts, IsSaid p.said r.speaker ts ∧ r.content = Text.joinLines ts
  jumps : Option.Rel JumpsTo p.jump r.next

end Part

/-- Parts make branches, one for each in order. -/
inductive Row (ctx : Node.Context) : List Part → List Branch → Prop
  | nil : Row ctx [] []
  | snoc {ps rs p r} (h : Row ctx ps rs) (hp : Part.Makes ctx rs.length p r) : Row ctx (ps ++ [p]) (rs ++ [r])

theorem Row.length_eq {ctx : Node.Context} {ps : List Part} {rs : List Branch} (h : Row ctx ps rs) :
    ps.length = rs.length := by
  induction h with
  | nil => rfl
  | snoc h hp ih => simp [ih]

/-! ## One line -/

variable {ctx : Node.Context} {l : SourceLine}

theorem step_of_command {p : Progress} (hp : p.isEnded = false) {c : Line.Command}
    (h : Line.command? l.text = some c) : p.step ctx l = p.readCommand ctx l c := by
  simp only [Progress.step, hp, Bool.false_eq_true, if_false, Line.directive?_of_command? h, h]

theorem step_of_directive {p : Progress} (hp : p.isEnded = false) {d : Except Directive.Fault Directive}
    (h : Line.directive? l.text = some d) : p.step ctx l = .ofExcept (p.readDirective l.number d) := by
  simp only [Progress.step, hp, Bool.false_eq_true, if_false, h]

theorem step_of_isContent {p : Progress} (hp : p.isEnded = false) (hl : l.isMeaningful) (h : IsContent l) :
    p.step ctx l = .ofExcept (p.readContent l) := by
  have hcomment : Line.isComment l.text = false := by simpa [SourceLine.isMeaningful, h.directive] using hl
  simp only [Progress.step, hp, Bool.false_eq_true, if_false, h.directive, h.command, hcomment, h.choice,
    Option.isSome_none]

/-- Only commands, directives and content are read, and only before the end. -/
theorem step_cases {p q : Progress} (hl : l.isMeaningful) (h : (p.step ctx l).result = .ok q) :
    p.isEnded = false ∧
      ((∃ c, Line.command? l.text = some c ∧ (p.readCommand ctx l c).result = .ok q) ∨
        (∃ d, Line.directive? l.text = some d ∧ p.readDirective l.number d = .ok q) ∨
        IsContent l ∧ p.readContent l = .ok q) := by
  have hp : p.isEnded = false := by
    cases he : p.isEnded with
    | false => rfl
    | true => simp [Progress.step, he, Reading.fail] at h
  refine ⟨hp, ?_⟩
  cases hc : Line.command? l.text with
  | some c => exact .inl ⟨c, rfl, by rwa [step_of_command hp hc] at h⟩
  | none =>
    cases hd : Line.directive? l.text with
    | some d => exact .inr (.inl ⟨d, rfl, by rwa [step_of_directive hp hd] at h⟩)
    | none =>
      cases hch : Line.choice? l.text with
      | none =>
        have hcontent : IsContent l := ⟨hc, hd, hch⟩
        exact .inr (.inr ⟨hcontent, by rwa [step_of_isContent hp hl hcontent] at h⟩)
      | some c =>
        have hcomment : Line.isComment l.text = false := by simpa [SourceLine.isMeaningful, hd] using hl
        simp [Progress.step, hp, hc, hd, hch, hcomment, Reading.fail] at h

theorem readConditions_eq_ok_iff {n : Nat} {text : Text} {cs : List Condition} :
    (Node.readConditions ctx n text).result = .ok cs ↔
      cs = Condition.kept text ∧ (ctx.strict → Condition.dropped text = []) := by
  unfold Node.readConditions
  cases ctx.strict with
  | false =>
    rw [Condition.read_false]
    exact ⟨fun h => ⟨(Except.ok.inj h).symm, nofun⟩, fun h => congrArg Except.ok h.1.symm⟩
  | true =>
    rw [Condition.read_true]
    cases Condition.dropped text <;> simp [Reading.fail, eq_comm]

theorem openGuarded_eq_ok_iff {p q : Progress} {n : Nat} {kind : BranchKind} {text : Text} :
    (p.openGuarded ctx n kind text).result = .ok q ↔ (ctx.strict → Condition.dropped text = []) ∧
      q = { p with current := some (.start n kind (some (Condition.kept text))), isBegun := true } := by
  unfold Progress.openGuarded
  rw [Reading.andThen_eq_ok_iff]
  simp only [readConditions_eq_ok_iff]
  constructor
  · rintro ⟨_, ⟨rfl, hs⟩, hq⟩
    cases hq
    exact ⟨hs, rfl⟩
  · rintro ⟨hs, rfl⟩
    exact ⟨_, ⟨rfl, hs⟩, rfl⟩

/-- A chain is opened by `if`, and by nothing else. -/
theorem step_start_eq_ok_iff (hl : l.isMeaningful) {q : Progress} :
    (Progress.start.step ctx l).result = .ok q ↔
      ∃ cs, Opens ctx l .ifThen cs ∧ q = ⟨[], some (.start l.number .ifThen cs), true, false⟩ := by
  constructor
  · intro h
    obtain ⟨-, ⟨c, hc, h⟩ | ⟨d, -, h⟩ | ⟨-, h⟩⟩ := step_cases hl h
    · cases c with
      | ifThen text =>
        obtain ⟨hs, rfl⟩ := openGuarded_eq_ok_iff.1 h
        exact ⟨_, .ifThen hc hs, rfl⟩
      | elseIf text => cases h
      | orElse => cases h
      | endIf => cases h
      | jump target =>
        obtain ⟨t, -, h⟩ := except_bind_eq_ok h
        cases h
      | set flag value => cases h
      | other inner => cases h
    · cases d <;> cases h
    · cases h
  · rintro ⟨cs, ho, rfl⟩
    cases ho with
    | ifThen hc hs =>
      rw [step_of_command rfl hc]
      exact openGuarded_eq_ok_iff.2 ⟨hs, rfl⟩

/-! ## A line inside of a chain -/

variable {rs : List Branch} {b : OpenBranch} {q : Progress}

theorem closeBranch_eq_ok_iff {n : Nat} {keyword : Text} :
    Progress.closeBranch ctx.node ⟨rs, some b, true, false⟩ n keyword = .ok q ↔
      (b.kind = .orElse → keyword = "endif".toList) ∧
        ∃ r, b.finish ctx.node rs.length = .ok r ∧ q = ⟨rs ++ [r], none, true, false⟩ := by
  unfold Progress.closeBranch
  dsimp only
  split
  · next h => exact iff_of_false nofun fun hq => h.2 (hq.1 h.1)
  · next h =>
    have hk : b.kind = .orElse → keyword = "endif".toList := by simpa using h
    cases hf : b.finish ctx.node rs.length with
    | error f => exact iff_of_false nofun fun ⟨_, r, hr, _⟩ => by cases hr
    | ok r =>
      constructor
      · intro hq
        cases hq
        exact ⟨hk, r, rfl, rfl⟩
      · rintro ⟨-, r, hr, rfl⟩
        cases hr
        rfl

theorem readDirective_eq_ok_iff {n : Nat} {d : Except Directive.Fault Directive} :
    Progress.readDirective ⟨rs, some b, true, false⟩ n d = .ok q ↔
      ∃ d' id, d = .ok d' ∧ d'.name = blockName ∧ b.isUntouched ∧ d'.get? "id".toList = some id ∧ id ≠ [] ∧
        q = ⟨rs, some { b with id := some id }, true, false⟩ := by
  unfold Progress.readDirective
  cases d with
  | error f => exact iff_of_false nofun (by rintro ⟨d', id, ⟨⟩, -⟩)
  | ok d =>
    dsimp only
    constructor
    · intro h
      split at h
      · next hd =>
        split at h
        · next c id hid => cases h; exact ⟨d, _, rfl, hd.1, hd.2, hid, nofun, rfl⟩
        · cases h
      · cases h
    · rintro ⟨d', id, hd, hname, hb, hid, hne, rfl⟩
      cases hd
      obtain ⟨c, id, rfl⟩ := List.exists_cons_of_ne_nil hne
      rw [if_pos ⟨hname, hb⟩, hid]

theorem readJump_eq_ok_iff {n : Nat} {target : Text} :
    Progress.readJump ⟨rs, some b, true, false⟩ n target = .ok q ↔
      Text.isNodeId target ∧ b.next = none ∧ q = ⟨rs, some { b with next := some target }, true, false⟩ := by
  constructor
  · intro h
    obtain ⟨t, ht, h⟩ := except_bind_eq_ok h
    obtain ⟨b', hb, h⟩ := except_bind_eq_ok h
    cases hb
    split at h
    · cases h
    · next hnext =>
      cases h
      obtain ⟨rfl, htarget⟩ := Node.readTarget_eq_ok_iff.1 ht
      exact ⟨htarget, by simpa using hnext, rfl⟩
  · rintro ⟨ht, hb, rfl⟩
    simp only [Progress.readJump, Node.readTarget_of_isNodeId ht]
    show (if b.next.isSome then _ else _) = _
    rw [hb]
    rfl

theorem readContent_eq_ok_iff :
    Progress.readContent ⟨rs, some b, true, false⟩ l = .ok q ↔
      b.next = none ∧ ∃ b', b.addContent l = .ok b' ∧ q = ⟨rs, some b', true, false⟩ := by
  show (if b.next.isSome then _ else _) = _ ↔ _
  split
  · next h => exact iff_of_false nofun fun hq => by rw [hq.1] at h; cases h
  · next h =>
    constructor
    · intro hq
      obtain ⟨b', hadd, rfl⟩ := except_map_eq_ok hq
      exact ⟨by simpa using h, b', hadd, rfl⟩
    · rintro ⟨-, b', hadd, rfl⟩
      rw [hadd]
      rfl

/-- What a line leads to inside of a chain. -/
inductive Follows (ctx : Node.Context) (rs : List Branch) (b : OpenBranch) (l : SourceLine) : Progress → Prop
  | names {id : Text} (h : Names l id) (hb : b.isUntouched) :
    Follows ctx rs b l ⟨rs, some { b with id := some id }, true, false⟩
  | content {b' : OpenBranch} (h : IsContent l) (hb : b.next = none) (hadd : b.addContent l = .ok b') :
    Follows ctx rs b l ⟨rs, some b', true, false⟩
  | jumps {target : Text} (h : JumpsTo l target) (hb : b.next = none) :
    Follows ctx rs b l ⟨rs, some { b with next := some target }, true, false⟩
  | opens {kind : BranchKind} {cs : Option (List Condition)} {r : Branch} (h : Opens ctx l kind cs)
      (hkind : kind ≠ .ifThen) (hb : b.kind ≠ .orElse) (hr : b.finish ctx.node rs.length = .ok r) :
    Follows ctx rs b l ⟨rs ++ [r], some (.start l.number kind cs), true, false⟩
  | ends {r : Branch} (h : Line.command? l.text = some .endIf) (hr : b.finish ctx.node rs.length = .ok r) :
    Follows ctx rs b l ⟨rs ++ [r], none, true, true⟩

theorem follows_of_readCommand {c : Line.Command} (hc : Line.command? l.text = some c)
    (h : (Progress.readCommand ctx ⟨rs, some b, true, false⟩ l c).result = .ok q) : Follows ctx rs b l q := by
  cases c with
  | ifThen text => cases h
  | elseIf text =>
    obtain ⟨p, hp, h⟩ := Reading.andThen_eq_ok h
    obtain ⟨hb, r, hr, rfl⟩ := closeBranch_eq_ok_iff.1 hp
    obtain ⟨hs, rfl⟩ := openGuarded_eq_ok_iff.1 h
    exact .opens (.elseIf hc hs) nofun (fun hk => absurd (hb hk) (by decide)) hr
  | orElse =>
    obtain ⟨p, hp, rfl⟩ := except_map_eq_ok h
    obtain ⟨hb, r, hr, rfl⟩ := closeBranch_eq_ok_iff.1 hp
    exact .opens (.orElse hc) nofun (fun hk => absurd (hb hk) (by decide)) hr
  | endIf =>
    obtain ⟨p, hp, rfl⟩ := except_map_eq_ok h
    obtain ⟨-, r, hr, rfl⟩ := closeBranch_eq_ok_iff.1 hp
    exact .ends hc hr
  | jump target =>
    obtain ⟨ht, hb, rfl⟩ := readJump_eq_ok_iff.1 h
    exact .jumps ⟨hc, ht⟩ hb
  | set flag value => cases h
  | other inner => cases h

theorem step_inside_eq_ok_iff (hl : l.isMeaningful) :
    (Progress.step ctx ⟨rs, some b, true, false⟩ l).result = .ok q ↔ Follows ctx rs b l q := by
  constructor
  · intro h
    obtain ⟨-, ⟨c, hc, h⟩ | ⟨d, hd, h⟩ | ⟨hcontent, h⟩⟩ := step_cases hl h
    · exact follows_of_readCommand hc h
    · obtain ⟨d', id, rfl, hname, hb, hid, hne, rfl⟩ := readDirective_eq_ok_iff.1 h
      exact .names ⟨d', hd, hname, hid, hne⟩ hb
    · obtain ⟨hb, b', hadd, rfl⟩ := readContent_eq_ok_iff.1 h
      exact .content hcontent hb hadd
  · intro h
    cases h with
    | names h hb =>
      obtain ⟨d, hd, hname, hid, hne⟩ := h
      rw [step_of_directive rfl hd]
      exact readDirective_eq_ok_iff.2 ⟨d, _, rfl, hname, hb, hid, hne, rfl⟩
    | content h hb hadd =>
      rw [step_of_isContent rfl hl h]
      exact readContent_eq_ok_iff.2 ⟨hb, _, hadd, rfl⟩
    | jumps h hb =>
      rw [step_of_command rfl h.command]
      exact readJump_eq_ok_iff.2 ⟨h.target, hb, rfl⟩
    | opens h hkind hb hr =>
      have hclose (keyword : Text) : Progress.closeBranch ctx.node ⟨rs, some b, true, false⟩ l.number keyword =
          .ok ⟨rs ++ [_], none, true, false⟩ := closeBranch_eq_ok_iff.2 ⟨fun hk => absurd hk hb, _, hr, rfl⟩
      cases h with
      | ifThen hc hs => exact absurd rfl hkind
      | elseIf hc hs =>
        rw [step_of_command rfl hc]
        exact Reading.andThen_eq_ok_iff.2 ⟨_, hclose _, openGuarded_eq_ok_iff.2 ⟨hs, rfl⟩⟩
      | orElse hc =>
        rw [step_of_command rfl hc]
        simp only [Progress.readCommand, hclose]
        rfl
    | ends h hr =>
      rw [step_of_command rfl h]
      simp only [Progress.readCommand, closeBranch_eq_ok_iff.2 ⟨fun _ => rfl, _, hr, rfl⟩]
      rfl

/-! ## A branch that fills up -/

theorem addContent_dialogue {b' : OpenBranch} {who t : Text} (h : Line.dialogue? l.text = some (who, t)) :
    b.addContent l = .ok b' ↔ b.isNarrated = false ∧ (∀ s ∈ b.speaker, s = who) ∧
      b' = { b with speaker := some who, content := b.content ++ [t] } := by
  obtain ⟨line, id, kind, condition, speaker, isNarrated, content, next⟩ := b
  unfold OpenBranch.addContent
  cases isNarrated with
  | true => simp [h]
  | false =>
    cases speaker with
    | none => simp [h, eq_comm]
    | some s =>
      by_cases hs : s = who
      · simp [h, hs, eq_comm]
      · simp [h, hs]

theorem addContent_narration {b' : OpenBranch} (h : Line.dialogue? l.text = none) :
    b.addContent l = .ok b' ↔ b.speaker = none ∧
      b' = { b with isNarrated := true, content := b.content ++ [Text.unescape l.text] } := by
  unfold OpenBranch.addContent
  cases b.speaker <;> simp [h, eq_comm]

theorem kind_of_addContent {b' : OpenBranch} (h : b.addContent l = .ok b') : b'.kind = b.kind := by
  cases hd : Line.dialogue? l.text with
  | none => rw [((addContent_narration hd).1 h).2]
  | some d => rw [((addContent_dialogue hd).1 h).2.2]

/-- A branch can be finished unless conditions were asked for and none was kept. -/
theorem finish_eq_ok_iff (h : Opens ctx l b.kind b.condition) {count : Nat} {r : Branch} :
    b.finish ctx.node count = .ok r ↔ b.condition ≠ some [] ∧
      r = ⟨b.id.getD (ctx.node ++ "-block-".toList ++ Decimal.digits (count + 1)), b.kind, b.condition,
        Text.joinLines b.content, b.speaker, b.next⟩ := by
  obtain ⟨line, id, kind, condition, speaker, isNarrated, content, next⟩ := b
  cases h with
  | @ifThen text => cases Condition.kept text <;> simp [OpenBranch.finish, Branch.make, eq_comm]
  | @elseIf text => cases Condition.kept text <;> simp [OpenBranch.finish, Branch.make, eq_comm]
  | orElse => simp [OpenBranch.finish, Branch.make, eq_comm]

/-- What is in a branch that is open, and the lines that put it there. -/
structure Part.Fills (ctx : Node.Context) (p : Part) (b : OpenBranch) : Prop where
  opens : Opens ctx p.opening b.kind b.condition
  names : Option.Rel Names p.name b.id
  content : ∀ l ∈ p.said, IsContent l
  speech : IsSaid p.said b.speaker b.content
  narrated : b.isNarrated = (b.speaker.isNone && !b.content.isEmpty)
  jumps : Option.Rel JumpsTo p.jump b.next

namespace Part.Fills

variable {p : Part} {b' : OpenBranch}

theorem start {kind : BranchKind} {cs : Option (List Condition)} (h : Opens ctx l kind cs) :
    Fills ctx ⟨l, none, [], none⟩ (.start l.number kind cs) :=
  ⟨h, .none, by simp, .nil, rfl, .none⟩

/-- A directive names a branch as long as nothing else stands in it. -/
theorem names_add (h : p.Fills ctx b) (hb : b.isUntouched) {id : Text} (hl : Names l id) :
    ({ p with name := some l } : Part).Fills ctx { b with id := some id } ∧
      ({ p with name := some l } : Part).lines = p.lines ++ [l] := by
  obtain ⟨⟨hid, hcontent⟩, hnext⟩ : (b.id = none ∧ b.content = []) ∧ b.next = none := by
    simpa [OpenBranch.isUntouched] using hb
  have hname : p.name = none := eq_none_of_rel (hid ▸ h.names)
  have hsaid : p.said = [] := IsSaid.eq_nil (hcontent ▸ h.speech)
  have hjump : p.jump = none := eq_none_of_rel (hnext ▸ h.jumps)
  exact ⟨⟨h.opens, .some hl, h.content, h.speech, h.narrated, h.jumps⟩, by simp [lines, hname, hsaid, hjump]⟩

/-- A line of what is said goes behind such lines. -/
theorem content_add (h : p.Fills ctx b) (hb : b.next = none) (hl : IsContent l) (hadd : b.addContent l = .ok b') :
    ({ p with said := p.said ++ [l] } : Part).Fills ctx b' ∧
      ({ p with said := p.said ++ [l] } : Part).lines = p.lines ++ [l] := by
  have hjump : p.jump = none := eq_none_of_rel (hb ▸ h.jumps)
  have hcontent : ∀ k ∈ p.said ++ [l], IsContent k := List.forall_mem_append.2 ⟨h.content, by simpa using hl⟩
  refine ⟨?_, by simp [lines, hjump]⟩
  cases hd : Line.dialogue? l.text with
  | none =>
    obtain ⟨hspeaker, rfl⟩ := (addContent_narration hd).1 hadd
    have hspeech : IsSaid p.said none b.content := hspeaker ▸ h.speech
    exact ⟨h.opens, h.names, hcontent, hspeaker ▸ hspeech.narrate hd, by simp [hspeaker], h.jumps⟩
  | some d =>
    obtain ⟨hnarrated, hwho, rfl⟩ := (addContent_dialogue hd).1 hadd
    have hnone : b.speaker = none → b.content = [] := by
      intro hspeaker
      simpa [hspeaker, hnarrated] using h.narrated
    exact ⟨h.opens, h.names, hcontent, h.speech.speak hd hwho hnone, by simp [hnarrated], h.jumps⟩

/-- A jump ends what stands in a branch. -/
theorem jumps_add (h : p.Fills ctx b) (hb : b.next = none) {target : Text} (hl : JumpsTo l target) :
    ({ p with jump := some l } : Part).Fills ctx { b with next := some target } ∧
      ({ p with jump := some l } : Part).lines = p.lines ++ [l] := by
  have hjump : p.jump = none := eq_none_of_rel (hb ▸ h.jumps)
  exact ⟨⟨h.opens, h.names, h.content, h.speech, h.narrated, .some hl⟩, by simp [lines, hjump]⟩

/-- A branch that is finished is what its lines make. -/
theorem makes (h : p.Fills ctx b) {count : Nat} {r : Branch} (hr : b.finish ctx.node count = .ok r) :
    p.Makes ctx count r := by
  obtain ⟨hguard, rfl⟩ := (finish_eq_ok_iff h.opens).1 hr
  exact ⟨h.opens, hguard, ⟨b.id, h.names, rfl⟩, h.content, ⟨b.content, h.speech, rfl⟩, h.jumps⟩

end Part.Fills

/-! ## What was taken -/

/-- What the lines that were taken have made. -/
inductive Taken (ctx : Node.Context) : List SourceLine → Progress → Prop
  | start : Taken ctx [] .start
  /-- The branch of the last part is open. -/
  | inside {ps rs} {p : Part} {b : OpenBranch} (h : Row ctx ps rs) (hp : p.Fills ctx b)
      (hk : BranchKind.canFollow (rs.map (·.kind)) b.kind) :
    Taken ctx (ps.flatMap Part.lines ++ p.lines) ⟨rs, some b, true, false⟩
  /-- The chain has its end. -/
  | ended {ps rs} {l : SourceLine} (h : Row ctx ps rs) (hl : Line.command? l.text = some .endIf)
      (hk : BranchKind.isChain (rs.map (·.kind))) : Taken ctx (ps.flatMap Part.lines ++ [l]) ⟨rs, none, true, true⟩

/-- The part that is open is finished. -/
theorem Row.finish {ps : List Part} (h : Row ctx ps rs) {p : Part} (hp : p.Fills ctx b) {r : Branch}
    (hr : b.finish ctx.node rs.length = .ok r) : Row ctx (ps ++ [p]) (rs ++ [r]) ∧ r.kind = b.kind := by
  refine ⟨.snoc h (hp.makes hr), ?_⟩
  obtain ⟨-, rfl⟩ := (finish_eq_ok_iff hp.opens).1 hr
  rfl

/-- What a line does inside of a chain to the lines that were taken. -/
theorem Taken.follows {ps : List Part} (h : Row ctx ps rs) {p : Part} (hp : p.Fills ctx b)
    (hk : BranchKind.canFollow (rs.map (·.kind)) b.kind) (hq : Follows ctx rs b l q) :
    Taken ctx (ps.flatMap Part.lines ++ p.lines ++ [l]) q := by
  rw [List.append_assoc]
  cases hq with
  | names hl hb =>
    obtain ⟨hadd, hlines⟩ := hp.names_add hb hl
    exact hlines ▸ .inside h hadd hk
  | content hl hb hadd =>
    have hkind := kind_of_addContent hadd
    obtain ⟨hadd, hlines⟩ := hp.content_add hb hl hadd
    exact hlines ▸ .inside h hadd (hkind ▸ hk)
  | jumps hl hb =>
    obtain ⟨hadd, hlines⟩ := hp.jumps_add hb hl
    exact hlines ▸ .inside h hadd hk
  | @opens kind cs r hl hkind hb hr =>
    obtain ⟨hrow, hrk⟩ := h.finish hp hr
    have hfollow : BranchKind.canFollow ((rs ++ [r]).map (·.kind)) kind := by
      rw [List.map_append, List.map_singleton, hrk]
      exact BranchKind.canFollow_append hk hb hkind
    simpa [Part.lines] using Taken.inside hrow (.start hl) hfollow
  | @ends r hl hr =>
    obtain ⟨hrow, hrk⟩ := h.finish hp hr
    have hchain : BranchKind.isChain ((rs ++ [r]).map (·.kind)) := by
      rw [List.map_append, List.map_singleton, hrk]
      exact BranchKind.isChain_of_canFollow hk
    simpa using Taken.ended hrow hl hchain

/-- What a line does to the lines that were taken. -/
theorem Taken.step {ls : List SourceLine} {p : Progress} (h : Taken ctx ls p) (hl : l.isMeaningful)
    (hstep : (p.step ctx l).result = .ok q) : Taken ctx (ls ++ [l]) q := by
  cases h with
  | start =>
    obtain ⟨cs, ho, rfl⟩ := (step_start_eq_ok_iff hl).1 hstep
    have htaken := Taken.inside Row.nil (Part.Fills.start ho) (.inl ⟨rfl, rfl⟩)
    exact htaken
  | inside h hp hk => exact .follows h hp hk ((step_inside_eq_ok_iff hl).1 hstep)
  | ended h hend hk => cases (step_cases hl hstep).1

theorem taken_of_run {ls : List SourceLine} (hls : ∀ l ∈ ls, l.isMeaningful) {p : Progress}
    (h : (ls.foldlM (Progress.step ctx) .start).result = .ok p) : Taken ctx ls p :=
  Reading.foldlM_history (fun l hl _ _ _ ht hstep => ht.step (hls l hl) hstep) .start h

/-! ## What is taken -/

theorem run_narration {ls : List SourceLine} (hls : ∀ l ∈ ls, l.isMeaningful ∧ IsContent l)
    (hd : ∀ l ∈ ls, Line.dialogue? l.text = none) (hspeaker : b.speaker = none) (hb : b.next = none) :
    ∃ nar, (ls.foldlM (Progress.step ctx) ⟨rs, some b, true, false⟩).result = .ok ⟨rs,
      some { b with isNarrated := nar, content := b.content ++ ls.map (Text.unescape ·.text) }, true, false⟩ := by
  induction ls generalizing b with
  | nil => exact ⟨b.isNarrated, by rw [List.map_nil, List.append_nil]; rfl⟩
  | cons l ls ih =>
    obtain ⟨hl, hls⟩ := List.forall_mem_cons.1 hls
    obtain ⟨hdl, hd⟩ := List.forall_mem_cons.1 hd
    have hadd := (addContent_narration hdl).2 ⟨hspeaker, rfl⟩
    obtain ⟨nar, hrun⟩ := ih (b := { b with isNarrated := true, content := b.content ++ [Text.unescape l.text] })
      hls hd hspeaker hb
    refine ⟨nar, Reading.foldlM_cons_eq_ok_iff.2 ⟨_, (step_inside_eq_ok_iff hl.1).2 (.content hl.2 hb hadd), ?_⟩⟩
    simpa using hrun

/-- Lines of one speaker are said, also as the first ones of a branch. -/
theorem run_dialogue {ls : List SourceLine} (hls : ∀ l ∈ ls, l.isMeaningful ∧ IsContent l) {who : Text}
    {ts : List Text} (hd : ls.map (Line.dialogue? ·.text) = ts.map fun t => some (who, t))
    (hnar : b.isNarrated = false) (hspeaker : ∀ s ∈ b.speaker, s = who) (hb : b.next = none) (hne : ls ≠ []) :
    (ls.foldlM (Progress.step ctx) ⟨rs, some b, true, false⟩).result =
      .ok ⟨rs, some { b with speaker := some who, content := b.content ++ ts }, true, false⟩ := by
  induction ls generalizing b ts with
  | nil => exact absurd rfl hne
  | cons l ls ih =>
    obtain ⟨t, ts, rfl, hdl, hd⟩ := List.map_eq_cons_iff.1 hd.symm
    obtain ⟨hl, hls⟩ := List.forall_mem_cons.1 hls
    have hadd := (addContent_dialogue hdl.symm).2 ⟨hnar, hspeaker, rfl⟩
    refine Reading.foldlM_cons_eq_ok_iff.2 ⟨_, (step_inside_eq_ok_iff hl.1).2 (.content hl.2 hb hadd), ?_⟩
    cases ls with
    | nil =>
      obtain rfl := List.map_eq_nil_iff.1 hd
      rfl
    | cons l' ls =>
      have hrun := ih (b := { b with speaker := some who, content := b.content ++ [t] }) hls hd.symm hnar
        (by rintro s ⟨⟩; rfl) hb (by simp)
      simpa using hrun

/-- What a branch says is read behind its name. -/
theorem run_said (ctx : Node.Context) (rs : List Branch) {ls : List SourceLine} {speaker : Option Text}
    {ts : List Text} (h : IsSaid ls speaker ts)
    (hls : ∀ l ∈ ls, l.isMeaningful ∧ IsContent l) (n : Nat) (id : Option Text) (kind : BranchKind)
    (cs : Option (List Condition)) : ∃ nar,
      (ls.foldlM (Progress.step ctx) ⟨rs, some ⟨n, id, kind, cs, none, false, [], none⟩, true, false⟩).result =
        .ok ⟨rs, some ⟨n, id, kind, cs, speaker, nar, ts, none⟩, true, false⟩ := by
  cases h with
  | dialogue hne h => exact ⟨false, run_dialogue hls h rfl nofun rfl hne⟩
  | narration h => exact run_narration hls h rfl rfl

theorem run_name (ctx : Node.Context) (rs : List Branch) {name : Option SourceLine} {id : Option Text}
    (h : Option.Rel Names name id)
    (hl : ∀ l ∈ name.toList, l.isMeaningful) (n : Nat) (kind : BranchKind) (cs : Option (List Condition)) :
    (name.toList.foldlM (Progress.step ctx) ⟨rs, some (.start n kind cs), true, false⟩).result =
      .ok ⟨rs, some ⟨n, id, kind, cs, none, false, [], none⟩, true, false⟩ := by
  cases h with
  | none => rfl
  | some h =>
    have hnames : Follows ctx rs (.start n kind cs) _ _ := .names h rfl
    exact Reading.foldlM_cons_eq_ok_iff.2 ⟨_, (step_inside_eq_ok_iff (hl _ (by simp))).2 hnames, rfl⟩

theorem run_jump (ctx : Node.Context) (rs : List Branch) {jump : Option SourceLine} {next : Option Text}
    (h : Option.Rel JumpsTo jump next)
    (hl : ∀ l ∈ jump.toList, l.isMeaningful) (hb : b.next = none) :
    (jump.toList.foldlM (Progress.step ctx) ⟨rs, some b, true, false⟩).result =
      .ok ⟨rs, some { b with next := next }, true, false⟩ := by
  cases h with
  | none => rw [← hb]; rfl
  | some h => exact Reading.foldlM_cons_eq_ok_iff.2 ⟨_, (step_inside_eq_ok_iff (hl _ (by simp))).2 (.jumps h hb), rfl⟩

/-- The lines behind the opening one fill the branch that is made of them. -/
theorem run_part {p : Part} {r : Branch} (h : p.Makes ctx rs.length r) (hp : ∀ l ∈ p.lines, l.isMeaningful) (n : Nat) :
    ∃ b, ((p.name.toList ++ (p.said ++ p.jump.toList)).foldlM (Progress.step ctx)
        ⟨rs, some (.start n r.kind r.condition), true, false⟩).result = .ok ⟨rs, some b, true, false⟩ ∧
      b.finish ctx.node rs.length = .ok r ∧ b.kind = r.kind := by
  obtain ⟨id, hname, hid⟩ := h.names
  obtain ⟨ts, hspeech, hts⟩ := h.speech
  simp only [Part.lines, List.forall_mem_cons, List.forall_mem_append] at hp
  obtain ⟨-, hpname, hpsaid, hpjump⟩ := hp
  have hnamed := run_name ctx rs hname hpname n r.kind r.condition
  obtain ⟨nar, hsaid⟩ := run_said ctx rs hspeech (fun l hl => ⟨hpsaid l hl, h.content l hl⟩) n id r.kind
    r.condition
  have hjumped := run_jump ctx rs (b := ⟨n, id, r.kind, r.condition, r.speaker, nar, ts, none⟩)
    h.jumps hpjump rfl
  refine ⟨_, Reading.foldlM_append_eq_ok_iff.2 ⟨_, hnamed, Reading.foldlM_append_eq_ok_iff.2 ⟨_, hsaid, hjumped⟩⟩,
    (finish_eq_ok_iff h.opens).2 ⟨h.guarded, ?_⟩, rfl⟩
  rw [← hid, ← hts]

/-- Parts that make a chain are taken one after another, and the branch of the last one is open then. -/
theorem run_row {ps : List Part} (h : Row ctx ps rs) (hk : BranchKind.isChain (rs.map (·.kind)))
    (hps : ∀ l ∈ ps.flatMap Part.lines, l.isMeaningful) :
    ∃ rs' r b, rs = rs' ++ [r] ∧ ((ps.flatMap Part.lines).foldlM (Progress.step ctx) .start).result =
        .ok ⟨rs', some b, true, false⟩ ∧ b.finish ctx.node rs'.length = .ok r ∧ b.kind = r.kind := by
  induction h with
  | nil => cases hk
  | @snoc ps rs p r h hp ih =>
    rw [List.flatMap_append, List.forall_mem_append] at hps
    rw [List.map_append, List.map_singleton] at hk
    have hlines : ∀ l ∈ p.lines, l.isMeaningful := by simpa using hps.2
    obtain ⟨b, hrun, hfinish, hkind⟩ := run_part hp hlines p.opening.number
    refine ⟨rs, r, b, rfl, ?_, hfinish, hkind⟩
    rw [List.flatMap_append, List.flatMap_singleton]
    have hopens := hp.opens
    have hopening := hlines p.opening (by simp [Part.lines])
    rcases BranchKind.canFollow_of_isChain hk with ⟨hnil, hfirst⟩ | ⟨hlater, n, hks⟩
    · obtain rfl := List.map_eq_nil_iff.1 hnil
      obtain rfl := List.length_eq_zero_iff.1 h.length_eq
      rw [hfirst] at hopens hrun
      exact Reading.foldlM_cons_eq_ok_iff.2 ⟨_, (step_start_eq_ok_iff hopening).2 ⟨_, hopens, rfl⟩, hrun⟩
    · obtain ⟨rs', r', b', rfl, hrun', hfinish', hkind'⟩ := ih (hks ▸ BranchKind.isTail_replicate n) hps.1
      have hb' : b'.kind ≠ .orElse := by
        have hmem : r'.kind ∈ (rs' ++ [r']).map (·.kind) := by simp
        intro he
        rw [hks, ← hkind', he] at hmem
        simp at hmem
      refine Reading.foldlM_append_eq_ok_iff.2 ⟨_, hrun', Reading.foldlM_cons_eq_ok_iff.2 ⟨_, ?_, hrun⟩⟩
      exact (step_inside_eq_ok_iff hopening).2 (.opens hopens hlater hb' hfinish')

theorem meaningful_of_mem {b : Block} : ∀ l ∈ b.meaningful, l.isMeaningful := fun _ hl => (List.mem_filter.1 hl).2

/-- A body that is read is parts and the line that ends a chain. -/
theorem exists_parts_of_read {b : Block} {c : Branching} (h : (read ctx b).result = .ok c) :
    ∃ ps l, b.meaningful = ps.flatMap Part.lines ++ [l] ∧ Row ctx ps c.branches ∧
      BranchKind.isChain (c.branches.map (·.kind)) ∧ Line.command? l.text = some .endIf := by
  obtain ⟨p, hrun, hfinish⟩ := Reading.andThen_eq_ok h
  have ht := taken_of_run meaningful_of_mem hrun
  generalize b.meaningful = ls at ht ⊢
  cases ht with
  | start => cases hfinish
  | inside h hp hk => cases hfinish
  | @ended ps rs l hrow hl hk =>
    simp only [Reading.ofExcept, Progress.finish] at hfinish
    split at hfinish
    · cases hfinish
    · cases hfinish
      exact ⟨ps, l, rfl, hrow, hk, hl⟩

/-- A body is read exactly when its lines are parts that make the branches of a chain, and the line that ends it. -/
theorem read_eq_ok_iff_parts (ctx : Node.Context) (b : Block) (c : Branching) :
    (read ctx b).result = .ok c ↔ ∃ ps l, b.meaningful = ps.flatMap Part.lines ++ [l] ∧
      Row ctx ps c.branches ∧ BranchKind.isChain (c.branches.map (·.kind)) ∧
      Line.command? l.text = some .endIf := by
  refine ⟨exists_parts_of_read, ?_⟩
  rintro ⟨ps, l, hlines, hrow, hchain, hl⟩
  have hmeaningful := @meaningful_of_mem b
  rw [hlines, List.forall_mem_append] at hmeaningful
  obtain ⟨rs, r, b', hrs, hrun, hfinish, -⟩ := run_row hrow hchain hmeaningful.1
  refine Reading.andThen_eq_ok_iff.2 ⟨⟨rs ++ [r], none, true, true⟩, ?_, ?_⟩
  · rw [hlines]
    have hend := (step_inside_eq_ok_iff (hmeaningful.2 l (by simp))).2 (.ends hl hfinish)
    exact Reading.foldlM_append_eq_ok_iff.2 ⟨_, hrun, Reading.foldlM_cons_eq_ok_iff.2 ⟨_, hend, rfl⟩⟩
  · obtain ⟨branches⟩ := c
    obtain rfl : branches = rs ++ [r] := hrs
    simp [Reading.ofExcept, Progress.finish]

end DialogueScript.Branching
