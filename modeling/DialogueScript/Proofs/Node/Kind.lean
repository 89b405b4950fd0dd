import DialogueScript.Proofs.Node.DeadLines
import DialogueScript.Proofs.Node.Ids
/-!
# Kinds and readers

The kind of a block is looked for in its lines before they are read, and by other means: a choice is known by its arrow,
a branching by how its first line begins, a speech by a first line that is spoken. The readers do not ask for a first
line of their kind: a speech may begin with a jump or with a flag that it sets. Such a block has no kind, although it
could be read. But no reader takes what another one takes, and no block is taken for one of another kind.

Results:
* `Speech.IsLine`: the lines of which a speech is made.
* `Menu.exists_choice_of_read`, `Branching.cons_of_read`, `Storylet.exists_directive_of_read`,
  `Pool.exists_directive_of_read`: the line by which nodes of the other kinds are known.
* `Block.kind_of_read`: which kind is found for a block that is read, and when.
-/
namespace DialogueScript

/-! ## Lines -/

namespace Line

/-- A command that begins with `if` neither goes on at another node nor sets a flag. -/
theorem ofParts_of_if {inner t argument : Text} :
    (∀ target, Command.ofParts inner ('i' :: 'f' :: t) argument ≠ .jump target) ∧
      ∀ flag value, Command.ofParts inner ('i' :: 'f' :: t) argument ≠ .set flag value := by
  unfold Command.ofParts
  rw [if_neg (by simp)]
  constructor <;> intros <;> split <;> simp

/-- What is between the brackets of a command that begins with `if` begins with it as well. -/
theorem bracketed?_of_if {line r inner : Text} (h : Text.after? "<<if".toList line = some r)
    (hb : bracketed? line = some inner) : ∃ t, inner = 'i' :: 'f' :: t := by
  obtain ⟨s, hs, rfl⟩ := Option.map_eq_some_iff.1 hb
  obtain ⟨u, hu, hend⟩ := Option.bind_eq_some_iff.1 hs
  rw [Text.after?_eq_some_iff.1 h] at hu
  have hu : u = 'i' :: 'f' :: r := (List.append_cancel_left (Text.after?_eq_some_iff.1 hu)).symm
  rw [hu, Text.before?_eq_some_iff] at hend
  obtain _ | ⟨c, _ | ⟨d, s⟩⟩ := s
  · simp at hend
  · simp at hend
  · obtain ⟨hi, hend⟩ := List.cons.inj hend
    have hf := (List.cons.inj hend).1
    refine ⟨Text.trimEnd s, ?_⟩
    rw [← hi, ← hf]
    show Text.trimEnd ('i' :: 'f' :: s) = _
    have hblank : Text.isBlank 'i' = false ∧ Text.isBlank 'f' = false := by decide
    rw [Text.trimEnd_cons, Text.trimEnd_cons, hblank.1, hblank.2, if_neg (by simp), if_neg (by simp)]

theorem command?_of_if {line r : Text} {c : Command} (h : Text.after? "<<if".toList line = some r)
    (hc : command? line = some c) : (∀ target, c ≠ .jump target) ∧ ∀ flag value, c ≠ .set flag value := by
  obtain ⟨inner, hb, rfl⟩ := Option.map_eq_some_iff.1 hc
  obtain ⟨t, rfl⟩ := bracketed?_of_if h hb
  exact ofParts_of_if

end Line

/-! ## What readers take -/

namespace Speech

/-- A line of a speech: a comment, a jump, a flag that is set, or what somebody says. -/
inductive IsLine (l : SourceLine) : Prop
  | comment (h : Line.isComment l.text)
  | jump {target : Text} (h : Line.command? l.text = some (.jump target))
  | set {flag value : Text} (h : Line.command? l.text = some (.set flag value))
  | dialogue {d : Text × Text} (h : Line.dialogue? l.text = some d)

variable {l : SourceLine}

theorem IsLine.choice? (h : IsLine l) : Line.choice? l.text = none := by
  cases h with
  | comment h => exact Line.choice?_of_isComment h
  | jump h => exact Line.choice?_of_command? h
  | set h => exact Line.choice?_of_command? h
  | dialogue h => exact Line.choice?_of_dialogue? h

/-- No line of a speech begins a bracket. -/
theorem IsLine.after?_if (h : IsLine l) : Text.after? "<<if".toList l.text = none := by
  cases hr : Text.after? "<<if".toList l.text with
  | none => rfl
  | some r =>
    cases h with
    | comment h => rw [Text.after?_eq_some_iff.1 hr] at h; cases h
    | jump h => exact absurd rfl ((Line.command?_of_if hr h).1 _)
    | set h => exact absurd rfl ((Line.command?_of_if hr h).2 _ _)
    | dialogue h => rw [Text.after?_eq_some_iff.1 hr] at h; cases h

theorem IsLine.command?_ne (h : IsLine l) (text : Text) : Line.command? l.text ≠ some (.ifThen text) := by
  intro hc
  cases h with
  | comment h => rw [(Line.of_isComment h).1] at hc; cases hc
  | jump h => rw [h] at hc; cases hc
  | set h => rw [h] at hc; cases hc
  | dialogue h => rw [Line.dialogue?_of_command? hc] at h; cases h

theorem isLine_of_step {p q : Progress} (h : p.step l = .ok q) :
    IsLine l ∧ (q.speaker.isSome → p.speaker.isSome ∨ (Line.dialogue? l.text).isSome) := by
  cases Progress.step_cases h with
  | comment hl => exact ⟨.comment hl, .inl⟩
  | jump hc => exact ⟨.jump hc, .inl⟩
  | set hc => exact ⟨.set hc, .inl⟩
  | dialogue hd => exact ⟨.dialogue hd, fun _ => .inr (by rw [hd]; rfl)⟩

/-- A speech is made of its lines, and somebody says something in it. -/
theorem lines_of_read {b : Block} {s : Speech} (h : read b = .ok s) :
    (∀ l ∈ b.meaningful, IsLine l) ∧ ∃ l ∈ b.meaningful, (Line.dialogue? l.text).isSome := by
  obtain ⟨p, hp, hspeaker, -⟩ := run_of_read h
  obtain ⟨hlines, hspoken⟩ := except_foldlM_history
    (I := fun seen (p : Progress) => (∀ l ∈ seen, IsLine l) ∧
      (p.speaker.isSome → ∃ l ∈ seen, (Line.dialogue? l.text).isSome))
    (fun l _ seen p q ⟨hlines, hspoken⟩ hstep => by
      obtain ⟨hl, hspeaker⟩ := isLine_of_step hstep
      refine ⟨List.forall_mem_append.2 ⟨hlines, by simpa using hl⟩, fun hq => ?_⟩
      rcases hspeaker hq with hp | hd
      · obtain ⟨m, hm, hd⟩ := hspoken hp
        exact ⟨m, List.mem_append_left _ hm, hd⟩
      · exact ⟨l, by simp, hd⟩)
    ⟨by simp, by simp [Progress.start]⟩ hp
  exact ⟨hlines, hspoken (by rw [hspeaker]; rfl)⟩

end Speech

theorem Menu.exists_choice_of_read {ctx : Node.Context} {b : Block} {m : Menu} (h : (read ctx b).result = .ok m) :
    ∃ l ∈ b.meaningful, (Line.choice? l.text).isSome := by
  obtain ⟨-, -, -, hne⟩ := run_of_read h
  have htags : tags b.meaningful ≠ [] := by
    intro htags
    have hids := ids_of_read h
    rw [htags] at hids
    exact hne (List.map_eq_nil_iff.1 hids)
  obtain ⟨tag, htag⟩ := List.exists_mem_of_ne_nil _ htags
  obtain ⟨l, hl, hc⟩ := List.mem_filterMap.1 htag
  obtain ⟨c, hc, -⟩ := Option.map_eq_some_iff.1 hc
  exact ⟨l, hl, by rw [hc]; rfl⟩

/-- A branching begins with the line that opens its first branch, and no choice is in it. -/
theorem Branching.cons_of_read {ctx : Node.Context} {b : Block} {c : Branching} (h : (read ctx b).result = .ok c) :
    (∃ l ls text, b.meaningful = l :: ls ∧ Line.command? l.text = some (.ifThen text)) ∧
      ∀ l ∈ b.meaningful, Line.choice? l.text = none := by
  obtain ⟨p, hp, hf⟩ := Reading.andThen_eq_ok h
  constructor
  · have hmeaningful := @meaningful_of_mem b
    cases hlines : b.meaningful with
    | nil => rw [hlines] at hp; cases hp; cases hf
    | cons l ls =>
      rw [hlines] at hp hmeaningful
      obtain ⟨q, hq, -⟩ := Reading.foldlM_cons_eq_ok_iff.1 hp
      obtain ⟨cs, ho, -⟩ := (step_start_eq_ok_iff (hmeaningful l (by simp))).1 hq
      cases ho with
      | ifThen hc hs => exact ⟨l, ls, _, rfl, hc⟩
  · refine Reading.foldlM_history
      (I := fun (seen : List SourceLine) (_ : Progress) => ∀ l ∈ seen, Line.choice? l.text = none)
      (fun l hl seen p q hseen hstep => List.forall_mem_append.2 ⟨hseen, ?_⟩) (by simp) hp
    have hchoice : Line.choice? l.text = none := by
      obtain ⟨-, ⟨c, hc, -⟩ | ⟨d, hd, -⟩ | ⟨hcontent, -⟩⟩ := step_cases (meaningful_of_mem l hl) hstep
      · exact Line.choice?_of_command? hc
      · exact (Line.of_directive? hd).2.1
      · exact hcontent.choice
    simpa using hchoice

theorem Storylet.exists_directive_of_read {b : Block} {s : Storylet} (h : read b = .ok s) :
    ∃ l ∈ b.meaningful, Line.kind? l.text = some .storylet := by
  obtain ⟨found, hfound, hf⟩ := except_bind_eq_ok h
  have hsome := except_foldlM_history
    (I := fun seen (found : Option Storylet) => found.isSome → ∃ l ∈ seen, Line.kind? l.text = some .storylet)
    (fun l _ seen found found' _ hstep _ => by
      obtain ⟨-, d, -, hd, hname, -⟩ := step_cases hstep
      refine ⟨l, by simp, ?_⟩
      simp only [Line.kind?, hd, Directive.kind?, hname]
      rfl)
    (by simp) hfound
  cases found with
  | some s => exact hsome rfl
  | none => cases hf

theorem Pool.exists_directive_of_read {b : Block} {p : Pool} (h : read b = .ok p) :
    ∃ l ∈ b.meaningful, Line.kind? l.text = some .pool := by
  obtain ⟨q, r, hq, hr, -⟩ := run_of_read h
  have hsome := except_foldlM_history
    (I := fun seen (q : Progress) => q.pool.isSome → ∃ l ∈ seen, Line.kind? l.text = some .pool)
    (fun l _ seen q q' hseen hstep hpool => by
      by_cases hold : q.pool.isSome
      · obtain ⟨m, hm, hk⟩ := hseen hold
        exact ⟨m, List.mem_append_left _ hm, hk⟩
      · obtain ⟨-, ⟨target, -, -, rfl⟩ | ⟨d, hd, hread⟩⟩ := Progress.step_cases hstep
        · exact absurd hpool hold
        · obtain ⟨hname, -⟩ | ⟨-, m, -, rfl⟩ := Progress.readDirective_cases hread
          · refine ⟨l, by simp, ?_⟩
            simp only [Line.kind?, hd, Directive.kind?, hname]
            rfl
          · exact absurd hpool hold)
    (by simp [Progress.start]) hq
  exact hsome (by rw [hr]; rfl)

/-! ## The kind that is found -/

namespace Block

variable {b : Block}

/-- The kind of node that a block without the directive of a storylet or a pool can be read as. -/
def readableKind (b : Block) : Kind :=
  if b.meaningful.any fun l => (Line.choice? l.text).isSome then .menu
  else match b.meaningful.head?.bind (Line.command? ·.text) with
    | some (.ifThen _) => .branching
    | _ => .speech

theorem any_choice_meaningful (b : Block) : (b.meaningful.any fun l => (Line.choice? l.text).isSome) =
    b.body.any fun l => (Line.choice? l.text).isSome := by
  rw [meaningful, List.any_filter]
  congr 1
  funext l
  cases hc : Line.choice? l.text with
  | none => simp
  | some c => simp [SourceLine.isMeaningful, Line.isComment_of_choice? hc]

theorem kind_eq_kindOfLine (hb : ∀ l ∈ b.body, Line.kind? l.text = none) {l : SourceLine}
    (hl : b.firstLine? = some l) : b.kind = b.kindOfLine l := by
  have hf : (b.meaningful.findSome? fun l => l.directive?.bind Directive.kind?) = none := by
    refine List.findSome?_eq_none_iff.2 fun l hl => ?_
    rw [SourceLine.kind?_eq]
    exact hb l (List.mem_of_mem_filter hl)
  unfold kind
  rw [hf]
  simp only [hl]

/-- A line that is no comment is no directive, so there is a first line where there is such a line. -/
theorem exists_firstLine {l : SourceLine} (hl : l ∈ b.meaningful) (hcomment : Line.isComment l.text = false) :
    ∃ m, b.firstLine? = some m := by
  refine Option.isSome_iff_exists.1 (List.find?_isSome.2 ⟨l, hl, ?_⟩)
  simp [SourceLine.directive?, Line.directive?_of_isComment hcomment]

/-- How the kind of a block agrees with the kind of node that it is read as. -/
structure KindAgrees (b : Block) (k : Kind) : Prop where
  /-- No other reader takes the block. -/
  unique : ∀ ctx k' p, (b.payload ctx k').result = .ok p → k' = k
  /-- No other kind is found. -/
  same : ∀ k', b.kind = .ok k' → k' = k
  menu : k = .menu → b.kind = .ok .menu
  branching : k = .branching → ∃ l text, b.firstLine? = some l ∧ Line.command? l.text = some (.ifThen text) ∧
    ((Text.after? "<<if".toList l.text).isSome → b.kind = .ok .branching)
  /-- A speech whose first line is spoken has a kind; one that begins with a jump or sets a flag first has none. -/
  speech : k = .speech → ∃ l, b.firstLine? = some l ∧ ((Line.dialogue? l.text).isSome → b.kind = .ok .speech) ∧
    ((Line.command? l.text).isSome → b.kind = .error ⟨l.number, .unknownKind l.text⟩)

theorem any_choice_eq_false_of {ls : List SourceLine} (h : ∀ l ∈ ls, Line.choice? l.text = none) :
    (ls.any fun l => (Line.choice? l.text).isSome) = false := by
  refine List.any_eq_false.2 fun l hl => ?_
  simp [h l hl]

theorem kind_of_menu_read {ctx : Node.Context} {m : Menu} (hb : ∀ l ∈ b.body, Line.kind? l.text = none)
    (h : (Menu.read ctx b).result = .ok m) : b.readableKind = .menu ∧ b.kind = .ok .menu := by
  obtain ⟨l, hl, hchoice⟩ := Menu.exists_choice_of_read h
  have hany : (b.meaningful.any fun l => (Line.choice? l.text).isSome) = true := List.any_eq_true.2 ⟨l, hl, hchoice⟩
  obtain ⟨c, hc⟩ := Option.isSome_iff_exists.1 hchoice
  obtain ⟨m, hm⟩ := exists_firstLine hl (Line.isComment_of_choice? hc)
  refine ⟨by rw [readableKind, hany]; rfl, ?_⟩
  rw [kind_eq_kindOfLine hb hm, kindOfLine, ← any_choice_meaningful, hany]
  rfl

theorem kind_of_branching_read {ctx : Node.Context} {c : Branching} (hb : ∀ l ∈ b.body, Line.kind? l.text = none)
    (h : (Branching.read ctx b).result = .ok c) : b.readableKind = .branching ∧
      ∃ l text, b.firstLine? = some l ∧ Line.command? l.text = some (.ifThen text) ∧
        b.kind = if (Text.after? "<<if".toList l.text).isSome then .ok .branching
          else .error ⟨l.number, .unknownKind l.text⟩ := by
  obtain ⟨⟨l, ls, text, hlines, hc⟩, hchoices⟩ := Branching.cons_of_read h
  have hany := any_choice_eq_false_of hchoices
  have hfirst : b.firstLine? = some l := by
    have hdirective : l.directive?.isNone := by simp [SourceLine.directive?, Line.directive?_of_command? hc]
    rw [firstLine?, hlines]
    exact List.find?_cons_of_pos hdirective
  refine ⟨?_, l, text, hfirst, hc, ?_⟩
  · rw [readableKind, hany, hlines]
    simp [hc]
  · rw [kind_eq_kindOfLine hb hfirst, kindOfLine, ← any_choice_meaningful, hany, Line.dialogue?_of_command? hc]
    rfl

theorem kind_of_speech_read {s : Speech} (hb : ∀ l ∈ b.body, Line.kind? l.text = none)
    (h : Speech.read b = .ok s) : b.readableKind = .speech ∧
      ∃ l, b.firstLine? = some l ∧ b.kind = if (Line.dialogue? l.text).isSome then .ok .speech
        else .error ⟨l.number, .unknownKind l.text⟩ := by
  obtain ⟨hlines, l, hl, hd⟩ := Speech.lines_of_read h
  have hany := any_choice_eq_false_of fun l hl => (hlines l hl).choice?
  have hcomment : Line.isComment l.text = false := by
    cases hc : Line.isComment l.text with
    | false => rfl
    | true => rw [(Line.of_isComment hc).2] at hd; cases hd
  obtain ⟨m, hm⟩ := exists_firstLine hl hcomment
  have hline := hlines m (List.mem_of_find?_eq_some hm)
  refine ⟨?_, m, hm, ?_⟩
  · rw [readableKind, hany, if_neg (by simp)]
    cases hhead : b.meaningful.head? with
    | none => rfl
    | some n =>
      have hne := (hlines n (List.mem_of_head? hhead)).command?_ne
      rw [Option.bind_some]
      split
      · next text hc => exact absurd hc (hne text)
      · rfl
  · rw [kind_eq_kindOfLine hb hm, kindOfLine, ← any_choice_meaningful, hany, hline.after?_if]
    rfl

/-- Only the kind that a block can be read as is the kind of the node that a reader takes it for. -/
theorem eq_readableKind {ctx : Node.Context} {k : Kind} {p : Payload} (hb : ∀ l ∈ b.body, Line.kind? l.text = none)
    (h : (b.payload ctx k).result = .ok p) : k = b.readableKind := by
  cases k with
  | speech =>
    obtain ⟨s, hs, -⟩ := except_map_eq_ok h
    exact (kind_of_speech_read hb hs).1.symm
  | menu =>
    obtain ⟨m, hm, -⟩ := Reading.andThen_eq_ok h
    exact (kind_of_menu_read hb hm).1.symm
  | branching =>
    obtain ⟨c, hc, -⟩ := Reading.andThen_eq_ok h
    exact (kind_of_branching_read hb hc).1.symm
  | storylet =>
    obtain ⟨s, hs, -⟩ := except_map_eq_ok h
    obtain ⟨l, hl, hk⟩ := Storylet.exists_directive_of_read hs
    rw [hb l (List.mem_of_mem_filter hl)] at hk
    cases hk
  | pool =>
    obtain ⟨q, hq, -⟩ := except_map_eq_ok h
    obtain ⟨l, hl, hk⟩ := Pool.exists_directive_of_read hq
    rw [hb l (List.mem_of_mem_filter hl)] at hk
    cases hk

/-- A block without the directive of a storylet or a pool is read as a node of one kind at most. No other kind is found
for it; and its kind is found, unless its lines are those of a branching or a speech that begins otherwise. -/
theorem kind_of_read {b : Block} (hb : ∀ l ∈ b.body, Line.kind? l.text = none) {ctx : Node.Context} {k : Kind}
    {p : Payload} (h : (b.payload ctx k).result = .ok p) : b.KindAgrees k := by
  have hk := eq_readableKind hb h
  have hunique : ∀ ctx k' p, (b.payload ctx k').result = .ok p → k' = k := fun _ _ _ h' =>
    (eq_readableKind hb h').trans hk.symm
  cases k with
  | menu =>
    obtain ⟨m, hm, -⟩ := Reading.andThen_eq_ok h
    have hkind := (kind_of_menu_read hb hm).2
    refine ⟨hunique, fun k' hk' => ?_, fun _ => hkind, nofun, nofun⟩
    rw [hkind] at hk'
    exact (Except.ok.inj hk').symm
  | branching =>
    obtain ⟨c, hc, -⟩ := Reading.andThen_eq_ok h
    obtain ⟨-, l, text, hfirst, hcommand, hkind⟩ := kind_of_branching_read hb hc
    refine ⟨hunique, fun k' hk' => ?_, nofun, fun _ => ⟨l, text, hfirst, hcommand, fun hif => ?_⟩, nofun⟩
    · rw [hkind] at hk'
      split at hk'
      · exact (Except.ok.inj hk').symm
      · cases hk'
    · rw [hkind, if_pos hif]
  | speech =>
    obtain ⟨s, hs, -⟩ := except_map_eq_ok h
    obtain ⟨-, l, hfirst, hkind⟩ := kind_of_speech_read hb hs
    refine ⟨hunique, fun k' hk' => ?_, nofun, nofun, fun _ => ⟨l, hfirst, fun hd => ?_, fun hc => ?_⟩⟩
    · rw [hkind] at hk'
      split at hk'
      · exact (Except.ok.inj hk').symm
      · cases hk'
    · rw [hkind, if_pos hd]
    · obtain ⟨c, hc⟩ := Option.isSome_iff_exists.1 hc
      rw [hkind, Line.dialogue?_of_command? hc]
      rfl
  | storylet | pool =>
    unfold readableKind at hk
    split at hk
    · cases hk
    · split at hk <;> cases hk

/-- A menu of one choice, under a comment and a directive that no kind has. -/
def smallMenu : Block := ⟨['a'], 1, [], [⟨3, "// @note".toList⟩, ⟨4, "-> Go".toList⟩]⟩

theorem kind_of_read_menu : (∀ l ∈ smallMenu.body, Line.kind? l.text = none) ∧
    (smallMenu.payload ⟨['a'], false⟩ .menu).result =
      .ok (.menu ⟨[⟨"a-choice-1".toList, "Go".toList, none, [], []⟩]⟩) ∧ smallMenu.KindAgrees .menu := by
  have hb : ∀ l ∈ smallMenu.body, Line.kind? l.text = none := by
    simp only [smallMenu, List.forall_mem_cons]
    exact ⟨by with_unfolding_all rfl, by with_unfolding_all rfl, nofun⟩
  have hread : (smallMenu.payload ⟨['a'], false⟩ .menu).result =
      .ok (.menu ⟨[⟨"a-choice-1".toList, "Go".toList, none, [], []⟩]⟩) := by with_unfolding_all rfl
  exact ⟨hb, hread, kind_of_read hb hread⟩

/-- A speech that sets a flag before somebody says something. -/
def flaggedSpeech : Block := ⟨['a'], 1, [], [⟨3, "<<set $x = true>>".toList⟩, ⟨4, "Bob: Hi".toList⟩]⟩

/-- The block is read as a speech, and no kind is found for it. -/
theorem flagged_speech_refused : (∀ l ∈ flaggedSpeech.body, Line.kind? l.text = none) ∧
    (flaggedSpeech.payload ⟨['a'], false⟩ .speech).result =
      .ok (.speech ⟨"Bob".toList, "Hi".toList, none, [['x']]⟩) ∧
    flaggedSpeech.kind = .error ⟨3, .unknownKind "<<set $x = true>>".toList⟩ := by
  refine ⟨?_, by rfl, by rfl⟩
  simp only [flaggedSpeech, List.forall_mem_cons]
  exact ⟨rfl, rfl, nofun⟩

end Block
end DialogueScript
