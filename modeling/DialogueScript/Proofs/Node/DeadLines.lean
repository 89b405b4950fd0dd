import DialogueScript.Proofs.Node.BranchingGrammar
import DialogueScript.Proofs.Node.Flags
import DialogueScript.Proofs.Node.Passage
/-!
# Dead lines

Branchings and pools refuse a line behind a jump. Speeches and menus take it: a line that is spoken or that sets a flag
counts there as if it stood in front of the jump, and that is where it is written.

While a branching or a pool is read, the passage has been left exactly when the open branch, or the pool, has its jump.
For a speech or a menu, all that acts is counted in what was read: without its dead lines a body has less to act.

Results:
* `Block.dead_eq_nil_of_payload`: no line of a branching, a storylet or a pool is dead.
* `Block.payload_alive_iff`: a body without its dead lines is read as the same payload exactly when it has none.
* `Block.dead_eq_nil_of_lines`: no line that is written is dead.
-/
namespace DialogueScript

variable {k : Kind} {gone : Bool} {l : SourceLine} {ls : List SourceLine}

/-! ## Branchings and pools refuse what is dead -/

namespace Branching

variable {ctx : Node.Context}

/-- The branch that is open has its jump. -/
def Progress.hasJump (p : Progress) : Bool := p.current.any (·.next.isSome)

theorem next_of_addContent {b b' : OpenBranch} (h : b.addContent l = .ok b') : b'.next = b.next := by
  cases hd : Line.dialogue? l.text with
  | none => rw [((addContent_narration hd).1 h).2]
  | some d => rw [((addContent_dialogue hd).1 h).2.2]

/-- The passage has been left when the branch that is open has its jump, and then nothing is said. -/
theorem settles_step {p q : Progress} (hl : l.isMeaningful) (h : (p.step ctx l).result = .ok q) :
    (p.hasJump && Kind.branching.acts l.text) = false ∧ Line.leaves p.hasJump l.text = q.hasJump := by
  obtain ⟨-, ⟨c, hc, h⟩ | ⟨d, hd, h⟩ | ⟨hcontent, h⟩⟩ := step_cases hl h
  · have hacts : Kind.branching.acts l.text = false := by simp [Kind.acts, hc]
    refine ⟨by rw [hacts, Bool.and_false], ?_⟩
    rw [Line.leaves_of_command? hc]
    cases c with
    | ifThen text =>
      simp only [Progress.readCommand] at h
      split at h
      · cases h
      · obtain ⟨-, rfl⟩ := openGuarded_eq_ok_iff.1 h
        rfl
    | elseIf text =>
      obtain ⟨r, -, h⟩ := Reading.andThen_eq_ok h
      obtain ⟨-, rfl⟩ := openGuarded_eq_ok_iff.1 h
      rfl
    | orElse =>
      obtain ⟨r, -, rfl⟩ := except_map_eq_ok h
      rfl
    | endIf =>
      obtain ⟨r, hr, rfl⟩ := except_map_eq_ok h
      unfold Progress.closeBranch at hr
      split at hr
      · cases hr
      · split at hr
        · cases hr
        · obtain ⟨b, -, rfl⟩ := except_map_eq_ok hr
          rfl
    | jump target =>
      obtain ⟨t, -, h⟩ := except_bind_eq_ok h
      obtain ⟨b, -, h⟩ := except_bind_eq_ok h
      split at h
      · cases h
      · cases h
        rfl
    | set flag value => cases h
    | other inner => cases h
  · obtain ⟨hcommand, hchoice, hcomment⟩ := Line.of_directive? hd
    have hacts : Kind.branching.acts l.text = false := by simp [Kind.acts, hcomment]
    refine ⟨by rw [hacts, Bool.and_false], ?_⟩
    rw [Line.leaves_of_none hcommand hchoice]
    unfold Progress.readDirective at h
    split at h
    · cases h
    · split at h
      · next b hb =>
        split at h
        · split at h
          · cases h
            simp [Progress.hasJump, hb]
          · cases h
        · cases h
      · cases h
  · obtain ⟨b, hb, h⟩ := except_bind_eq_ok h
    have hcurrent : p.current = some b := by
      unfold Progress.openBranch at hb
      split at hb
      · next b' hb' => cases hb; exact hb'
      · cases hb
    split at h
    · cases h
    · next hnext =>
      obtain ⟨b', hadd, rfl⟩ := except_map_eq_ok h
      have hjump : p.hasJump = false := by simpa [Progress.hasJump, hcurrent] using hnext
      rw [hjump, Line.leaves_of_none hcontent.command hcontent.choice]
      refine ⟨rfl, ?_⟩
      simpa [Progress.hasJump, next_of_addContent hadd] using hnext

theorem dead_eq_nil_of_read {b : Block} {c : Branching} (h : (read ctx b).result = .ok c) : b.dead .branching = [] := by
  obtain ⟨p, hp, -⟩ := Reading.andThen_eq_ok h
  have hsettles := Reading.foldlM_history
    (I := fun seen (p : Progress) => Kind.branching.Settles false (seen.map (·.text)) p.hasJump)
    (fun l hl seen p q hsettles hstep => by
      obtain ⟨hlive, hleaves⟩ := settles_step (meaningful_of_mem l hl) hstep
      exact hleaves ▸ hsettles.concat hlive)
    .nil hp
  exact hsettles.dead_eq_nil

end Branching

/-- A jump is the last line of a pool. -/
theorem Pool.settles_step {p q : Progress} (h : p.step l = .ok q) :
    (p.next.isSome && Kind.pool.acts l.text) = false ∧ Line.leaves p.next.isSome l.text = q.next.isSome := by
  unfold Progress.step at h
  split at h
  · next target hc =>
    have hdirective : Line.directive? l.text = none := Line.directive?_of_command? hc
    split at h
    · cases h
    · obtain ⟨t, -, rfl⟩ := except_map_eq_ok h
      refine ⟨by simp [Kind.acts, hdirective], ?_⟩
      rw [Line.leaves_of_command? hc]
      rfl
  · split at h
    · cases h
    · next hnext =>
      have hnone : p.next.isSome = false := by simpa using hnext
      split at h
      · next d hd =>
        obtain ⟨hcommand, hchoice, -⟩ := Line.of_directive? hd
        rw [hnone, Line.leaves_of_none hcommand hchoice]
        refine ⟨rfl, ?_⟩
        unfold Progress.readDirective at h
        split at h
        · split at h
          · cases h
          · obtain ⟨r, -, rfl⟩ := except_map_eq_ok h
            exact hnone.symm
        · split at h
          · obtain ⟨m, -, rfl⟩ := except_map_eq_ok h
            exact hnone.symm
          · cases h
      · cases h
      · cases h

theorem Pool.dead_eq_nil_of_read {b : Block} {p : Pool} (h : read b = .ok p) : b.dead .pool = [] := by
  obtain ⟨q, hq, -⟩ := except_bind_eq_ok h
  have hsettles := except_foldlM_history
    (I := fun seen (q : Progress) => Kind.pool.Settles false (seen.map (·.text)) q.next.isSome)
    (fun l _ seen p q hsettles hstep => by
      obtain ⟨hlive, hleaves⟩ := settles_step hstep
      exact hleaves ▸ hsettles.concat hlive)
    .nil hq
  exact hsettles.dead_eq_nil

/-- A call of a storylet has directives only. -/
theorem Storylet.dead_eq_nil_of_read {b : Block} {s : Storylet} (h : read b = .ok s) : b.dead .storylet = [] := by
  obtain ⟨found, hfound, -⟩ := except_bind_eq_ok h
  have hsettles := except_foldlM_history
    (I := fun seen (_ : Option Storylet) => Kind.storylet.Settles false (seen.map (·.text)) false)
    (fun l _ seen found found' hsettles hstep => by
      have hleaves : Line.leaves false l.text = false := by
        unfold step at hstep
        split at hstep
        · cases hstep
        · next d hd =>
          obtain ⟨hcommand, hchoice, -⟩ := Line.of_directive? hd
          exact Line.leaves_of_none hcommand hchoice
        · cases hstep
      have hconcat := hsettles.concat (l := l) rfl
      rwa [hleaves] at hconcat)
    .nil hfound
  exact hsettles.dead_eq_nil

/-! ## Speeches and menus count what acts -/

theorem Line.newline_not_mem_of_speaker? {line who rest : Text} (h : speaker? line = some (who, rest)) :
    '\n' ∉ rest := by
  unfold speaker? at h
  split at h
  · split at h
    · cases h
    · next hn => cases h; simpa using hn
  · cases h

/-- A line of dialogue has no newline in its text. -/
theorem Line.newline_not_mem_of_dialogue? {line who text : Text} (h : dialogue? line = some (who, text)) :
    '\n' ∉ text := by
  obtain ⟨⟨w, rest⟩, hs, he⟩ := Option.map_eq_some_iff.1 h
  cases he
  have hrest := newline_not_mem_of_speaker? hs
  intro hm
  have hspace := Text.mem_of_mem_unescape hm
  unfold afterSpace at hspace
  split at hspace
  · exact hrest (List.mem_cons_of_mem _ hspace)
  · exact hrest hspace

theorem Line.isSet_of_command? {line : Text} {c : Command} (h : command? line = some c)
    (hc : ∀ flag value, c ≠ .set flag value) : isSet line = false := by
  unfold isSet
  rw [h]
  split
  · next flag value he => exact absurd (Option.some.inj he) (hc flag value)
  · rfl

theorem Line.isSet_of_none {line : Text} (h : command? line = none) : isSet line = false := by
  rw [isSet, h]

theorem Line.isSet_of_choice? {line : Text} {c : Text × Option Text} (h : choice? line = some c) :
    isSet line = false := by
  cases hc : command? line with
  | none => exact isSet_of_none hc
  | some d => rw [choice?_of_command? hc] at h; cases h

theorem countP_concat {α : Type} {p : α → Bool} (as : List α) (a : α) :
    (as ++ [a]).countP p = as.countP p + if p a then 1 else 0 := by
  rw [List.countP_append, List.countP_singleton]

namespace Speech

/-- What was read of a speech: each line that acts gave a line of its content or a flag. -/
structure Progress.Counts (seen : List SourceLine) (p : Progress) : Prop where
  count : p.content.length + p.setFlags.length = seen.countP (Kind.speech.acts ·.text)
  single : ∀ t ∈ p.content, '\n' ∉ t
  spoken : p.speaker.isSome → p.content ≠ []

theorem Progress.Counts.step {seen : List SourceLine} {p q : Progress} (hp : p.Counts seen) (h : p.step l = .ok q) :
    q.Counts (seen ++ [l]) := by
  obtain ⟨hcount, hsingle, hspoken⟩ := hp
  -- what acts is found out for each form of line, the rest is counting
  cases Progress.step_cases h with
  | comment hcomment =>
    obtain ⟨hcommand, hdialogue⟩ := Line.of_isComment hcomment
    have hacts : Kind.speech.acts l.text = false := by simp [Kind.acts, hdialogue, Line.isSet_of_none hcommand]
    exact ⟨by rw [countP_concat, hacts]; exact hcount, hsingle, hspoken⟩
  | jump hc =>
    have hacts : Kind.speech.acts l.text = false := by
      simp [Kind.acts, Line.dialogue?_of_command? hc, Line.isSet_of_command? hc nofun]
    exact ⟨by rw [countP_concat, hacts]; exact hcount, hsingle, hspoken⟩
  | set hc =>
    have hacts : Kind.speech.acts l.text := by simp [Kind.acts, Line.isSet, hc]
    refine ⟨?_, hsingle, hspoken⟩
    rw [countP_concat, hacts, List.length_append, ← Nat.add_assoc, hcount]
    rfl
  | dialogue hd =>
    have hacts : Kind.speech.acts l.text := by simp [Kind.acts, hd]
    have hline := Line.newline_not_mem_of_dialogue? hd
    refine ⟨?_, List.forall_mem_append.2 ⟨hsingle, List.forall_mem_singleton.2 hline⟩, fun _ => by simp⟩
    rw [countP_concat, hacts, List.length_append, ← hcount]
    simp only [List.length_singleton, if_true]
    omega

/-- A speech has as many lines and flags as its body has lines that act. -/
theorem count_of_read {b : Block} {s : Speech} (h : read b = .ok s) :
    (Text.pieces s.content).length + s.setFlags.length = b.meaningful.countP (Kind.speech.acts ·.text) := by
  obtain ⟨p, hp, hspeaker, hs⟩ := run_of_read h
  have hcounts : p.Counts b.meaningful := except_foldlM_history (fun l _ seen p q hp hstep => hp.step hstep)
    ⟨rfl, by simp [Progress.start], by simp [Progress.start]⟩ hp
  obtain ⟨hcount, hsingle, hspoken⟩ := hcounts
  rw [hs, Text.pieces_join (hspoken (by rw [hspeaker]; rfl)) hsingle]
  exact hcount

end Speech

namespace Menu

variable {ctx : Node.Context}

/-- A line that is taken gives a flag exactly when it sets one. -/
theorem isSet_of_readLine {s s' : Progress × Nat} (h : (readLine ctx s l).result = .ok s') :
    Line.isSet l.text = l.setFlag?.isSome := by
  obtain ⟨hcomment, -⟩ | ⟨e, he, -⟩ := readLine_cases h
  · rw [Line.isSet_of_none (Line.of_isComment hcomment).1, SourceLine.setFlag?_of_isComment hcomment]
    rfl
  · cases he with
    | choice hc => rw [Line.isSet_of_choice? hc, SourceLine.setFlag?_of_choice? hc]; rfl
    | set hc => rw [Line.isSet, hc, SourceLine.setFlag?_of_set hc]; rfl
    | jump hc | ifThen hc | endIf hc =>
      rw [Line.isSet_of_command? hc nofun, SourceLine.setFlag?_of_command? hc nofun]
      rfl

/-- The choices of a menu set as many flags as its body has lines that act. -/
theorem count_of_read {b : Block} {m : Menu} (h : (read ctx b).result = .ok m) :
    (m.choices.flatMap (·.setFlags)).length = b.meaningful.countP (Kind.menu.acts ·.text) := by
  have hsets : ∀ l ∈ b.meaningful, Line.isSet l.text = l.setFlag?.isSome := by
    obtain ⟨s, hs, -⟩ := Reading.andThen_eq_ok h
    refine Reading.foldlM_history
      (I := fun seen (_ : Progress × Nat) => ∀ l ∈ seen, Line.isSet l.text = l.setFlag?.isSome) ?_ (by simp) hs
    intro l _ seen s s' hseen hstep
    exact List.forall_mem_append.2 ⟨hseen, by simpa using isSet_of_readLine hstep⟩
  rw [setFlags_of_read h, ← b.setFlags_meaningful, List.length_filterMap_eq_countP]
  exact List.countP_congr fun l hl => by rw [← hsets l hl]; rfl

end Menu

/-! ## Blocks -/

namespace Block

variable {b : Block} {ctx : Node.Context} {p : Payload}

/-- What is read of a block does not depend on its title, its headers and the comments in its body. -/
theorem payload_congr {b' : Block} (hlines : b'.meaningful = b.meaningful) (hline : b'.titleLine = b.titleLine)
    (ctx : Node.Context) (k : Kind) : b'.payload ctx k = b.payload ctx k := by
  cases k with
  | speech => simp only [payload, Speech.read, hlines, hline]
  | menu => simp only [payload, Menu.read, hlines, hline]
  | branching => simp only [payload, Branching.read, hlines, hline]
  | storylet => simp only [payload, Storylet.read, hlines, hline]
  | pool => simp only [payload, Pool.read, hlines, hline]

/-- No line of a branching, a storylet or a pool is dead. -/
theorem dead_eq_nil_of_payload (h : (b.payload ctx k).result = .ok p) (hspeech : k ≠ .speech) (hmenu : k ≠ .menu) :
    b.dead k = [] := by
  cases k with
  | speech => exact absurd rfl hspeech
  | menu => exact absurd rfl hmenu
  | branching =>
    obtain ⟨c, hc, -⟩ := Reading.andThen_eq_ok h
    exact Branching.dead_eq_nil_of_read hc
  | storylet =>
    obtain ⟨s, hs, -⟩ := except_map_eq_ok h
    exact Storylet.dead_eq_nil_of_read hs
  | pool =>
    obtain ⟨q, hq, -⟩ := except_map_eq_ok h
    exact Pool.dead_eq_nil_of_read hq

/-- A block without its dead lines is read as the same payload exactly when it has none. -/
theorem payload_alive_iff (h : (b.payload ctx k).result = .ok p) :
    ((b.alive k).payload ctx k).result = .ok p ↔ b.dead k = [] := by
  constructor
  · intro halive
    cases k with
    | speech =>
      obtain ⟨s, hs, rfl⟩ := except_map_eq_ok h
      obtain ⟨s', hs', he⟩ := except_map_eq_ok halive
      cases he
      exact dead_eq_nil_of_count ((Speech.count_of_read hs').symm.trans (Speech.count_of_read hs))
    | menu =>
      obtain ⟨m, hm, he⟩ := Reading.andThen_eq_ok h
      cases he
      obtain ⟨m', hm', he⟩ := Reading.andThen_eq_ok halive
      cases he
      exact dead_eq_nil_of_count ((Menu.count_of_read hm').symm.trans (Menu.count_of_read hm))
    | branching => exact dead_eq_nil_of_payload h nofun nofun
    | storylet => exact dead_eq_nil_of_payload h nofun nofun
    | pool => exact dead_eq_nil_of_payload h nofun nofun
  · intro hdead
    have hlines : (b.alive k).meaningful = b.meaningful := by
      rw [meaningful_alive]
      exact liveLines_of_dead_nil hdead
    rw [payload_congr (b := b) hlines rfl]
    exact h

end Block

/-! ## No line that is written is dead -/

theorem Line.isJump_of_command? {line : Text} {c : Command} (h : command? line = some c) (hc : ∀ t, c ≠ .jump t) :
    isJump line = false := by
  unfold isJump
  rw [h]
  split
  · next t he => exact absurd (Option.some.inj he) (hc t)
  · rfl

theorem Line.isJump_of_none {line : Text} (h : command? line = none) : isJump line = false := by
  rw [isJump, h]

theorem Layout.isJump_setLines {flags : List Text} (h : ∀ f ∈ flags, Text.isFlag f) :
    ∀ t ∈ setLines flags, Line.isJump t = false := by
  intro t ht
  obtain ⟨f, hf, rfl⟩ := List.mem_map.1 ht
  exact Line.isJump_of_command? (Line.command?_set (h f hf)) (by simp)

/-- A jump that nothing follows is behind all that acts. -/
theorem Layout.settles_jumpLines (k : Kind) (target : Option Text) :
    ∃ gone, k.Settles false (jumpLines target) gone := by
  cases target with
  | none => exact ⟨false, .nil⟩
  | some t => exact ⟨_, .line rfl⟩

theorem Speech.settles_lines {s : Speech} (h : s.Sound) : ∃ gone, Kind.speech.Settles false s.lines gone := by
  have hfront : ∀ t ∈ Layout.spokenLines (some s.speaker) s.content ++ Layout.setLines s.setFlags,
      Line.isJump t = false := by
    refine List.forall_mem_append.2 ⟨fun t ht => ?_, Layout.isJump_setLines h.setFlags⟩
    obtain ⟨c, r, rfl, hc⟩ := Layout.head_spokenLines (by rintro _ ⟨⟩; exact h.speaker) ht
    exact Line.isJump_of_none (Line.command?_of_ne hc.2.2.1 r)
  obtain ⟨gone, hjump⟩ := Layout.settles_jumpLines .speech s.next
  exact ⟨gone, (Kind.Settles.of_no_jump hfront).append hjump⟩

namespace Menu

theorem settles_plainLines {c : Choice} (h : c.Sound) (gone : Bool) :
    ∃ gone', Kind.menu.Settles gone (plainLines c) gone' := by
  have hchoice : Line.choice? (Line.choice c.text c.id) = some (c.text, some c.id) := Line.choice?_choice h.id
  have hacts : Kind.menu.acts (Line.choice c.text c.id) = false := by
    show Line.isSet (Line.choice c.text c.id) = false
    rw [Line.choice_eq]
    exact Line.isSet_of_none (Line.command?_of_ne (by decide) _)
  have hleaves : Line.leaves gone (Line.choice c.text c.id) = false := by
    simp [Line.leaves, Line.opensPassage, hchoice]
  obtain ⟨gone', hjump⟩ := Layout.settles_jumpLines .menu c.next
  refine ⟨gone', .cons (by rw [hacts, Bool.and_false]) ?_⟩
  rw [hleaves]
  exact (Kind.Settles.of_no_jump (Layout.isJump_setLines h.setFlags)).append hjump

theorem settles_trimmedLines {c : Choice} (h : c.Sound) (gone : Bool) :
    ∃ gone', Kind.menu.Settles gone (trimmedLines c) gone' := by
  unfold trimmedLines
  split
  · exact settles_plainLines h gone
  · next hne =>
    have hguard := Layout.command?_guardLine "if".toList (by decide) (Text.not_blank_of_all (by decide)) hne
      h.conditions
    have hactsGuard : Kind.menu.acts (Layout.guardLine "if".toList c.conditions) = false :=
      Line.isSet_of_command? hguard (by simp [Line.Command.ofParts])
    have hactsEnd : Kind.menu.acts Layout.endIfLine = false := by decide
    obtain ⟨gone', hplain⟩ := settles_plainLines h (Line.leaves gone (Layout.guardLine "if".toList c.conditions))
    exact ⟨_, .cons (by rw [hactsGuard, Bool.and_false]) (hplain.append (.line (by rw [hactsEnd, Bool.and_false])))⟩

theorem settles_lines {cs : List Choice} (h : ∀ c ∈ cs, c.Sound) (gone : Bool) :
    ∃ gone', Kind.menu.Settles gone (cs.flatMap trimmedLines) gone' := by
  induction cs generalizing gone with
  | nil => exact ⟨gone, .nil⟩
  | cons c cs ih =>
    obtain ⟨hc, hcs⟩ := List.forall_mem_cons.1 h
    obtain ⟨between, hfirst⟩ := settles_trimmedLines hc gone
    obtain ⟨gone', hrest⟩ := ih hcs between
    exact ⟨gone', hfirst.append hrest⟩

end Menu

/-- No line of a sound payload is dead where it is written. -/
theorem Block.dead_eq_nil_of_lines {b : Block} {p : Payload} (h : p.Sound)
    (hb : b.body.map (·.text) = p.lines.map Text.trim) : b.dead p.kind = [] := by
  have hread := Block.payload_lines ⟨b.title, false⟩ h hb
  cases p with
  | speech s =>
    have hlines := hb.trans (Speech.map_trim_lines h)
    obtain ⟨gone, hsettles⟩ := Speech.settles_lines h
    unfold dead
    rw [Speech.meaningful_eq h hlines]
    rw [← hlines] at hsettles
    exact hsettles.dead_eq_nil
  | menu m =>
    have hlines := hb.trans (Menu.map_trim_lines h)
    obtain ⟨gone, hsettles⟩ := Menu.settles_lines h.sound false
    unfold dead
    rw [Menu.meaningful_eq hlines]
    rw [← hlines] at hsettles
    exact hsettles.dead_eq_nil
  | branching c => exact dead_eq_nil_of_payload (by rw [hread]; rfl) nofun nofun
  | storylet s => exact dead_eq_nil_of_payload (by rw [hread]; rfl) nofun nofun
  | pool q => exact dead_eq_nil_of_payload (by rw [hread]; rfl) nofun nofun

end DialogueScript
