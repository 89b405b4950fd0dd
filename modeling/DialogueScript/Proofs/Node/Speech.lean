import DialogueScript.Node.Speech
import DialogueScript.Proofs.Node.Layout
import DialogueScript.Proofs.Node.Reading
/-!
# Speeches are read back

The lines of a speech are read in the order in which they are written: each line of dialogue adds one line to
the content, which is put together again at the end.

Results:
* `Speech.Sound`: what every speech that was read is like, and all that a speech has to be like to be read back.
* `read_lines`: a sound speech is read back.
* `sound_of_read`: a speech that was read is sound.
-/
namespace DialogueScript

theorem Node.readTarget_of_isNodeId {target : Text} (h : Text.isNodeId target) (n : Nat) :
    Node.readTarget n target = .ok target := by
  simp [Node.readTarget, h]

theorem Node.readFlag_true (n : Nat) (flag : Text) : Node.readFlag n flag "true".toList = .ok flag := by
  simp [Node.readFlag]

theorem Node.readTarget_eq_ok_iff {n : Nat} {target t : Text} :
    Node.readTarget n target = .ok t ↔ t = target ∧ Text.isNodeId target := by
  unfold Node.readTarget
  split
  · next h => exact ⟨fun he => ⟨(Except.ok.inj he).symm, h⟩, fun he => congrArg Except.ok he.1.symm⟩
  · next h => exact ⟨nofun, fun he => absurd he.2 h⟩

theorem Node.readFlag_eq_ok_iff {n : Nat} {flag value f : Text} :
    Node.readFlag n flag value = .ok f ↔ f = flag ∧ value = "true".toList := by
  unfold Node.readFlag
  split
  · next h => exact ⟨fun he => ⟨(Except.ok.inj he).symm, h⟩, fun he => congrArg Except.ok he.1.symm⟩
  · next h => exact ⟨nofun, fun he => absurd he.2 h⟩

theorem Line.isSpeaker_of_dialogue? {l who text : Text} (h : Line.dialogue? l = some (who, text)) :
    Text.isSpeaker who := by
  obtain ⟨⟨w, rest⟩, hs, he⟩ := Option.map_eq_some_iff.1 h
  cases he
  exact (Line.speaker?_eq_some hs).1

namespace Speech

/-- Names are well formed. -/
structure Sound (s : Speech) : Prop where
  speaker : Text.isSpeaker s.speaker
  setFlags : ∀ f ∈ s.setFlags, Text.isFlag f
  next : ∀ t ∈ s.next, Text.isNodeId t

variable {s : Speech}

/-! ## Written lines -/

theorem isBodyLine_lines (h : s.Sound) : ∀ l ∈ s.lines, Layout.isBodyLine l := by
  intro l hl
  rcases List.mem_append.1 hl with hl | hl
  · rcases List.mem_append.1 hl with hl | hl
    · refine Layout.isBodyLine_spokenLines ?_ s.content l hl
      rintro _ ⟨⟩
      exact h.speaker
    · exact Layout.isBodyLine_setLines h.setFlags l hl
  · exact Layout.isBodyLine_jumpLines h.next l hl

theorem map_trim_lines (h : s.Sound) : s.lines.map Text.trim = s.lines := by
  have hs : ∀ w ∈ some s.speaker, Text.isSpeaker w := by rintro _ ⟨⟩; exact h.speaker
  rw [lines, List.map_append, List.map_append, Layout.map_trim_spokenLines hs, Layout.map_trim_setLines,
    Layout.map_trim_jumpLines]

namespace Progress

theorem step_spoken {who t : Text} (hw : Text.isSpeaker who) (ht : '\n' ∉ t) (p : Progress) (n : Nat) :
    p.step ⟨n, Line.spoken who t⟩ = p.addDialogue n who t := by
  obtain ⟨c, r, he, hp⟩ := Line.head_spoken hw t
  have hd := Line.dialogue?_spoken hw ht
  rw [he] at hd
  unfold step
  rw [he]
  simp only [Line.isComment_of_ne hp.1, Line.command?_of_ne hp.2.2.1, hd, Bool.false_eq_true, if_false]

theorem takes_spoken {who : Text} (hw : Text.isSpeaker who) {ts : List Text} (ht : ∀ t ∈ ts, '\n' ∉ t) (c : List Text) :
    Takes step (· = ⟨some who, c, none, []⟩) (ts.map (Line.spoken who)) (· = ⟨some who, c ++ ts, none, []⟩) := by
  induction ts generalizing c with
  | nil => exact Takes.nil fun p hp => by rw [hp, List.append_nil]
  | cons t ts ih =>
    have hrest := ih (fun u hu => ht u (by simp [hu])) (c ++ [t])
    rw [List.append_assoc, List.singleton_append] at hrest
    refine Takes.cons ?_ hrest
    rintro p n rfl
    refine ⟨_, ?_, rfl⟩
    rw [step_spoken hw (ht t (by simp)), addDialogue]
    exact if_pos rfl

/-- The first line of dialogue decides the speaker. -/
theorem takes_content {who : Text} (hw : Text.isSpeaker who) (content : Text) :
    Takes step (· = .start) (Layout.spokenLines (some who) content)
      (· = ⟨some who, Text.pieces content, none, []⟩) := by
  have hpieces : ∀ t ∈ Text.pieces content, '\n' ∉ t := fun t ht => Text.newline_not_mem_of_mem_pieces ht
  unfold Layout.spokenLines
  cases hp : Text.pieces content with
  | nil => exact absurd hp (Text.pieces_ne_nil content)
  | cons t ts =>
    rw [hp] at hpieces
    refine Takes.cons ?_ (takes_spoken hw (fun u hu => hpieces u (by simp [hu])) [t])
    rintro p n rfl
    exact ⟨_, step_spoken hw (hpieces t (by simp)) _ n, rfl⟩

theorem takes_setLines {flags : List Text} (h : ∀ f ∈ flags, Text.isFlag f) (who : Option Text) (c fs : List Text) :
    Takes step (· = ⟨who, c, none, fs⟩) (Layout.setLines flags) (· = ⟨who, c, none, fs ++ flags⟩) := by
  induction flags generalizing fs with
  | nil => exact Takes.nil fun p hp => by rw [hp, List.append_nil]
  | cons f flags ih =>
    have hrest := ih (fun u hu => h u (by simp [hu])) (fs ++ [f])
    rw [List.append_assoc, List.singleton_append] at hrest
    refine Takes.cons ?_ hrest
    rintro p n rfl
    refine ⟨_, ?_, rfl⟩
    have hc := Line.command?_set (h f (by simp))
    have hcomment : Line.isComment (Line.set f) = false := by rw [Line.set_eq]; rfl
    simp only [step, hcomment, hc, Node.readFlag_true, Bool.false_eq_true, if_false]
    rfl

theorem takes_jumpLines {target : Option Text} (h : ∀ t ∈ target, Text.isNodeId t) (who : Option Text)
    (c fs : List Text) :
    Takes step (· = ⟨who, c, none, fs⟩) (Layout.jumpLines target) (· = ⟨who, c, target, fs⟩) := by
  cases target with
  | none => exact Takes.nil fun p hp => hp
  | some t =>
    apply Takes.line
    rintro p n rfl
    refine ⟨_, ?_, rfl⟩
    have hc := Line.command?_jump (h t rfl)
    have hcomment : Line.isComment (Line.jump t) = false := by rw [Line.jump_eq]; rfl
    simp only [step, hcomment, hc, Node.readTarget_of_isNodeId (h t rfl), Bool.false_eq_true, if_false,
      Option.isSome_none]
    rfl

end Progress

theorem takes_lines (h : s.Sound) : Takes Progress.step (· = .start) s.lines
    (· = ⟨some s.speaker, Text.pieces s.content, s.next, s.setFlags⟩) :=
  ((Progress.takes_content h.speaker s.content).append (Progress.takes_setLines h.setFlags _ _ [])).append
    (Progress.takes_jumpLines h.next _ _ _)

/-- No line of a speech starts like a comment or a choice. -/
theorem head_lines (h : s.Sound) : ∀ l ∈ s.lines, ∃ c r, l = c :: r ∧ c ≠ '/' ∧ c ≠ '-' := by
  intro l hl
  rcases List.mem_append.1 hl with hl | hl
  · rcases List.mem_append.1 hl with hl | hl
    · obtain ⟨c, r, he, hp⟩ := Layout.head_spokenLines (by rintro _ ⟨⟩; exact h.speaker) hl
      exact ⟨c, r, he, hp.1, hp.2.1⟩
    · obtain ⟨f, -, rfl⟩ := List.mem_map.1 hl
      exact ⟨'<', _, Line.set_eq f, by decide, by decide⟩
  · obtain ⟨t, -, rfl⟩ := Layout.mem_jumpLines hl
    exact ⟨'<', _, Line.jump_eq t, by decide, by decide⟩

theorem meaningful_eq (h : s.Sound) {b : Block} (hb : b.body.map (·.text) = s.lines) : b.meaningful = b.body :=
  Block.meaningful_eq hb fun l hl => by
    obtain ⟨c, r, rfl, hc, -⟩ := head_lines h l hl
    exact .inl (Line.isComment_of_ne hc r)

theorem read_lines (h : s.Sound) {b : Block} (hb : b.body.map (·.text) = s.lines) : read b = .ok s := by
  obtain ⟨p, hfold, rfl⟩ := takes_lines h .start b.body rfl hb
  unfold read
  rw [meaningful_eq h hb, hfold]
  show Progress.finish ⟨some s.speaker, Text.pieces s.content, s.next, s.setFlags⟩ b.titleLine = _
  simp only [Progress.finish, Text.join_pieces]

/-! ## What was read -/

/-- A line that is taken is a comment, the only jump, a flag that is set, or spoken by the one who speaks. -/
inductive Progress.Step (p : Progress) (l : SourceLine) : Progress → Prop
  | comment (h : Line.isComment l.text) : Step p l p
  | jump {target : Text} (h : Line.command? l.text = some (.jump target)) (ht : Text.isNodeId target)
    (hnext : p.next = none) : Step p l { p with next := some target }
  | set {flag : Text} (h : Line.command? l.text = some (.set flag "true".toList)) :
    Step p l { p with setFlags := p.setFlags ++ [flag] }
  | dialogue {who text : Text} (h : Line.dialogue? l.text = some (who, text)) (hwho : ∀ w ∈ p.speaker, w = who) :
    Step p l { p with speaker := some who, content := p.content ++ [text] }

theorem Progress.addDialogue_eq_ok {p q : Progress} {n : Nat} {who text : Text} (h : p.addDialogue n who text = .ok q) :
    (∀ w ∈ p.speaker, w = who) ∧ q = { p with speaker := some who, content := p.content ++ [text] } := by
  unfold addDialogue at h
  split at h
  · next w hw =>
    split at h
    · next hwho =>
      cases h
      obtain rfl := hwho
      exact ⟨by simp [hw], by rw [hw]⟩
    · cases h
  · next hw => cases h; exact ⟨by simp [hw], rfl⟩

theorem Progress.step_cases {p q : Progress} {l : SourceLine} (h : p.step l = .ok q) : p.Step l q := by
  unfold step at h
  split at h
  · next hl => cases h; exact .comment hl
  · split at h
    · next target hc =>
      split at h
      · cases h
      · next hnext =>
        obtain ⟨t, ht, rfl⟩ := except_map_eq_ok h
        obtain ⟨rfl, ht⟩ := Node.readTarget_eq_ok_iff.1 ht
        exact .jump hc ht (by simpa using hnext)
    · next flag value hc =>
      obtain ⟨f, hf, rfl⟩ := except_map_eq_ok h
      obtain ⟨rfl, rfl⟩ := Node.readFlag_eq_ok_iff.1 hf
      exact .set hc
    · cases h
    · split at h
      · next who text hd =>
        obtain ⟨hwho, rfl⟩ := addDialogue_eq_ok h
        exact .dialogue hd hwho
      · cases h

/-- A speech is what was read of its lines; somebody speaks in it. -/
theorem run_of_read {b : Block} (h : read b = .ok s) : ∃ p, b.meaningful.foldlM Progress.step .start = .ok p ∧
    p.speaker = some s.speaker ∧ s = ⟨s.speaker, Text.joinLines p.content, p.next, p.setFlags⟩ := by
  obtain ⟨p, hp, hf⟩ := except_bind_eq_ok h
  unfold Progress.finish at hf
  split at hf
  · next w hw => cases hf; exact ⟨p, hp, hw, rfl⟩
  · cases hf

structure Progress.Sound (p : Progress) : Prop where
  speaker : ∀ w ∈ p.speaker, Text.isSpeaker w
  setFlags : ∀ f ∈ p.setFlags, Text.isFlag f
  next : ∀ t ∈ p.next, Text.isNodeId t

theorem Progress.sound_step {p q : Progress} {l : SourceLine} (hp : p.Sound) (h : p.step l = .ok q) : q.Sound := by
  cases step_cases h with
  | comment => exact hp
  | jump _ ht => exact ⟨hp.speaker, hp.setFlags, by rintro t ⟨⟩; exact ht⟩
  | set hc =>
    have hflags := List.forall_mem_append.2 ⟨hp.setFlags, List.forall_mem_singleton.2 (Line.isFlag_of_command? hc)⟩
    exact ⟨hp.speaker, hflags, hp.next⟩
  | dialogue hd => exact ⟨by rintro w ⟨⟩; exact Line.isSpeaker_of_dialogue? hd, hp.setFlags, hp.next⟩

theorem sound_of_read {b : Block} (h : read b = .ok s) : s.Sound := by
  obtain ⟨p, hp, hspeaker, hs⟩ := run_of_read h
  have hsound : p.Sound := except_foldlM_invariant (fun l _ q q' hq hstep => Progress.sound_step hq hstep)
    ⟨by simp [Progress.start], by simp [Progress.start], by simp [Progress.start]⟩ hp
  rw [hs]
  exact ⟨hsound.speaker _ hspeaker, hsound.setFlags, hsound.next⟩

end Speech
end DialogueScript
