import DialogueScript.Proofs.Script.Bodies
import Mathlib.Data.List.Forall2
/-!
# The layout of a script

What a script says does not depend on how it is laid out. Lines are trimmed before anything looks at them, so
blank characters around them do not matter, nor does a carriage return in front of a newline. Lines that are blank
or mere comments are idle: they leave no trace between blocks and in headers, and in the body of a block no reader
comes to see them. All they do is to move the lines behind them down.

Results:
* `Block.node_bare`: a block without its idle lines is read as the same node.
* `Outline.readLines_bare`: reading lines without the idle ones gives blocks without their idle lines.
* `read_layout`: what a change of layout does to the outcome of reading.
-/
namespace DialogueScript

/-! ## Blank characters around lines -/

namespace Text

/-- The text is `core` with blank characters in front and behind. -/
def IsSpaced (core l : Text) : Prop :=
  ∃ front back, (∀ c ∈ front, isBlank c) ∧ (∀ c ∈ back, isBlank c) ∧ l = front ++ core ++ back

/-- The two texts differ in blank characters in front and behind. -/
def Respaced (l m : Text) : Prop := ∃ core, IsSpaced core l ∧ IsSpaced core m

theorem trim_of_isSpaced {core l : Text} (h : IsSpaced core l) : trim l = trim core := by
  obtain ⟨front, back, hfront, hback, rfl⟩ := h
  rw [trim_append_blank hback, trim_blank_append hfront]

theorem trim_of_respaced {l m : Text} (h : Respaced l m) : trim l = trim m := by
  obtain ⟨core, hl, hm⟩ := h
  rw [trim_of_isSpaced hl, trim_of_isSpaced hm]

theorem respaced_append {b : Text} (hb : ∀ c ∈ b, isBlank c) (l : Text) : Respaced l (l ++ b) :=
  ⟨l, ⟨[], [], by simp, by simp, by simp⟩, ⟨[], b, by simp, hb, by simp⟩⟩

/-- The text with a carriage return in front of each newline. -/
def toCrlf (s : Text) : Text := s.flatMap fun c => if c = '\n' then ['\r', '\n'] else [c]

/-- Lines get a carriage return at their end, but for the last one if no newline ends it. -/
theorem lines_toCrlf (s : Text) :
    List.Forall₂ (fun l m => ∃ b, (∀ c ∈ b, isBlank c) ∧ m = l ++ b) (lines s) (lines (toCrlf s)) := by
  induction s with
  | nil => exact .nil
  | cons c r ih =>
    by_cases hc : c = '\n'
    · subst hc
      have hlines : lines (toCrlf ('\n' :: r)) = ['\r'] :: lines (toCrlf r) :=
        lines_append_newline (t := ['\r']) (by decide) (toCrlf r)
      have hreturn : ∀ c ∈ ['\r'], isBlank c := List.forall_mem_singleton.2 rfl
      rw [hlines, lines, if_pos rfl]
      exact .cons ⟨['\r'], hreturn, rfl⟩ ih
    · have hcrlf : toCrlf (c :: r) = c :: toCrlf r := by simp [toCrlf, hc]
      rw [hcrlf, lines, if_neg hc, lines, if_neg hc]
      revert ih
      cases lines r with
      | nil =>
        intro ih
        rw [List.forall₂_nil_left_iff.1 ih]
        exact .cons ⟨[], by simp, by simp⟩ .nil
      | cons l ls =>
        intro ih
        obtain ⟨m, ms, ⟨b, hb, rfl⟩, hrest, he⟩ := List.forall₂_cons_left_iff.1 ih
        rw [he]
        exact .cons ⟨b, hb, rfl⟩ hrest

theorem respaced_toCrlf (s : Text) : List.Forall₂ Respaced (lines s) (lines (toCrlf s)) :=
  (lines_toCrlf s).imp fun l _ ⟨_, hb, hm⟩ => hm ▸ respaced_append hb l

end Text

/-! ## Idle lines in blocks -/

/-- The line is neither blank nor a mere comment. -/
def SourceLine.isSolid (l : SourceLine) : Bool := !l.text.isEmpty && l.isMeaningful

namespace Block

/-- The block without mere comments in its body. -/
def bare (b : Block) : Block := { b with body := b.meaningful }

theorem meaningful_bare (b : Block) : b.bare.meaningful = b.meaningful :=
  List.filter_eq_self.2 fun _ hl => (List.mem_filter.1 hl).2

theorem choices_bare (b : Block) :
    (b.bare.body.any fun l => (Line.choice? l.text).isSome) = b.body.any fun l => (Line.choice? l.text).isSome := by
  have hmeaningful : ∀ l : SourceLine, (Line.choice? l.text).isSome → l.isMeaningful := by
    intro l hl
    cases hc : Line.isComment l.text with
    | false => simp [SourceLine.isMeaningful, hc]
    | true => simp [Line.choice?_of_isComment hc] at hl
  rw [Bool.eq_iff_iff, List.any_eq_true, List.any_eq_true]
  constructor
  · rintro ⟨l, hl, hchoice⟩
    exact ⟨l, (List.mem_filter.1 hl).1, hchoice⟩
  · rintro ⟨l, hl, hchoice⟩
    exact ⟨l, List.mem_filter.2 ⟨hl, hmeaningful l hchoice⟩, hchoice⟩

theorem kind_bare (b : Block) : b.bare.kind = b.kind := by
  unfold kind firstLine? kindOfLine
  rw [meaningful_bare, choices_bare]
  rfl

theorem payload_bare (b : Block) (ctx : Node.Context) (k : Kind) : b.bare.payload ctx k = b.payload ctx k := by
  cases k <;> simp only [payload, Speech.read, Menu.read, Branching.read, Storylet.read, Pool.read, meaningful_bare] <;>
    rfl

/-- A block without mere comments is read as the same node. -/
theorem node_bare (b : Block) (strict : Bool) : b.bare.node strict = b.node strict := by
  unfold node
  rw [kind_bare]
  simp only [payload_bare]
  rfl

end Block

/-! ## Idle lines in outlines -/

namespace Outline

def Place.bare : Place → Place
  | body b => .body b.bare
  | p => p

def Progress.bare (p : Progress) : Progress := { p with blocks := p.blocks.map Block.bare, place := p.place.bare }

end Outline

/-- The outline without mere comments in its blocks. -/
def Outline.bare (o : Outline) : Outline := { o with blocks := o.blocks.map Block.bare }

namespace Outline

theorem isBodyChange_bare : IsBodyChange Block.bare where
  title _ := rfl
  titleLine _ := rfl
  empty b hb := by
    obtain ⟨title, titleLine, headers, body⟩ := b
    obtain rfl : body = [] := hb
    rfl

theorem leavesLine_bare {l : SourceLine} (hl : l.isMeaningful) : LeavesLine Block.bare l := by
  intro b
  simp [Block.bare, Block.meaningful, hl]

namespace Progress

theorem bare_eq_mapBlocks : bare = mapBlocks Block.bare := by
  funext p
  obtain ⟨pre, bs, place⟩ := p
  cases place <;> rfl

theorem step_bare (p : Progress) (l : SourceLine) (hl : l.isSolid) : p.bare.step l = relabel id bare (p.step l) := by
  rw [bare_eq_mapBlocks]
  exact step_mapBlocks isBodyChange_bare p (leavesLine_bare (Bool.and_eq_true_iff.1 hl).2)

theorem step_blank {l : SourceLine} (hl : l.text = []) (p : Progress) : p.step l = .ok p := by
  have hbody : ¬ ([] : Text) = bodyMark := by decide
  have hend : ¬ ([] : Text) = endMark := by decide
  obtain ⟨pre, bs, place⟩ := p
  cases place <;> simp [step, readOutside, readHeader, readBody, hl, hbody, hend]

theorem step_mere {l : SourceLine} (hl : l.isMeaningful = false) (p : Progress) :
    relabel id bare (p.step l) = .ok p.bare := by
  simp only [SourceLine.isMeaningful, Bool.or_eq_false_iff, Bool.not_eq_false', Option.isSome_eq_false_iff,
    Option.isNone_iff_eq_none] at hl
  obtain ⟨hcomment, hdirective⟩ := hl
  have hbody : l.text ≠ bodyMark := by
    rintro h
    rw [h] at hcomment
    cases hcomment
  have hend : l.text ≠ endMark := by
    rintro h
    rw [h] at hcomment
    cases hcomment
  obtain ⟨pre, bs, place⟩ := p
  cases place with
  | outside => simp [step, readOutside, hcomment, hdirective, relabel]
  | header start title headers => simp [step, readHeader, hbody, hcomment, relabel]
  | body b =>
    -- the line is put into the body, and left out when that is stripped
    have hskip : l.isMeaningful = false := by simp [SourceLine.isMeaningful, hcomment, hdirective]
    simp only [step, readBody, if_neg hend, relabel]
    split
    · rfl
    · simp [bare, Place.bare, Block.bare, Block.meaningful, hskip]

theorem step_idle (p : Progress) (l : SourceLine) (hl : l.isSolid = false) :
    relabel id bare (p.step l) = .ok p.bare := by
  simp only [SourceLine.isSolid, Bool.and_eq_false_iff, Bool.not_eq_false', List.isEmpty_iff] at hl
  rcases hl with hblank | hmere
  · rw [step_blank hblank]
    rfl
  · exact step_mere hmere p

end Progress

/-- Without idle lines, a text has the same outline but for the mere comments in its blocks. -/
theorem readLines_bare (p : Progress) (ls : List SourceLine) :
    readLines p.bare (ls.filter SourceLine.isSolid) = relabel id Progress.bare (readLines p ls) :=
  relabel_foldlM_filter Progress.step_bare Progress.step_idle ls p

/-- The outline that was read when reading stands between blocks. -/
def Progress.outline? (p : Progress) : Option Outline :=
  match p.place with
  | .outside => some ⟨p.preamble, p.blocks⟩
  | _ => none

theorem toOption_ofLines (ls : List Text) :
    (ofLines ls).toOption = (readLines .start (numbered 1 ls)).toOption.bind Progress.outline? := by
  unfold ofLines
  cases readLines .start (numbered 1 ls) with
  | error f => rfl
  | ok p =>
    obtain ⟨pre, bs, place⟩ := p
    cases place <;> rfl

theorem outline?_bare (p : Progress) : p.bare.outline? = p.outline?.map Outline.bare := by
  obtain ⟨pre, bs, place⟩ := p
  cases place <;> rfl

theorem outline?_renumber (φ : Nat → Nat) (p : Progress) :
    (p.renumber φ).outline? = p.outline?.map (Outline.renumber φ) := by
  obtain ⟨pre, bs, place⟩ := p
  cases place <;> rfl

/-- The outline without mere comments is that of the solid lines. -/
theorem bare_ofLines (ls : List Text) : (ofLines ls).toOption.map bare =
    (readLines .start ((numbered 1 ls).filter SourceLine.isSolid)).toOption.bind Progress.outline? := by
  have hread := readLines_bare .start (numbered 1 ls)
  rw [show Progress.start.bare = Progress.start from rfl] at hread
  rw [hread, toOption_relabel, toOption_ofLines]
  cases (readLines .start (numbered 1 ls)).toOption with
  | none => rfl
  | some p => exact (outline?_bare p).symm

/-! ## Lines that move down -/

/-- The second row of lines is the first one with idle lines put in. -/
inductive Padded : List Text → List Text → Prop
  | nil : Padded [] []
  | line (t : Text) {ls ms : List Text} : Padded ls ms → Padded (t :: ls) (t :: ms)
  | blank {t : Text} {ls ms : List Text} : Text.trim t = [] → Padded ls ms → Padded ls (t :: ms)
  | comment {t : Text} {ls ms : List Text} : Line.isComment (Text.trim t) → Line.directive? (Text.trim t) = none →
    Padded ls ms → Padded ls (t :: ms)

/-- Lines numbered from `n` are found among lines numbered from `m`, moved down to the numbers that `φ` says, and
all others among these are idle. -/
structure Shifts (φ : Nat → Nat) (n : Nat) (ls : List Text) (m : Nat) (ms : List Text) : Prop where
  increasing : ∀ i j, n ≤ i → i < j → φ i < φ j
  above : ∀ i, n ≤ i → m ≤ φ i
  located : ∀ l ∈ numbered n ls, l.renumber φ ∈ numbered m ms
  solid : (numbered m ms).filter SourceLine.isSolid = ((numbered n ls).filter SourceLine.isSolid).map (·.renumber φ)

theorem Shifts.idle {φ : Nat → Nat} {n m : Nat} {ls ms : List Text} {t : Text}
    (ht : SourceLine.isSolid ⟨m, Text.trim t⟩ = false) (h : Shifts φ n ls (m + 1) ms) : Shifts φ n ls m (t :: ms) := by
  refine ⟨h.increasing, fun i hi => Nat.le_of_succ_le (h.above i hi), fun l hl => .tail _ (h.located l hl), ?_⟩
  rw [numbered, List.filter_cons_of_neg (by simp [ht]), h.solid]

theorem Shifts.line {φ : Nat → Nat} {n m : Nat} {ls ms : List Text} (t : Text) (h : Shifts φ (n + 1) ls (m + 1) ms) :
    Shifts (Function.update φ n m) n (t :: ls) m (t :: ms) := by
  have hfirst : SourceLine.renumber (Function.update φ n m) ⟨n, Text.trim t⟩ = ⟨m, Text.trim t⟩ := by
    simp [SourceLine.renumber]
  have hlater : ∀ l ∈ numbered (n + 1) ls, l.renumber (Function.update φ n m) = l.renumber φ := by
    intro l hl
    have := bounds_of_mem_numbered hl
    rw [SourceLine.renumber, Function.update_of_ne (by omega), ← SourceLine.renumber]
  refine ⟨fun i j hi hij => ?_, fun i hi => ?_, fun l hl => ?_, ?_⟩
  · have habove := h.above j (by omega)
    rw [Function.update_of_ne (by omega : j ≠ n)]
    by_cases hin : i = n
    · rw [hin, Function.update_self]
      omega
    · rw [Function.update_of_ne hin]
      exact h.increasing i j (by omega) hij
  · by_cases hin : i = n
    · have hm : Function.update φ n m i = m := by rw [hin, Function.update_self]
      exact Nat.le_of_eq hm.symm
    · rw [Function.update_of_ne hin]
      exact Nat.le_of_succ_le (h.above i (by omega))
  · rcases List.mem_cons.1 hl with rfl | hl
    · rw [hfirst]
      exact .head _
    · rw [hlater l hl]
      exact .tail _ (h.located l hl)
  · have hsame : SourceLine.isSolid ⟨m, Text.trim t⟩ = SourceLine.isSolid ⟨n, Text.trim t⟩ := rfl
    have hrest : ((numbered (n + 1) ls).filter SourceLine.isSolid).map (·.renumber (Function.update φ n m)) =
        ((numbered (n + 1) ls).filter SourceLine.isSolid).map (·.renumber φ) :=
      List.map_congr_left fun l hl => hlater l (List.mem_filter.1 hl).1
    rw [numbered, numbered, List.filter_cons, List.filter_cons, hsame]
    split
    · rw [List.map_cons, hfirst, hrest, h.solid]
    · rw [hrest, h.solid]

theorem exists_shifts {ls ms : List Text} (h : Padded ls ms) (n m : Nat) : ∃ φ, Shifts φ n ls m ms := by
  induction h generalizing n m with
  | nil => exact ⟨(· + m), fun i j _ hij => by omega, fun i _ => by omega, by simp [numbered], rfl⟩
  | line t _ ih =>
    obtain ⟨φ, hφ⟩ := ih (n + 1) (m + 1)
    exact ⟨_, hφ.line t⟩
  | blank ht _ ih =>
    obtain ⟨φ, hφ⟩ := ih n (m + 1)
    exact ⟨φ, hφ.idle (by simp [SourceLine.isSolid, ht])⟩
  | comment hcomment hdirective _ ih =>
    obtain ⟨φ, hφ⟩ := ih n (m + 1)
    exact ⟨φ, hφ.idle (by simp [SourceLine.isSolid, SourceLine.isMeaningful, hcomment, hdirective])⟩

theorem bare_ofLines_of_shifts {φ : Nat → Nat} {ls ms : List Text} (h : Shifts φ 1 ls 1 ms) :
    (ofLines ms).toOption.map bare = ((ofLines ls).toOption.map bare).map (Outline.renumber φ) := by
  have hread := readLines_renumber φ .start ((numbered 1 ls).filter SourceLine.isSolid)
  rw [show Progress.start.renumber φ = Progress.start from rfl] at hread
  rw [bare_ofLines, bare_ofLines, h.solid, hread, toOption_relabel]
  cases (readLines .start ((numbered 1 ls).filter SourceLine.isSolid)).toOption with
  | none => rfl
  | some p => exact outline?_renumber φ p

theorem numbered_congr {ls ms : List Text} (h : ls.map Text.trim = ms.map Text.trim) (n : Nat) :
    numbered n ls = numbered n ms := by
  induction ls generalizing n ms with
  | nil => rw [List.map_eq_nil_iff.1 h.symm]
  | cons t ls ih =>
    obtain ⟨u, us, rfl, hu, hus⟩ := List.map_eq_cons_iff.1 h.symm
    rw [numbered, numbered, hu, ih hus.symm]

theorem ofLines_congr {ls ms : List Text} (h : ls.map Text.trim = ms.map Text.trim) : ofLines ls = ofLines ms := by
  have hlength : ls.length = ms.length := by simpa using congrArg List.length h
  unfold ofLines
  rw [numbered_congr h, hlength]

end Outline

/-! ## Scripts -/

namespace Script

theorem outcome_bare (settings : Settings) (o : Outline) : outcome settings o.bare = outcome settings o :=
  outcome_map Outline.isBodyChange_bare fun b _ => b.node_bare settings.strictConditions

theorem toOption_read (settings : Settings) (s : Text) :
    (read settings s).toOption = (Outline.read s).toOption.bind fun o => (outcome settings o).toOption := by
  rw [read_eq]
  cases Outline.read s <;> rfl

/-- The outcome is that of the outline without mere comments. -/
theorem toOption_read_bare (settings : Settings) (s : Text) : (read settings s).toOption =
    ((Outline.read s).toOption.map Outline.bare).bind fun o => (outcome settings o).toOption := by
  rw [toOption_read]
  cases (Outline.read s).toOption with
  | none => rfl
  | some o => exact congrArg Except.toOption (outcome_bare settings o).symm

theorem read_of_respaced {settings : Settings} {s t : Text}
    (h : List.Forall₂ Text.Respaced (Text.lines s) (Text.lines t)) : read settings t = read settings s := by
  have htrim : (Text.lines s).map Text.trim = (Text.lines t).map Text.trim := by
    rw [← List.forall₂_eq_eq_eq, List.forall₂_map_left_iff, List.forall₂_map_right_iff]
    exact h.imp fun _ _ => Text.trim_of_respaced
  rw [read_eq, read_eq, Outline.read, Outline.read, Outline.ofLines_congr htrim]

theorem toOption_read_of_shifts {settings : Settings} {s t : Text} {φ : Nat → Nat}
    (h : Outline.Shifts φ 1 (Text.lines s) 1 (Text.lines t)) :
    (read settings t).toOption = (read settings s).toOption.map (Outcome.renumber φ) := by
  rw [toOption_read_bare, toOption_read_bare, Outline.read, Outline.bare_ofLines_of_shifts h]
  show _ = Option.map _ (((Outline.ofLines (Text.lines s)).toOption.map Outline.bare).bind _)
  cases (Outline.ofLines (Text.lines s)).toOption.map Outline.bare with
  | none => rfl
  | some o => exact outcome_renumber φ settings o

/-- The layout of a script does not matter. Blank characters around lines, and carriage returns in front of newlines,
change nothing at all; idle lines that are put in move the other lines down, and change nothing but the numbers of
lines in the notices. -/
theorem read_layout (settings : Settings) (s : Text) :
    (∀ t, List.Forall₂ Text.Respaced (Text.lines s) (Text.lines t) → read settings t = read settings s) ∧
    read settings (Text.toCrlf s) = read settings s ∧
    ∀ t, Outline.Padded (Text.lines s) (Text.lines t) → ∃ φ : Nat → Nat,
      (∀ i j, 1 ≤ i → i < j → φ i < φ j) ∧
      (∀ l ∈ Outline.numbered 1 (Text.lines s), l.renumber φ ∈ Outline.numbered 1 (Text.lines t)) ∧
      (read settings t).toOption = (read settings s).toOption.map (Outcome.renumber φ) := by
  refine ⟨fun t => read_of_respaced, read_of_respaced (Text.respaced_toCrlf s), fun t ht => ?_⟩
  obtain ⟨φ, hφ⟩ := Outline.exists_shifts ht 1 1
  exact ⟨φ, hφ.increasing, hφ.located, toOption_read_of_shifts hφ⟩

/-- A script with a directive that is passed over. -/
def noteScript : Text := "// @note\ntitle: a\n---\nBob: Hi\n===\n".toList

/-- That script with idle lines in all places, the first two in front of the directive. -/
def paddedNoteScript : Text :=
  "// greets\n\n// @note\n//\ntitle: a\n \n---\n\n// first\nBob: Hi\n===\n// last".toList

theorem padded_noteScript : Outline.Padded (Text.lines noteScript) (Text.lines paddedNoteScript) :=
  .comment rfl rfl (.blank rfl (.line _ (.comment rfl rfl (.line _ (.blank rfl (.line _ (.blank rfl
    (.comment rfl rfl (.line _ (.line _ (.comment rfl rfl .nil)))))))))))

theorem read_layout_note : ∃ out, read .standard noteScript = .ok out ∧
    out.notices = [.ignoredDirective 1 "note".toList] ∧
    ∃ φ : Nat → Nat, φ 1 = 3 ∧ (read .standard paddedNoteScript).toOption = some (out.renumber φ) := by
  obtain ⟨φ, -, hlocated, hread⟩ := (read_layout .standard noteScript).2.2 paddedNoteScript padded_noteScript
  have hnote := hlocated ⟨1, "// @note".toList⟩ (by decide)
  have honly : ∀ l ∈ Outline.numbered 1 (Text.lines paddedNoteScript), l.text = "// @note".toList → l.number = 3 := by
    decide
  have hnotices : (read .standard noteScript).map (·.notices) = .ok [.ignoredDirective 1 "note".toList] := by
    with_unfolding_all rfl
  obtain ⟨out, hout, hnotices⟩ := except_map_eq_ok hnotices
  rw [hout] at hread
  exact ⟨out, hout, hnotices, φ, honly _ hnote rfl, hread⟩

end Script
end DialogueScript
