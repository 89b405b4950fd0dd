import DialogueScript.Node.Dispatch
import DialogueScript.Proofs.Node.Branching
import DialogueScript.Proofs.Node.Menu
import DialogueScript.Proofs.Node.Speech
import DialogueScript.Proofs.Node.Storylet
/-!
# Blocks are read back as the nodes they were written from

Which kind of node a block is can be seen from its lines: only calls and pools write their directives, only
menus write choices, and the first line of a speech is spoken where that of a branching opens a bracket.

Results:
* `Block.kind_lines`: the kind of a node is found again in the lines of its payload.
* `Position.read?_text`: a position with finite coordinates is read back.
* `Block.node_draft`: the block of a sound node is read back as that node.
* `Block.sound_node`: a node that was read is sound.
-/
namespace DialogueScript

/-- What every payload that was read is like, and all that a payload has to be like to be read back. -/
def Payload.Sound : Payload → Prop
  | speech s => s.Sound
  | menu m => m.Sound
  | branching b => b.Sound
  | storylet s => s.Sound
  | pool p => p.Sound

theorem Payload.isBodyLine_lines {p : Payload} (h : p.Sound) : ∀ l ∈ p.lines, Layout.isBodyLine l := by
  cases p with
  | speech s => exact Speech.isBodyLine_lines h
  | menu m => exact Menu.isBodyLine_lines h
  | branching b => exact Branching.isBodyLine_lines h
  | storylet s => exact Storylet.isBodyLine_lines h
  | pool p => exact Pool.isBodyLine_lines h

/-! ## The kind of a block -/

/-- The kind of node that has a line for its directive. -/
def Line.kind? (l : Text) : Option Kind :=
  match Line.directive? l with
  | some (.ok d) => d.kind?
  | _ => none

theorem Line.kind?_line {d : Directive} (h : d.isWritable) : Line.kind? d.line = d.kind? := by
  simp only [Line.kind?, Directive.directive?_line h]

theorem Line.kind?_of_ne {c : Char} (h : c ≠ '/') (r : Text) : Line.kind? (c :: r) = none := by
  simp only [Line.kind?, Line.directive?_of_ne h]

theorem SourceLine.kind?_eq (l : SourceLine) : l.directive?.bind Directive.kind? = Line.kind? l.text := by
  unfold SourceLine.directive? Line.kind?
  cases Line.directive? l.text with
  | none => rfl
  | some d => cases d <;> rfl

namespace Block

variable {b : Block} {texts : List Text}

/-- The first directive of a call or a pool decides. -/
theorem kind_of_directive (hb : b.body.map (·.text) = texts) (hm : b.meaningful = b.body) {k : Kind}
    (h : texts.findSome? Line.kind? = some k) : b.kind = .ok k := by
  have hf : (b.meaningful.findSome? fun l => l.directive?.bind Directive.kind?) = some k := by
    rw [hm, ← h, ← hb, List.findSome?_map]
    congr 1
    funext l
    exact SourceLine.kind?_eq l
  unfold kind
  rw [hf]

/-- Without such a directive, a choice decides, and else the first line. -/
theorem kind_of_firstLine {c : Char} {r : Text} {rest : List Text} (hb : b.body.map (·.text) = (c :: r) :: rest)
    (hm : b.meaningful = b.body) (h : ∀ l ∈ (c :: r) :: rest, Line.kind? l = none) (hc : c ≠ '/') :
    ∃ n, b.kind = b.kindOfLine ⟨n, c :: r⟩ := by
  obtain ⟨l, ls, hbody, hl, -⟩ := List.map_eq_cons_iff.1 hb
  obtain ⟨n, t⟩ := l
  obtain rfl : t = c :: r := hl
  have hf : (b.meaningful.findSome? fun l => l.directive?.bind Directive.kind?) = none := by
    rw [List.findSome?_eq_none_iff]
    intro l hl
    rw [SourceLine.kind?_eq]
    exact h l.text (by rw [← hb]; exact List.mem_map_of_mem (hm ▸ hl))
  have hfirst : b.firstLine? = some ⟨n, c :: r⟩ := by
    have hd : (SourceLine.directive? ⟨n, c :: r⟩).isNone := by
      simp only [SourceLine.directive?, Line.directive?_of_ne hc]; rfl
    rw [firstLine?, hm, hbody]
    exact List.find?_cons_of_pos hd
  refine ⟨n, ?_⟩
  unfold kind
  rw [hf]
  simp only [hfirst]

theorem any_choice_eq_false (hb : b.body.map (·.text) = texts) (h : ∀ l ∈ texts, Line.choice? l = none) :
    (b.body.any fun l => (Line.choice? l.text).isSome) = false := by
  rw [List.any_eq_false]
  intro l hl
  simp [h l.text (hb ▸ List.mem_map_of_mem hl)]

theorem kind_speech {s : Speech} (h : s.Sound) (hb : b.body.map (·.text) = s.lines) : b.kind = .ok .speech := by
  have hm := Speech.meaningful_eq h hb
  have hheads := Speech.head_lines h
  obtain ⟨t, ts, hp⟩ := List.exists_cons_of_ne_nil (Text.pieces_ne_nil s.content)
  obtain ⟨c, r, he, hc⟩ := Line.head_spoken h.speaker t
  have hlines : s.lines = (c :: r) :: (ts.map (Line.spoken s.speaker) ++ Layout.setLines s.setFlags ++
      Layout.jumpLines s.next) := by
    unfold Speech.lines Layout.spokenLines
    simp only [hp, List.map_cons, he, List.cons_append]
  have hsingle : '\n' ∉ t := Text.newline_not_mem_of_mem_pieces (s := s.content) (by simp [hp])
  have hd := Line.dialogue?_spoken h.speaker hsingle
  rw [he] at hd
  have hchoice := any_choice_eq_false hb fun l hl => by
    obtain ⟨d, u, rfl, -, hd⟩ := hheads l hl
    exact Line.choice?_of_ne hd u
  rw [hlines] at hb hheads
  -- no line is a directive or a choice, so the first one decides
  obtain ⟨n, hk⟩ := kind_of_firstLine hb hm (fun l hl => by
    obtain ⟨d, u, rfl, hd, -⟩ := hheads l hl
    exact Line.kind?_of_ne hd u) hc.1
  have hif : Text.after? "<<if".toList (c :: r) = none := Line.after?_of_ne hc.2.2.1 _ _
  rw [hk, kindOfLine, hchoice, hif, hd]
  rfl

theorem kind_menu {m : Menu} (h : m.Sound) (hb : b.body.map (·.text) = m.choices.flatMap Menu.trimmedLines) :
    b.kind = .ok .menu := by
  have hm := Menu.meaningful_eq hb
  have hheads : ∀ l ∈ m.choices.flatMap Menu.trimmedLines, ∃ d r, l = d :: r ∧ d ≠ '/' := fun l hl => by
    obtain ⟨c, -, hl⟩ := List.mem_flatMap.1 hl
    exact Menu.head_trimmedLines l hl
  obtain ⟨c, cs, hcs⟩ := List.exists_cons_of_ne_nil h.choices
  have hmem : Line.choice c.text c.id ∈ m.choices.flatMap Menu.trimmedLines := by
    refine List.mem_flatMap.2 ⟨c, by simp [hcs], ?_⟩
    unfold Menu.trimmedLines
    split <;> simp [Menu.plainLines]
  have hchoice : (b.body.any fun l => (Line.choice? l.text).isSome) = true := by
    rw [← hb] at hmem
    obtain ⟨l, hl, he⟩ := List.mem_map.1 hmem
    rw [List.any_eq_true]
    exact ⟨l, hl, by rw [he, Line.choice?_choice (h.sound c (by simp [hcs])).id]; rfl⟩
  obtain ⟨l, ls, hlines⟩ := List.exists_cons_of_ne_nil (List.ne_nil_of_mem hmem)
  rw [hlines] at hb hheads
  obtain ⟨d, r, rfl, hd⟩ := hheads l (by simp)
  obtain ⟨n, hk⟩ := kind_of_firstLine hb hm (fun l hl => by
    obtain ⟨e, u, rfl, he⟩ := hheads l hl
    exact Line.kind?_of_ne he u) hd
  rw [hk, kindOfLine, hchoice]
  rfl

/-- A written line of a branching names a branch, or starts like neither a comment nor a choice. -/
theorem branching_cases {c : Branching} (h : c.Sound) :
    ∀ l ∈ c.branches.flatMap Branching.trimmedLines ++ [Layout.endIfLine],
      (∃ id, l = (Branching.blockDirective id).line) ∨ ∃ d t, l = d :: t ∧ d ≠ '/' ∧ d ≠ '-' := by
  intro l hl
  rcases List.mem_append.1 hl with hl | hl
  · obtain ⟨r, hr, hl⟩ := List.mem_flatMap.1 hl
    exact (Branching.cases_trimmedLines (h.sound r hr) l hl).imp_left fun he => ⟨r.id, he⟩
  · obtain ⟨r, hr⟩ := Layout.head_endIf
    exact .inr ⟨'<', r, by rw [List.mem_singleton.1 hl, hr], by decide, by decide⟩

theorem kind?_branching {c : Branching} (h : c.Sound) :
    ∀ l ∈ c.branches.flatMap Branching.trimmedLines ++ [Layout.endIfLine], Line.kind? l = none := by
  intro l hl
  rcases branching_cases h l hl with ⟨id, rfl⟩ | ⟨d, t, rfl, hd, -⟩
  · rw [Line.kind?_line (Branching.isWritable_blockDirective id)]; rfl
  · exact Line.kind?_of_ne hd t

theorem choice?_branching {c : Branching} (h : c.Sound) :
    ∀ l ∈ c.branches.flatMap Branching.trimmedLines ++ [Layout.endIfLine], Line.choice? l = none := by
  intro l hl
  rcases branching_cases h l hl with ⟨id, rfl⟩ | ⟨d, t, rfl, -, hd⟩
  · rw [Directive.line_eq]; exact Line.choice?_of_ne (by decide) _
  · exact Line.choice?_of_ne hd t

/-- The first line of a branching opens a bracket. -/
theorem firstLine_branching {c : Branching} (h : c.Sound) :
    ∃ t rest, c.branches.flatMap Branching.trimmedLines ++ [Layout.endIfLine] =
      ('<' :: '<' :: ("if".toList ++ t)) :: rest := by
  obtain ⟨r, rs, hrs⟩ := List.exists_cons_of_ne_nil (Branching.branches_ne_nil h)
  have hr : r.kind = .ifThen := by
    have hchain := h.chain
    rw [hrs] at hchain
    cases hk : r.kind <;> simp_all [BranchKind.isChain]
  have hline : Branching.openingLine r =
      '<' :: '<' :: ("if".toList ++ ' ' :: (Condition.joined r.conditions ++ ['>', '>'])) := by
    simp only [Branching.openingLine, hr]
    exact Layout.guardLine_eq _ _
  exact ⟨_, Branching.innerLines r ++ rs.flatMap Branching.trimmedLines ++ [Layout.endIfLine], by
    rw [hrs, List.flatMap_cons, Branching.trimmedLines, hline]
    rfl⟩

theorem kind_branching {c : Branching} (h : c.Sound)
    (hb : b.body.map (·.text) = c.branches.flatMap Branching.trimmedLines ++ [Layout.endIfLine]) :
    b.kind = .ok .branching := by
  have hm := Branching.meaningful_eq h hb
  have hchoice := any_choice_eq_false hb (choice?_branching h)
  have hkind := kind?_branching h
  obtain ⟨t, rest, hlines⟩ := firstLine_branching h
  rw [hlines] at hb hkind
  obtain ⟨n, hk⟩ := kind_of_firstLine hb hm hkind (by decide)
  have hif : Text.after? "<<if".toList ('<' :: '<' :: ("if".toList ++ t)) = some t :=
    Text.after?_append "<<if".toList t
  rw [hk, kindOfLine, hchoice]
  simp only [hif]
  rfl

theorem kind_storylet {s : Storylet} (h : s.Sound) (hb : b.body.map (·.text) = s.lines) : b.kind = .ok .storylet := by
  apply kind_of_directive hb (Storylet.meaningful_eq h hb)
  rw [Storylet.lines, List.findSome?_cons, Line.kind?_line (Storylet.isWritable_directive h), Directive.kind?,
    Storylet.name_directive]
  rfl

theorem kind_pool {p : Pool} (h : p.Sound) (hb : b.body.map (·.text) = p.lines) : b.kind = .ok .pool := by
  apply kind_of_directive hb (Pool.meaningful_eq h hb)
  show List.findSome? _ (_ :: _) = _
  rw [List.findSome?_cons, Line.kind?_line (Pool.isWritable_directive h)]
  rfl

theorem kind_lines {p : Payload} (h : p.Sound) (hb : b.body.map (·.text) = p.lines.map Text.trim) :
    b.kind = .ok p.kind := by
  cases p with
  | speech s => exact kind_speech h (hb.trans (Speech.map_trim_lines h))
  | menu m => exact kind_menu h (hb.trans (Menu.map_trim_lines h))
  | branching c => exact kind_branching h (hb.trans (Branching.map_trim_lines h))
  | storylet s => exact kind_storylet h (hb.trans (Storylet.map_trim_lines h))
  | pool p => exact kind_pool h (hb.trans (Pool.map_trim_lines h))

theorem payload_lines (ctx : Node.Context) {p : Payload} (h : p.Sound)
    (hb : b.body.map (·.text) = p.lines.map Text.trim) : b.payload ctx p.kind = .ok p := by
  cases p with
  | speech s =>
    show Reading.ofExcept ((Speech.read b).map Payload.speech) = _
    rw [Speech.read_lines h (hb.trans (Speech.map_trim_lines h))]; rfl
  | menu m =>
    show (Menu.read ctx b).andThen _ = _
    rw [Menu.read_lines h (hb.trans (Menu.map_trim_lines h))]; rfl
  | branching c =>
    show (Branching.read ctx b).andThen _ = _
    rw [Branching.read_lines h (hb.trans (Branching.map_trim_lines h))]; rfl
  | storylet s =>
    show Reading.ofExcept ((Storylet.read b).map Payload.storylet) = _
    rw [Storylet.read_lines h (hb.trans (Storylet.map_trim_lines h))]; rfl
  | pool p =>
    show Reading.ofExcept ((Pool.read b).map Payload.pool) = _
    rw [Pool.read_lines h (hb.trans (Pool.map_trim_lines h))]; rfl

theorem sound_payload {ctx : Node.Context} (hnode : Text.isNodeId ctx.node) (hl : ∀ l ∈ b.body, '\n' ∉ l.text)
    {k : Kind}
    {p : Payload} (h : (b.payload ctx k).result = .ok p) : p.Sound := by
  cases k with
  | speech =>
    obtain ⟨s, hs, rfl⟩ := except_map_eq_ok h
    exact Speech.sound_of_read hs
  | menu =>
    obtain ⟨m, hm, h⟩ := Reading.andThen_eq_ok h
    cases h
    exact Menu.sound_of_read hnode hl hm
  | branching =>
    obtain ⟨c, hc, h⟩ := Reading.andThen_eq_ok h
    cases h
    exact Branching.sound_of_read hnode hc
  | storylet =>
    obtain ⟨s, hs, rfl⟩ := except_map_eq_ok h
    exact Storylet.sound_of_read hs
  | pool =>
    obtain ⟨q, hq, rfl⟩ := except_map_eq_ok h
    exact Pool.sound_of_read hq

end Block

/-! ## Positions -/

namespace Position

def isFinite (p : Position) : Bool := p.x.isFinite && p.y.isFinite

variable {p : Position}

theorem isFinite_iff : p.isFinite ↔ p.x.isFinite ∧ p.y.isFinite := by simp [isFinite]

theorem coordinate?_text {x : Binary64} (h : x.isFinite) : coordinate? x.text = some x := by
  have ht : Text.trim x.text = x.text := Text.trim_of_not_blank fun c hc =>
    Text.isBlank_of_isIdChar (Binary64.isIdChar_of_isNumeralChar (Binary64.isNumeralChar_of_mem_text h c hc))
  rw [coordinate?, ht, Binary64.read?_text h, Option.filter_some, if_pos h]

theorem read?_text (h : p.isFinite) : read? p.text = some p := by
  obtain ⟨hx, hy⟩ := isFinite_iff.1 h
  have hcomma : ∀ c ∈ p.x.text, (c != ',') = true := by
    intro c hc
    have hn := Binary64.isNumeralChar_of_mem_text hx c hc
    rw [bne_iff_ne]
    rintro rfl
    cases hn
  unfold read? text
  rw [List.takeWhile_append_of_pos hcomma, List.dropWhile_append_of_pos hcomma]
  simp [coordinate?_text hx, coordinate?_text hy]

theorem isHeader_text (h : p.isFinite) : Layout.isHeader (headerKey, p.text) := by
  obtain ⟨hx, hy⟩ := isFinite_iff.1 h
  have hchars : ∀ x : Binary64, x.isFinite → ∀ c ∈ x.text, Text.isBlank c = false := fun x hx c hc =>
    Text.isBlank_of_isIdChar (Binary64.isIdChar_of_isNumeralChar (Binary64.isNumeralChar_of_mem_text hx c hc))
  have hblank : ∀ c ∈ p.text, Text.isBlank c = false := by
    intro c hc
    rcases List.mem_append.1 hc with hc | hc
    · exact hchars p.x hx c hc
    · rcases List.mem_cons.1 hc with rfl | hc
      · rfl
      · exact hchars p.y hy c hc
  obtain ⟨hs, he⟩ := Text.ends_of_not_blank (by simp [text]) hblank
  have hkey : Text.shaped Text.isWordStart Text.isWordChar headerKey ∧ headerKey ≠ "title".toList := by decide
  exact ⟨hkey.1, hkey.2, hs, he, fun hn => by cases hblank _ hn⟩

theorem isFinite_of_read? {s : Text} (h : read? s = some p) : p.isFinite := by
  have key : ∀ {t : Text} {x : Binary64}, coordinate? t = some x → x.isFinite := fun h =>
    (Option.filter_eq_some_iff.1 h).2
  unfold read? at h
  split at h
  · split at h
    · next hx hy => cases h; exact isFinite_iff.2 ⟨key hx, key hy⟩
    · cases h
  · cases h

end Position

/-! ## Nodes -/

namespace Node

/-- A well-formed id, a sound payload, a position that is finite if there is one. -/
structure Sound (n : Node) : Prop where
  id : Text.isNodeId n.id
  payload : n.payload.Sound
  position : ∀ p ∈ n.position, p.isFinite

/-- The node without its position, unless positions are kept. -/
def placed (withPosition : Bool) (n : Node) : Node := { n with position := if withPosition then n.position else none }

/-- The block that a node is written as. -/
def draft (withPosition : Bool) (n : Node) : Layout.BlockDraft where
  title := n.id
  headers := ((n.placed withPosition).position.map fun p => (Position.headerKey, p.text)).toList
  body := n.payload.lines
  depth := 0

variable {n : Node}

theorem speakers_of_sound {p : Payload} (h : p.Sound) : ∀ s ∈ p.speakers, Text.isSpeaker s := by
  intro w hw
  cases p with
  | speech s => rw [List.mem_singleton.1 hw]; exact Speech.Sound.speaker h
  | branching b =>
    obtain ⟨r, hr, hs⟩ := List.mem_filterMap.1 hw
    exact (Branching.Sound.sound h r hr).speaker w hs
  | menu m => cases hw
  | storylet s => cases hw
  | pool p => cases hw

theorem block_of_speakers (h : ∀ w ∈ n.payload.speakers, Text.isSpeaker w) (withPosition : Bool) :
    n.block withPosition = .ok (n.draft withPosition) := by
  have hf : n.payload.speakers.find? (!Text.isSpeaker ·) = none := by
    rw [List.find?_eq_none]
    intro w hw
    simp [h w hw]
  unfold block
  rw [hf]
  obtain ⟨id, position, payload⟩ := n
  cases withPosition <;> cases position <;>
    simp [draft, placed, Layout.BlockDraft.addLines, Layout.BlockDraft.start, Layout.BlockDraft.addHeader]

theorem writable_draft (h : n.Sound) (withPosition : Bool) : (n.draft withPosition).Writable := by
  refine ⟨h.id, ?_, Payload.isBodyLine_lines h.payload⟩
  intro e he
  obtain ⟨p, hp, rfl⟩ := Option.map_eq_some_iff.1 (Option.mem_toList.1 he)
  refine Position.isHeader_text (h.position p ?_)
  simp only [placed] at hp
  split at hp
  · exact hp
  · cases hp

end Node

theorem Block.headers_draft {n : Node} (h : n.Sound) (withPosition : Bool) {b : Block}
    (hb : b.headers = (n.draft withPosition).headers) :
    b.headers.foldlM b.readHeader none = .ok (n.placed withPosition).position := by
  have hfinite : ∀ p ∈ (n.placed withPosition).position, p.isFinite := by
    intro p hp
    simp only [Node.placed] at hp
    split at hp
    · exact h.position p hp
    · cases hp
  rw [hb]
  unfold Node.draft
  cases hp : (n.placed withPosition).position with
  | none => rfl
  | some p =>
    rw [hp] at hfinite
    have hstep : b.readHeader none (Position.headerKey, p.text) = .ok (some p) := by
      simp only [readHeader, if_true, Position.read?_text (hfinite p rfl)]
    show List.foldlM b.readHeader none [(Position.headerKey, p.text)] = _
    rw [List.foldlM_cons, hstep]
    rfl

theorem Block.node_draft {n : Node} (h : n.Sound) (withPosition strict : Bool) {b : Block}
    (hb : b.content = (n.draft withPosition).content) : b.node strict = .ok (n.placed withPosition) := by
  obtain ⟨htitle, hrest⟩ := Prod.mk.inj hb
  obtain ⟨hheaders, hbody⟩ := Prod.mk.inj hrest
  have hkind := Block.kind_lines h.payload hbody
  have hposition := Block.headers_draft h withPosition hheaders
  have hpayload := Block.payload_lines ⟨b.title, strict⟩ h.payload hbody
  show (Reading.ofExcept b.kind).andThen (fun kind => (b.headers.foldlM b.readHeader none).andThen fun position =>
    (b.payload ⟨b.title, strict⟩ kind).andThen fun payload => .ok (Node.mk b.title position payload)) = _
  rw [hkind, hposition]
  show (b.payload ⟨b.title, strict⟩ n.payload.kind).andThen _ = _
  rw [hpayload, Reading.ok_andThen, htitle]
  rfl

theorem Block.finite_readHeader {b : Block} {position position' : Option Position} {e : Text × Text}
    (hp : ∀ p ∈ position, p.isFinite) (h : (b.readHeader position e).result = .ok position') :
    ∀ p ∈ position', p.isFinite := by
  unfold readHeader at h
  dsimp only at h
  split at h
  · split at h
    · next hr => cases h; rintro _ ⟨⟩; exact Position.isFinite_of_read? hr
    · cases h
  · cases h; exact hp

/-- A node that was read is sound, and its id is the title of its block. -/
theorem Block.sound_node {b : Block} {strict : Bool} {n : Node} (ht : Text.isNodeId b.title)
    (hl : ∀ l ∈ b.body, '\n' ∉ l.text) (h : (b.node strict).result = .ok n) : n.id = b.title ∧ n.Sound := by
  obtain ⟨kind, -, h⟩ := Reading.andThen_eq_ok h
  obtain ⟨position, hp, h⟩ := Reading.andThen_eq_ok h
  obtain ⟨payload, hpayload, h⟩ := Reading.andThen_eq_ok h
  cases h
  refine ⟨rfl, ht, Block.sound_payload ht hl hpayload, ?_⟩
  exact Reading.foldlM_invariant (I := fun position : Option Position => ∀ p ∈ position, p.isFinite)
    (fun e _ q q' hq hstep => Block.finite_readHeader hq hstep) (by simp) hp

end DialogueScript
