import DialogueScript.Node.Layout
import DialogueScript.Proofs.Line.Dialogue
import DialogueScript.Proofs.Line.Directive
import DialogueScript.Proofs.Node.Reading
/-!
# The outline of written lines

Reading goes line by line through the places between blocks, in a header and in a body. Written lines lead
from between blocks to between blocks: directives on top add to the preamble, and the lines of a block add
that block. What is indented is trimmed, so a block is read back with its lines trimmed and nothing else
changed.

Results:
* `readLines_directives`: directives between blocks are read back.
* `readLines_block`, `readLines_blocks`: written blocks are read back.
* `ofLines_written`: so is a whole written script.
* `adds_step`: all that one line can add to what was read.
* `Progress.Sound`: what a line keeps; `sound_read`: the titles of the blocks of any outline are well formed and
  differ, and their lines are single lines.
* `titles_sublist`: the blocks of any outline stand in the order of the text.
-/
namespace DialogueScript

namespace Layout

/-- A line that a body can hold: one line that is not blank and does not end the body. -/
def isBodyLine (l : Text) : Prop := Text.trim l ≠ [] ∧ Text.trim l ≠ Outline.endMark ∧ '\n' ∉ l

/-- A header that can be written: its key is a word and not that of the title, its value has solid ends. -/
def isHeader (h : Text × Text) : Prop :=
  Text.shaped Text.isWordStart Text.isWordChar h.1 ∧ h.1 ≠ "title".toList ∧ Text.startsSolid h.2 ∧
    Text.endsSolid h.2 ∧ '\n' ∉ h.2

namespace BlockDraft

/-- A block that is read back. -/
structure Writable (d : BlockDraft) : Prop where
  title : Text.isNodeId d.title
  headers : ∀ h ∈ d.headers, isHeader h
  body : ∀ l ∈ d.body, isBodyLine l

/-- What is read back of a block: its title, its headers, its lines without their indentation. -/
def content (d : BlockDraft) : Text × List (Text × Text) × List Text := (d.title, d.headers, d.body.map Text.trim)

end BlockDraft
end Layout

/-- A block without the places where it stands in its script. -/
def Block.content (b : Block) : Text × List (Text × Text) × List Text := (b.title, b.headers, b.body.map (·.text))

namespace Outline

/-! ## Rows of lines -/

theorem numbered_append (n : Nat) (a b : List Text) :
    numbered n (a ++ b) = numbered n a ++ numbered (n + a.length) b := by
  induction a generalizing n with
  | nil => rfl
  | cons t a ih =>
    rw [List.cons_append, numbered, numbered, ih, List.cons_append, List.length_cons]
    congr 3
    omega

theorem bounds_of_mem_numbered {n : Nat} {ls : List Text} {l : SourceLine} (h : l ∈ numbered n ls) :
    n ≤ l.number ∧ l.number < n + ls.length := by
  induction ls generalizing n with
  | nil => cases h
  | cons t ls ih =>
    rw [List.length_cons]
    rcases List.mem_cons.1 h with rfl | h
    · exact ⟨Nat.le_refl n, by dsimp only; omega⟩
    · have := ih h
      omega

theorem text_numbered (n : Nat) (ls : List Text) : (numbered n ls).map (·.text) = ls.map Text.trim := by
  induction ls generalizing n with
  | nil => rfl
  | cons t ls ih => rw [numbered, List.map_cons, ih, List.map_cons]

theorem readLines_append (p : Progress) (a b : List SourceLine) :
    readLines p (a ++ b) = (readLines p a).bind (readLines · b) := by
  unfold readLines
  rw [List.foldlM_append]
  rfl

theorem readLines_cons (p : Progress) (l : SourceLine) (ls : List SourceLine) :
    readLines p (l :: ls) = (p.step l).bind (readLines · ls) := rfl

/-! ## Directives between blocks -/

theorem isComment_line (d : Directive) : Line.isComment d.line := by rw [Directive.line_eq]; rfl

theorem step_directive {d : Directive} (h : d.isWritable) (pre : List (Nat × Directive)) (bs : List Block) (n : Nat) :
    Progress.step ⟨pre, bs, .outside⟩ ⟨n, d.line⟩ = .ok ⟨pre ++ [(n, d)], bs, .outside⟩ := by
  have hne : d.line.isEmpty = false := by rw [Directive.line_eq]; rfl
  simp [Progress.step, Progress.readOutside, hne, isComment_line, Directive.directive?_line h]

/-- The preamble of directives on lines numbered from `n`. -/
def placed (n : Nat) : List Directive → List (Nat × Directive)
  | [] => []
  | d :: ds => (n, d) :: placed (n + 1) ds

theorem map_placed (n : Nat) (ds : List Directive) : (placed n ds).map (·.2) = ds := by
  induction ds generalizing n with
  | nil => rfl
  | cons d ds ih => rw [placed, List.map_cons, ih]

theorem readLines_directives {ds : List Directive} (h : ∀ d ∈ ds, d.isWritable) (pre : List (Nat × Directive))
    (bs : List Block) (n : Nat) :
    readLines ⟨pre, bs, .outside⟩ (numbered n (ds.map Directive.line)) = .ok ⟨pre ++ placed n ds, bs, .outside⟩ := by
  induction ds generalizing n pre with
  | nil => rw [placed, List.append_nil]; rfl
  | cons d ds ih =>
    have hd := h d (by simp)
    rw [List.map_cons, numbered, Directive.trim_line hd, readLines_cons, step_directive hd]
    have := ih (fun e he => h e (by simp [he])) (pre ++ [(n, d)]) (n + 1)
    rw [List.append_assoc] at this
    exact this

/-- The line is a comment that carries no data. -/
def isMereComment (l : Text) : Bool :=
  !(Text.trim l).isEmpty && Line.isComment (Text.trim l) && (Line.directive? (Text.trim l)).isNone

theorem step_mereComment {l : Text} (h : isMereComment l) (pre : List (Nat × Directive)) (bs : List Block) (n : Nat) :
    Progress.step ⟨pre, bs, .outside⟩ ⟨n, Text.trim l⟩ = .ok ⟨pre, bs, .outside⟩ := by
  simp only [isMereComment, Bool.and_eq_true, Bool.not_eq_true', Option.isNone_iff_eq_none] at h
  simp [Progress.step, Progress.readOutside, h.1.1, h.1.2, h.2]

theorem readLines_mereComments {ls : List Text} (h : ∀ l ∈ ls, isMereComment l) (pre : List (Nat × Directive))
    (bs : List Block) (n : Nat) :
    readLines ⟨pre, bs, .outside⟩ (numbered n ls) = .ok ⟨pre, bs, .outside⟩ := by
  induction ls generalizing n with
  | nil => rfl
  | cons l ls ih =>
    rw [numbered, readLines_cons, step_mereComment (h l (by simp))]
    exact ih (fun m hm => h m (by simp [hm])) (n + 1)

/-! ## Headers -/

theorem headerText_solid {k v : Text} (hk : Text.shaped Text.isWordStart Text.isWordChar k) :
    ∃ c r, Layout.BlockDraft.headerText (k, v) = c :: r ∧ Text.isWordStart c := by
  cases k with
  | nil => cases hk
  | cons c k =>
    simp only [Text.shaped, Bool.and_eq_true] at hk
    exact ⟨c, _, rfl, hk.1⟩

theorem trim_headerText {k v : Text} (hk : Text.shaped Text.isWordStart Text.isWordChar k) (hv : Text.endsSolid v) :
    Text.trim (Layout.BlockDraft.headerText (k, v)) = Layout.BlockDraft.headerText (k, v) := by
  obtain ⟨c, r, he, hc⟩ := headerText_solid (v := v) hk
  refine Text.trim_of_solid ?_ ?_
  · rw [he]; simp [Text.isBlank_of_isIdChar (Text.isIdChar_of_isWordStart hc)]
  · exact Text.endsSolid_append (Text.endsSolid_cons (Text.endsSolid_cons hv _) _) _

theorem headerLine?_headerText {k v : Text} (hk : Text.shaped Text.isWordStart Text.isWordChar k)
    (hs : Text.startsSolid v) (he : Text.endsSolid v) :
    headerLine? (Layout.BlockDraft.headerText (k, v)) = some (k, v) := by
  have hv : Text.trim (' ' :: v) = v :=
    (Text.trim_blank_append (b := [' ']) (by simp [Text.isBlank]) v).trans (Text.trim_of_solid hs he)
  unfold headerLine? Layout.BlockDraft.headerText
  rw [Text.name?_append hk (by simp; rfl)]
  simp only [hv]

theorem newline_not_mem_headerText {k v : Text} (hk : Text.shaped Text.isWordStart Text.isWordChar k)
    (hv : '\n' ∉ v) : '\n' ∉ Layout.BlockDraft.headerText (k, v) := by
  have h := Text.isIdChar_of_shaped (fun _ => Text.isIdChar_of_isWordStart) (fun _ => Text.isIdChar_of_isWordChar) hk
  have hk' := Text.not_mem_of_isIdChar h (d := '\n') rfl
  simp [Layout.BlockDraft.headerText, hk', hv]

/-- A written header is no other line of a header. -/
theorem readHeader_headerText {k v : Text} (hk : Text.shaped Text.isWordStart Text.isWordChar k) (p : Progress)
    (start : Nat) (title : Option (Text × Nat)) (headers : List (Text × Text)) (n : Nat) :
    p.readHeader start title headers ⟨n, Layout.BlockDraft.headerText (k, v)⟩ =
      p.addHeader start title headers ⟨n, Layout.BlockDraft.headerText (k, v)⟩ := by
  obtain ⟨c, r, he, hc⟩ := headerText_solid (v := v) hk
  have hp := Line.isProse_of_isWordStart hc
  unfold Progress.readHeader
  rw [he, if_neg, if_neg]
  · simp [Line.isComment_of_ne hp.1]
  · intro h; exact hp.2.1 (List.cons.inj h).1

theorem readLines_headers {hs : List (Text × Text)} (h : ∀ e ∈ hs, Layout.isHeader e) (pre : List (Nat × Directive))
    (bs : List Block) (start : Nat) (title : Option (Text × Nat)) (headers : List (Text × Text)) (n : Nat) :
    readLines ⟨pre, bs, .header start title headers⟩ (numbered n (hs.map Layout.BlockDraft.headerText)) =
      .ok ⟨pre, bs, .header start title (headers ++ hs)⟩ := by
  induction hs generalizing n headers with
  | nil => rw [List.append_nil]; rfl
  | cons e hs ih =>
    obtain ⟨k, v⟩ := e
    obtain ⟨hk, ht, hvs, hve, -⟩ := h (k, v) (by simp)
    have hstep : Progress.step ⟨pre, bs, .header start title headers⟩ ⟨n, Layout.BlockDraft.headerText (k, v)⟩ =
        .ok ⟨pre, bs, .header start title (headers ++ [(k, v)])⟩ := by
      simp only [Progress.step, readHeader_headerText hk, Progress.addHeader, headerLine?_headerText hk hvs hve]
      rw [if_neg ht]
    have := ih (fun e he => h e (by simp [he])) (headers ++ [(k, v)]) (n + 1)
    rw [List.append_assoc] at this
    rw [List.map_cons, numbered, trim_headerText hk hve, readLines_cons, hstep]
    exact this

/-! ## Bodies -/

theorem readLines_body {ls : List Text} (h : ∀ l ∈ ls, Layout.isBodyLine l) (pre : List (Nat × Directive))
    (bs : List Block) (b : Block) (n : Nat) :
    readLines ⟨pre, bs, .body b⟩ (numbered n ls) = .ok ⟨pre, bs, .body { b with body := b.body ++ numbered n ls }⟩ := by
  induction ls generalizing n b with
  | nil => rw [numbered, List.append_nil]; rfl
  | cons l ls ih =>
    obtain ⟨hne, hend, -⟩ := h l (by simp)
    have hstep : Progress.step ⟨pre, bs, .body b⟩ ⟨n, Text.trim l⟩ =
        .ok ⟨pre, bs, .body { b with body := b.body ++ [⟨n, Text.trim l⟩] }⟩ := by
      simp [Progress.step, Progress.readBody, hne, hend]
    have := ih (fun m hm => h m (by simp [hm])) { b with body := b.body ++ [⟨n, Text.trim l⟩] } (n + 1)
    rw [List.append_assoc] at this
    rw [numbered, readLines_cons, hstep]
    exact this

/-! ## Blocks -/

theorem newTitle_new {bs : List Block} {t : Text} (ht : Text.isNodeId t) (hnew : t ∉ bs.map Block.title) (n : Nat) :
    newTitle bs n t = .ok (t, n) := by
  have hf : bs.find? (·.title == t) = none := by
    rw [List.find?_eq_none]
    intro b hb he
    exact hnew (List.mem_map.2 ⟨b, hb, by simpa using he⟩)
  simp [newTitle, ht, hf]

theorem step_title {pre : List (Nat × Directive)} {bs : List Block} {t : Text} (ht : Text.isNodeId t)
    (hnew : t ∉ bs.map Block.title) (n : Nat) :
    Progress.step ⟨pre, bs, .outside⟩ ⟨n, Layout.BlockDraft.headerText ("title".toList, t)⟩ =
      .ok ⟨pre, bs, .header n (some (t, n)) []⟩ := by
  have hk : Text.shaped Text.isWordStart Text.isWordChar "title".toList := by decide
  obtain ⟨hs, he⟩ := Text.isNodeId_ends ht
  obtain ⟨c, r, htext, hc⟩ := headerText_solid (v := t) hk
  have hp := Line.isProse_of_isWordStart hc
  have hcomment : Line.isComment (Layout.BlockDraft.headerText ("title".toList, t)) = false := by
    rw [htext]; exact Line.isComment_of_ne hp.1 r
  have hempty : (Layout.BlockDraft.headerText ("title".toList, t)).isEmpty = false := by rw [htext]; rfl
  simp only [Progress.step, Progress.readOutside, hempty, hcomment, Bool.false_eq_true, if_false, Progress.addHeader,
    headerLine?_headerText hk hs he, if_true, newTitle_new ht hnew]
  rfl

theorem readLines_block {d : Layout.BlockDraft} (h : d.Writable) (pre : List (Nat × Directive)) {bs : List Block}
    (hnew : d.title ∉ bs.map Block.title) (n : Nat) :
    ∃ b : Block, b.content = d.content ∧
      readLines ⟨pre, bs, .outside⟩ (numbered n ([] :: d.lines)) = .ok ⟨pre, bs ++ [b], .outside⟩ := by
  have hk : Text.shaped Text.isWordStart Text.isWordChar "title".toList := by decide
  have hblank : Progress.step ⟨pre, bs, .outside⟩ ⟨n, Text.trim []⟩ = .ok ⟨pre, bs, .outside⟩ := rfl
  have hmark : ∀ m : Nat, Progress.step ⟨pre, bs, .header (n + 1) (some (d.title, n + 1)) d.headers⟩
      ⟨m, Text.trim bodyMark⟩ = .ok ⟨pre, bs, .body ⟨d.title, n + 1, d.headers, []⟩⟩ := fun m => rfl
  have hend : ∀ (b : Block) (m : Nat), readLines ⟨pre, bs, .body b⟩ (numbered m [endMark]) =
      .ok ⟨pre, bs ++ [b], .outside⟩ := fun b m => rfl
  refine ⟨⟨d.title, n + 1, d.headers,
    numbered (n + 1 + 1 + (d.headers.map Layout.BlockDraft.headerText).length + 1) d.body⟩, ?_, ?_⟩
  · simp [Block.content, Layout.BlockDraft.content, text_numbered]
  · unfold Layout.BlockDraft.lines
    rw [numbered, readLines_cons, hblank]
    show readLines _ (numbered _ _) = _
    rw [numbered, trim_headerText hk (Text.isNodeId_ends h.title).2, readLines_cons, step_title h.title hnew]
    show readLines _ (numbered _ _) = _
    rw [numbered_append, readLines_append, readLines_headers h.headers, List.nil_append]
    show readLines _ (numbered _ _) = _
    rw [numbered, readLines_cons, hmark]
    show readLines _ (numbered _ _) = _
    rw [numbered_append, readLines_append, readLines_body h.body]
    exact hend _ _

theorem readLines_blocks {ds : List Layout.BlockDraft} (h : ∀ d ∈ ds, d.Writable) (pre : List (Nat × Directive))
    {bs : List Block} (hnew : (bs.map Block.title ++ ds.map (·.title)).Nodup) (n : Nat) :
    ∃ bs' : List Block, bs'.map Block.content = ds.map Layout.BlockDraft.content ∧
      readLines ⟨pre, bs, .outside⟩ (numbered n (ds.flatMap fun d => [] :: d.lines)) =
        .ok ⟨pre, bs ++ bs', .outside⟩ := by
  -- a title has to differ from all those in front of it, so those already read stay in the statement
  induction ds generalizing bs n with
  | nil => exact ⟨[], rfl, by rw [List.append_nil]; rfl⟩
  | cons d ds ih =>
    have hd : d.title ∉ bs.map Block.title := by
      intro hm
      exact (List.nodup_append.1 hnew).2.2 _ hm _ (by simp) rfl
    obtain ⟨b, hb, hread⟩ := readLines_block (h d (by simp)) pre hd n
    have ht : b.title = d.title := congrArg Prod.fst hb
    have hnew' : ((bs ++ [b]).map Block.title ++ ds.map (·.title)).Nodup := by
      simpa [ht] using hnew
    obtain ⟨bs', hbs, hread'⟩ := ih (fun e he => h e (by simp [he])) hnew' (n + ([] :: d.lines).length)
    refine ⟨b :: bs', by rw [List.map_cons, hb, hbs, List.map_cons], ?_⟩
    rw [List.flatMap_cons, numbered_append, readLines_append, hread]
    show readLines _ (numbered _ _) = _
    rw [hread', List.append_assoc]
    rfl

/-- The outline of a written script: mere comments on top, then directives, then blocks. -/
theorem ofLines_written {cs : List Text} {ds : List Directive} {bs : List Layout.BlockDraft}
    (hcs : ∀ l ∈ cs, isMereComment l) (hds : ∀ d ∈ ds, d.isWritable) (hbs : ∀ b ∈ bs, b.Writable)
    (hd : (bs.map (·.title)).Nodup) :
    ∃ o, ofLines (cs ++ ds.map Directive.line ++ bs.flatMap fun b => [] :: b.lines) = .ok o ∧
      o.preamble.map (·.2) = ds ∧ o.blocks.map Block.content = bs.map Layout.BlockDraft.content := by
  have hnew : (([] : List Block).map Block.title ++ bs.map (·.title)).Nodup := hd
  obtain ⟨bs', hcontent, hread⟩ := readLines_blocks hbs (placed (1 + cs.length) ds) hnew
    (1 + (cs ++ ds.map Directive.line).length)
  refine ⟨⟨placed (1 + cs.length) ds, bs'⟩, ?_, map_placed _ _, hcontent⟩
  unfold ofLines Progress.start
  rw [numbered_append, readLines_append, numbered_append, readLines_append, readLines_mereComments hcs]
  show ((readLines _ (numbered _ _)).bind _).bind _ = _
  rw [readLines_directives hds, List.nil_append]
  show (readLines _ (numbered _ _)).bind _ = _
  rw [hread]
  rfl

/-- Every line of a block that is read back is a single line. -/
theorem newline_not_mem_lines {d : Layout.BlockDraft} (h : d.Writable) : ∀ l ∈ d.lines, '\n' ∉ l := by
  have hk : Text.shaped Text.isWordStart Text.isWordChar "title".toList := by decide
  have hmarks : '\n' ∉ bodyMark ∧ '\n' ∉ endMark := by decide
  intro l hl
  simp only [Layout.BlockDraft.lines, List.mem_cons, List.mem_append, List.mem_map, List.not_mem_nil, or_false] at hl
  rcases hl with rfl | ⟨⟨k, v⟩, he, rfl⟩ | rfl | hl | rfl
  · exact newline_not_mem_headerText hk (Text.newline_not_mem_of_isWord (Text.isWord_of_isNodeId h.title))
  · obtain ⟨hk, -, -, -, hv⟩ := h.headers (k, v) he
    exact newline_not_mem_headerText hk hv
  · exact hmarks.1
  · exact (h.body l hl).2.2
  · exact hmarks.2

/-! ## What a line adds -/

/-- The title that a line gives when it stands in a header, with the number of the line. -/
def title? (l : SourceLine) : Option (Nat × Text) :=
  match headerLine? l.text with
  | some (key, value) => if key = "title".toList then some (l.number, value) else none
  | none => none

/-- The titles of the blocks that were read and of the one that is being read, each with its line. -/
def Progress.marks (p : Progress) : List (Nat × Text) :=
  p.blocks.map (fun b => (b.titleLine, b.title)) ++ match p.place with
    | .outside => []
    | .header _ title _ => title.toList.map fun t => (t.2, t.1)
    | .body b => [(b.titleLine, b.title)]

/-- The titles without their lines. -/
def Progress.titles (p : Progress) : List Text := p.marks.map (·.2)

/-- The lines of the bodies that were read and of the one that is being read. -/
def Progress.lines (p : Progress) : List SourceLine :=
  p.blocks.flatMap Block.body ++ match p.place with
    | .body b => b.body
    | _ => []

/-- A line adds nothing, or itself to a body, or the title that it gives if that is well formed and new. -/
inductive Progress.Adds (p : Progress) (l : SourceLine) (q : Progress) : Prop
  | nothing (marks : q.marks = p.marks) (lines : q.lines = p.lines)
  | line (marks : q.marks = p.marks) (lines : q.lines = p.lines ++ [l])
  | title (t : Text) (given : title? l = some (l.number, t)) (isNodeId : Text.isNodeId t) (new : t ∉ p.titles)
    (marks : q.marks = p.marks ++ [(l.number, t)]) (lines : q.lines = p.lines)

theorem newTitle_eq_ok {bs : List Block} {n m : Nat} {t u : Text} (h : newTitle bs n t = .ok (u, m)) :
    u = t ∧ m = n ∧ Text.isNodeId t ∧ t ∉ bs.map Block.title := by
  unfold newTitle at h
  split at h
  · next ht =>
    split at h
    · cases h
    · next hf =>
      cases h
      refine ⟨rfl, rfl, ht, ?_⟩
      intro hm
      obtain ⟨b, hb, he⟩ := List.mem_map.1 hm
      exact List.find?_eq_none.1 hf b hb (by simpa using he)
  · cases h

theorem titles_outside (pre : List (Nat × Directive)) (bs : List Block) :
    Progress.titles ⟨pre, bs, .outside⟩ = bs.map Block.title := by
  simp [Progress.titles, Progress.marks, Function.comp_def]

theorem adds_addHeader {p q : Progress} {start : Nat} {title : Option (Text × Nat)} {headers : List (Text × Text)}
    {l : SourceLine} (h : p.addHeader start title headers l = .ok q) :
    Progress.Adds ⟨p.preamble, p.blocks, .header start title headers⟩ l q := by
  unfold Progress.addHeader at h
  split at h
  · cases h
  · next key value hline =>
    split at h
    · next hkey =>
      split at h
      · cases h
      · obtain ⟨⟨t, n⟩, ht, rfl⟩ := except_map_eq_ok h
        obtain ⟨rfl, rfl, hid, hnew⟩ := newTitle_eq_ok ht
        refine .title t (by simp [title?, hline, hkey]) hid ?_ (by simp [Progress.marks]) rfl
        rwa [← titles_outside p.preamble] at hnew
    · cases h
      exact .nothing rfl rfl

theorem adds_step {p q : Progress} {l : SourceLine} (h : p.step l = .ok q) : p.Adds l q := by
  obtain ⟨pre, bs, place⟩ := p
  cases place with
  | outside =>
    simp only [Progress.step, Progress.readOutside] at h
    split at h
    · cases h; exact .nothing rfl rfl
    · split at h
      · split at h
        · cases h; exact .nothing rfl rfl
        · cases h
        · cases h; exact .nothing rfl rfl
      · rcases adds_addHeader h with ⟨hm, hl⟩ | ⟨hm, hl⟩ | ⟨t, hgiven, hid, hnew, hm, hl⟩
        · exact .nothing hm hl
        · exact .line hm hl
        · exact .title t hgiven hid hnew hm hl
  | header start title headers =>
    simp only [Progress.step, Progress.readHeader] at h
    split at h
    · split at h
      · cases h; exact .nothing (by simp [Progress.marks]) (by simp [Progress.lines])
      · cases h
    · split at h
      · cases h; exact .nothing rfl rfl
      · exact adds_addHeader h
  | body b =>
    simp only [Progress.step, Progress.readBody] at h
    split at h
    · cases h; exact .nothing (by simp [Progress.marks]) (by simp [Progress.lines])
    · split at h
      · cases h; exact .nothing rfl rfl
      · cases h; exact .line rfl (by simp [Progress.lines])

/-! ## What an outline is like -/

/-- Titles are well formed and differ, lines are single lines. -/
structure Progress.Sound (p : Progress) : Prop where
  distinct : p.titles.Nodup
  isNodeId : ∀ t ∈ p.titles, Text.isNodeId t
  single : ∀ l ∈ p.lines, '\n' ∉ l.text

theorem sound_step {p q : Progress} {l : SourceLine} (hl : '\n' ∉ l.text) (hp : p.Sound) (h : p.step l = .ok q) :
    q.Sound := by
  rcases adds_step h with ⟨hmarks, hlines⟩ | ⟨hmarks, hlines⟩ | ⟨t, -, hid, hnew, hmarks, hlines⟩
  · have htitles : q.titles = p.titles := congrArg (List.map Prod.snd) hmarks
    exact ⟨htitles ▸ hp.distinct, htitles ▸ hp.isNodeId, hlines ▸ hp.single⟩
  · have htitles : q.titles = p.titles := congrArg (List.map Prod.snd) hmarks
    refine ⟨htitles ▸ hp.distinct, htitles ▸ hp.isNodeId, ?_⟩
    rw [hlines]
    exact List.forall_mem_append.2 ⟨hp.single, by simpa using hl⟩
  · have htitles : q.titles = p.titles ++ [t] := by
      unfold Progress.titles
      rw [hmarks, List.map_append]
      rfl
    refine ⟨?_, ?_, hlines ▸ hp.single⟩
    · rw [htitles]
      exact List.nodup_append.2 ⟨hp.distinct, by simp, fun a ha b hb => by
        rw [List.mem_singleton.1 hb]
        rintro rfl
        exact hnew ha⟩
    · rw [htitles]
      exact List.forall_mem_append.2 ⟨hp.isNodeId, by simpa using hid⟩

theorem newline_not_mem_numbered {n : Nat} {s : Text} : ∀ l ∈ numbered n (Text.lines s), '\n' ∉ l.text := by
  intro l hl
  have hm : l.text ∈ (numbered n (Text.lines s)).map (·.text) := List.mem_map_of_mem hl
  rw [text_numbered] at hm
  obtain ⟨t, ht, he⟩ := List.mem_map.1 hm
  rw [← he]
  exact fun hn => Text.newline_not_mem_of_mem_lines ht ((Text.trim_sublist t).subset hn)

/-- An outline is what was read when reading stands between blocks at the end. -/
theorem read_eq_ok {s : Text} {o : Outline} (h : read s = .ok o) :
    readLines .start (numbered 1 (Text.lines s)) = .ok ⟨o.preamble, o.blocks, .outside⟩ := by
  obtain ⟨⟨pre, bs, place⟩, hp, hfinish⟩ := except_bind_eq_ok h
  unfold Progress.finish at hfinish
  cases place with
  | outside => cases hfinish; exact hp
  | header start title headers => cases hfinish
  | body b => cases hfinish

/-- The blocks of every outline have well-formed titles that differ, and single lines. -/
theorem sound_read {s : Text} {o : Outline} (h : read s = .ok o) :
    (o.blocks.map Block.title).Nodup ∧ (∀ b ∈ o.blocks, Text.isNodeId b.title) ∧
      ∀ b ∈ o.blocks, ∀ l ∈ b.body, '\n' ∉ l.text := by
  have hp : Progress.Sound ⟨o.preamble, o.blocks, .outside⟩ := except_foldlM_invariant (I := Progress.Sound)
    (fun l hl _ _ hs hstep => sound_step (newline_not_mem_numbered l hl) hs hstep)
    ⟨by simp [Progress.titles, Progress.marks, Progress.start],
      by simp [Progress.titles, Progress.marks, Progress.start], by simp [Progress.lines, Progress.start]⟩ (read_eq_ok h)
  obtain ⟨hdistinct, hid, hsingle⟩ := hp
  rw [titles_outside] at hdistinct hid
  refine ⟨hdistinct, fun b hb => hid _ (List.mem_map_of_mem hb), fun b hb l hl => hsingle l ?_⟩
  exact List.mem_append_left _ (List.mem_flatMap.2 ⟨b, hb, hl⟩)

/-! ## Titles stand in the order of the text -/

theorem marks_step {p q : Progress} {l : SourceLine} (h : p.step l = .ok q) :
    ∃ ms, q.marks = p.marks ++ ms ∧ ms.Sublist (title? l).toList := by
  rcases adds_step h with ⟨hmarks, -⟩ | ⟨hmarks, -⟩ | ⟨t, hgiven, -, -, hmarks, -⟩
  · exact ⟨[], by rw [hmarks, List.append_nil], List.nil_sublist _⟩
  · exact ⟨[], by rw [hmarks, List.append_nil], List.nil_sublist _⟩
  · exact ⟨[(l.number, t)], hmarks, by rw [hgiven]; exact .refl _⟩

theorem marks_readLines {p q : Progress} {ls : List SourceLine} (h : readLines p ls = .ok q) :
    ∃ ms, q.marks = p.marks ++ ms ∧ ms.Sublist (ls.filterMap title?) := by
  induction ls generalizing p with
  | nil => cases h; exact ⟨[], by simp, by simp⟩
  | cons l ls ih =>
    rw [readLines_cons] at h
    obtain ⟨p', hstep, h⟩ := except_bind_eq_ok h
    obtain ⟨ms, hms, hsub⟩ := marks_step hstep
    obtain ⟨ms', hms', hsub'⟩ := ih h
    refine ⟨ms ++ ms', by rw [hms', hms, List.append_assoc], ?_⟩
    have hcons : (l :: ls).filterMap title? = (title? l).toList ++ ls.filterMap title? := by
      rw [List.filterMap_cons]
      cases title? l <;> rfl
    rw [hcons]
    exact hsub.append hsub'

/-- The blocks of an outline have their titles from lines of the text, in the order of the text. -/
theorem titles_sublist {s : Text} {o : Outline} (h : read s = .ok o) :
    (o.blocks.map fun b => (b.titleLine, b.title)).Sublist ((numbered 1 (Text.lines s)).filterMap title?) := by
  obtain ⟨ms, hms, hsub⟩ := marks_readLines (read_eq_ok h)
  have hmarks : Progress.marks ⟨o.preamble, o.blocks, .outside⟩ = o.blocks.map fun b => (b.titleLine, b.title) :=
    List.append_nil _
  rw [← hmarks, hms]
  exact hsub

end Outline
end DialogueScript
