import DialogueScript.Proofs.Script.Outline
/-!
# The grammar of outlines

The lines of a script are a row of lines outside of nodes and of nodes. A line outside of a node is blank, a comment
without data, or a directive that reads. A node is a header of `key: value` lines, one of which is its title, a line
`---`, lines other than `===`, and a line `===`. Its header begins with a `key: value` line; behind that there may be
blank lines and comments. The title is the id of a node, and no earlier node has it.

Lines that were read so far are such a row, behind it the lines of a header when reading stands in a header, and a
whole header, the line `---` and the lines of a body when it stands in a body. Every line that is read makes one of
these parts longer or puts them together, so that what was read stays of this form.

Results:
* `Taken.step`: what a line does to the part that was read.
* `run_row`: a row is read, and each of its nodes makes its block.
* `read_eq_ok_iff_row`: which texts have an outline, and what it holds.
-/
namespace DialogueScript

/-- The line may stand between the lines of a header: it is blank or a comment. -/
def SourceLine.isIdle (l : SourceLine) : Bool := l.text.isEmpty || Line.isComment l.text

namespace Outline

/-! ## Lines outside of nodes -/

/-- A line outside of nodes, and what it adds to the preamble. -/
inductive IsOutside (l : SourceLine) : List (Nat × Directive) → Prop
  | blank (text : l.text = []) : IsOutside l []
  | comment (text : Line.isComment l.text) (plain : Line.directive? l.text = none) : IsOutside l []
  | directive {d : Directive} (text : Line.isComment l.text) (reads : Line.directive? l.text = some (.ok d)) :
    IsOutside l [(l.number, d)]

/-! ## Nodes -/

/-- The header that a line gives when it is not the title, with its value. -/
def plainHeader? (l : SourceLine) : Option (Text × Text) :=
  match headerLine? l.text with
  | some (key, value) => if key = "title".toList then none else some (key, value)
  | none => none

/-- Lines that begin with a `key: value` line, and are such lines, blank lines and comments. They give titles, each
with its line, and other headers. -/
structure IsHeader (ls : List SourceLine) (titles : List (Nat × Text)) (headers : List (Text × Text)) : Prop where
  first : ∃ l r, ls = l :: r ∧ l.isIdle = false
  lines : ∀ l ∈ ls, l.isIdle ∨ (headerLine? l.text).isSome
  titles : ls.filterMap title? = titles
  headers : ls.filterMap plainHeader? = headers

/-- The lines of a node, but for the line that ends it. -/
structure Stanza where
  header : List SourceLine
  bodyMark : SourceLine
  body : List SourceLine

def Stanza.lines (s : Stanza) : List SourceLine := s.header ++ s.bodyMark :: s.body

/-- The lines are those of a node, and the block is what they hold. -/
structure Stanza.Holds (s : Stanza) (b : Block) : Prop where
  header : IsHeader s.header [(b.titleLine, b.title)] b.headers
  isNodeId : Text.isNodeId b.title
  bodyMark : s.bodyMark.text = Outline.bodyMark
  inside : ∀ l ∈ s.body, l.text ≠ endMark
  body : b.body = s.body.filter (!·.text.isEmpty)

/-- A row of lines outside of nodes and of nodes: the directives of the one, the blocks of the others. -/
inductive Row : List SourceLine → List (Nat × Directive) → List Block → Prop
  | nil : Row [] [] []
  | outside {ls : List SourceLine} {pre : List (Nat × Directive)} {bs : List Block} {l : SourceLine}
    {ds : List (Nat × Directive)} : Row ls pre bs → IsOutside l ds → Row (ls ++ [l]) (pre ++ ds) bs
  | node {ls : List SourceLine} {pre : List (Nat × Directive)} {bs : List Block} {s : Stanza} {b : Block}
    {l : SourceLine} : Row ls pre bs → s.Holds b → b.title ∉ bs.map Block.title → l.text = endMark →
    Row (ls ++ s.lines ++ [l]) pre (bs ++ [b])

variable {ls hs : List SourceLine} {l : SourceLine} {pre : List (Nat × Directive)} {bs : List Block} {b : Block}

theorem Row.nodup (h : Row ls pre bs) : (bs.map Block.title).Nodup := by
  induction h with
  | nil => exact .nil
  | outside _ _ ih => exact ih
  | node _ _ hnew _ ih =>
    rw [List.map_append, List.nodup_append]
    refine ⟨ih, by simp, fun t ht u hu => ?_⟩
    rw [List.mem_singleton.1 hu]
    rintro rfl
    exact hnew ht

/-! ## Lines of a header -/

/-- A blank line or a comment is not a `key: value` line. -/
theorem headerLine?_of_isIdle (h : l.isIdle) : headerLine? l.text = none := by
  unfold headerLine?
  cases hl : l.text with
  | nil => rfl
  | cons c r =>
    rw [SourceLine.isIdle, hl] at h
    cases hc : Text.isWordStart c with
    | false => simp [Text.name?, hc]
    | true =>
      rw [Line.isComment_of_ne (Line.isProse_of_isWordStart hc).1] at h
      cases h

/-- Neither is the line that ends a header. -/
theorem headerLine?_bodyMark : headerLine? bodyMark = none := by decide

theorem title?_of_isIdle (h : l.isIdle) : title? l = none := by
  rw [title?, headerLine?_of_isIdle h]

theorem plainHeader?_of_isIdle (h : l.isIdle) : plainHeader? l = none := by
  rw [plainHeader?, headerLine?_of_isIdle h]

/-- A `key: value` line gives a title or another header. -/
theorem exists_plainHeader?_of_title?_none (hl : (headerLine? l.text).isSome) (h : title? l = none) :
    ∃ header, plainHeader? l = some header := by
  unfold title? at h
  unfold plainHeader?
  cases hline : headerLine? l.text with
  | none => rw [hline] at hl; cases hl
  | some entry =>
    obtain ⟨key, value⟩ := entry
    rw [hline] at h
    by_cases hkey : key = "title".toList
    · simp [hkey] at h
    · exact ⟨(key, value), if_neg hkey⟩

theorem of_title?_eq_some {n : Nat} {t : Text} (h : title? l = some (n, t)) : n = l.number ∧ plainHeader? l = none := by
  unfold title? at h
  split at h
  · next hline =>
    split at h
    · next hkey =>
      cases h
      exact ⟨rfl, by rw [plainHeader?, hline]; exact if_pos hkey⟩
    · cases h
  · cases h

/-- The title of a header, with its line in front. -/
def marks (title : Option (Text × Nat)) : List (Nat × Text) := title.toList.map Prod.swap

/-- What a `key: value` line does: it is the first title, and new, or another header. -/
theorem addHeader_eq_ok_iff {p q : Progress} {start : Nat} {title : Option (Text × Nat)}
    {headers : List (Text × Text)} :
    p.addHeader start title headers l = .ok q ↔
      (∃ value, title = none ∧ title? l = some (l.number, value) ∧ plainHeader? l = none ∧ Text.isNodeId value ∧
        value ∉ p.blocks.map Block.title ∧ q = { p with place := .header start (some (value, l.number)) headers }) ∨
      ∃ header, title? l = none ∧ plainHeader? l = some header ∧
        q = { p with place := .header start title (headers ++ [header]) } := by
  unfold Progress.addHeader title? plainHeader?
  cases headerLine? l.text with
  | none => simp
  | some entry =>
    obtain ⟨key, value⟩ := entry
    dsimp only
    by_cases hkey : key = "title".toList
    · rw [if_pos hkey, if_pos hkey, if_pos hkey]
      cases title with
      | some t => simp
      | none =>
        constructor
        · intro h
          obtain ⟨⟨t, n⟩, ht, rfl⟩ := except_map_eq_ok h
          obtain ⟨rfl, rfl, hid, hnew⟩ := newTitle_eq_ok ht
          exact .inl ⟨t, rfl, rfl, rfl, hid, hnew, rfl⟩
        · rintro (⟨t, -, ht, -, hid, hnew, rfl⟩ | ⟨_, -, h, -⟩)
          · cases ht
            dsimp only
            rw [newTitle_new hid hnew]
            rfl
          · cases h
    · rw [if_neg hkey, if_neg hkey, if_neg hkey]
      constructor
      · intro h
        cases h
        exact .inr ⟨_, rfl, rfl, rfl⟩
      · rintro (⟨_, -, h, -⟩ | ⟨_, -, h, rfl⟩)
        · cases h
        · cases h
          rfl

theorem isSome_of_addHeader {p q : Progress} {start : Nat} {title : Option (Text × Nat)} {headers : List (Text × Text)}
    (h : p.addHeader start title headers l = .ok q) : (headerLine? l.text).isSome := by
  unfold Progress.addHeader at h
  split at h
  · cases h
  · next hline => rw [hline]; rfl

theorem filterMap_singleton {α β : Type} (f : α → Option β) (a : α) : [a].filterMap f = (f a).toList := by
  cases h : f a <;> simp [h]

theorem isHeader_singleton (hidle : l.isIdle = false) (hl : (headerLine? l.text).isSome) :
    IsHeader [l] (title? l).toList (plainHeader? l).toList where
  first := ⟨l, [], rfl, hidle⟩
  lines := by simpa using .inr hl
  titles := filterMap_singleton title? l
  headers := filterMap_singleton plainHeader? l

theorem IsHeader.concat {titles : List (Nat × Text)} {headers : List (Text × Text)} (h : IsHeader hs titles headers)
    (hl : l.isIdle ∨ (headerLine? l.text).isSome) :
    IsHeader (hs ++ [l]) (titles ++ (title? l).toList) (headers ++ (plainHeader? l).toList) where
  first := by
    obtain ⟨m, r, rfl, hidle⟩ := h.first
    exact ⟨m, r ++ [l], rfl, hidle⟩
  lines := List.forall_mem_append.2 ⟨h.lines, by simpa using hl⟩
  titles := by rw [List.filterMap_append, h.titles, filterMap_singleton]
  headers := by rw [List.filterMap_append, h.headers, filterMap_singleton]

/-! ## What was read so far -/

/-- The lines that were read, by the place where reading stands: a row, behind it the lines of a header whose title, if
there is one already, is a new id, or the lines of a node with a new title that is not ended yet. -/
inductive Taken : List SourceLine → Progress → Prop
  | outside {ls : List SourceLine} {pre : List (Nat × Directive)} {bs : List Block} : Row ls pre bs →
    Taken ls ⟨pre, bs, .outside⟩
  | header {ls hs : List SourceLine} {pre : List (Nat × Directive)} {bs : List Block} {start : Nat}
    {title : Option (Text × Nat)} {headers : List (Text × Text)} : Row ls pre bs → IsHeader hs (marks title) headers →
    (∀ t ∈ title, Text.isNodeId t.1 ∧ t.1 ∉ bs.map Block.title) →
    Taken (ls ++ hs) ⟨pre, bs, .header start title headers⟩
  | body {ls : List SourceLine} {pre : List (Nat × Directive)} {bs : List Block} {s : Stanza} {b : Block} :
    Row ls pre bs → s.Holds b → b.title ∉ bs.map Block.title → Taken (ls ++ s.lines) ⟨pre, bs, .body b⟩

/-- A `key: value` line that is read makes the header longer. -/
theorem taken_addHeader {p q : Progress} {start : Nat} {title : Option (Text × Nat)} {headers : List (Text × Text)}
    (hrow : Row ls p.preamble p.blocks)
    (hheader : IsHeader hs (marks title ++ (title? l).toList) (headers ++ (plainHeader? l).toList))
    (htitle : ∀ t ∈ title, Text.isNodeId t.1 ∧ t.1 ∉ p.blocks.map Block.title)
    (h : p.addHeader start title headers l = .ok q) : Taken (ls ++ hs) q := by
  obtain ⟨value, rfl, hgiven, hplain, hid, hnew, rfl⟩ | ⟨header, hgiven, hplain, rfl⟩ := addHeader_eq_ok_iff.1 h
  · rw [hgiven, hplain, Option.toList_none, List.append_nil] at hheader
    refine .header hrow hheader fun t ht => ?_
    obtain rfl := Option.some.inj ht
    exact ⟨hid, hnew⟩
  · rw [hgiven, hplain, Option.toList_none, List.append_nil] at hheader
    exact .header hrow hheader htitle

/-- What a line does to the part that was read. -/
theorem Taken.step {p q : Progress} (h : Taken ls p) (hstep : p.step l = .ok q) : Taken (ls ++ [l]) q := by
  cases h with
  | @outside ls pre bs hrow =>
    simp only [Progress.step, Progress.readOutside] at hstep
    split at hstep
    · next hempty =>
      cases hstep
      exact .outside (by simpa using hrow.outside (.blank (List.isEmpty_iff.1 hempty)))
    · next hempty =>
      split at hstep
      · next hcomment =>
        split at hstep
        · next d hd =>
          cases hstep
          exact .outside (hrow.outside (.directive hcomment hd))
        · cases hstep
        · next hd =>
          cases hstep
          exact .outside (by simpa using hrow.outside (.comment hcomment hd))
      · next hcomment =>
        have hidle : l.isIdle = false := by simp [SourceLine.isIdle, hempty, hcomment]
        have hheader : IsHeader [l] (marks none ++ (title? l).toList) ([] ++ (plainHeader? l).toList) :=
          isHeader_singleton hidle (isSome_of_addHeader hstep)
        exact taken_addHeader (p := ⟨pre, bs, .outside⟩) hrow hheader (fun t ht => by cases ht) hstep
  | @header ls hs pre bs start title headers hrow hheader htitle =>
    simp only [Progress.step, Progress.readHeader] at hstep
    split at hstep
    · next hmark =>
      split at hstep
      · next t n =>
        cases hstep
        obtain ⟨hid, hnew⟩ := htitle (t, n) rfl
        rw [List.append_assoc]
        exact .body (s := ⟨hs, l, []⟩) (b := ⟨t, n, headers, []⟩) hrow ⟨hheader, hid, hmark, by simp, rfl⟩ hnew
      · cases hstep
    · rw [List.append_assoc]
      split at hstep
      · next hidle =>
        cases hstep
        have hconcat := hheader.concat (l := l) (.inl hidle)
        rw [title?_of_isIdle hidle, plainHeader?_of_isIdle hidle, Option.toList_none, Option.toList_none,
          List.append_nil, List.append_nil] at hconcat
        exact .header hrow hconcat htitle
      · exact taken_addHeader (p := ⟨pre, bs, .header start title headers⟩) hrow
          (hheader.concat (.inr (isSome_of_addHeader hstep))) htitle hstep
  | @body ls pre bs s b hrow hholds hnew =>
    simp only [Progress.step, Progress.readBody] at hstep
    split at hstep
    · next hend =>
      cases hstep
      exact .outside (hrow.node hholds hnew hend)
    · next hend =>
      have hinside : ∀ m ∈ s.body ++ [l], m.text ≠ endMark :=
        List.forall_mem_append.2 ⟨hholds.inside, by simpa using hend⟩
      have hlines : ls ++ s.lines ++ [l] = ls ++ Stanza.lines { s with body := s.body ++ [l] } := by
        simp [Stanza.lines]
      rw [hlines]
      split at hstep
      · next hempty =>
        cases hstep
        exact .body hrow ⟨hholds.header, hholds.isNodeId, hholds.bodyMark, hinside, by simp [hholds.body, hempty]⟩ hnew
      · next hempty =>
        cases hstep
        refine .body hrow ⟨hholds.header, hholds.isNodeId, hholds.bodyMark, hinside, ?_⟩ hnew
        simp [hholds.body, hempty]

theorem taken_readLines {p : Progress} (h : readLines .start ls = .ok p) : Taken ls p :=
  except_foldlM_history (fun _ _ _ _ _ ht hstep => ht.step hstep) (.outside .nil) h

theorem Taken.row (h : Taken ls ⟨pre, bs, .outside⟩) : Row ls pre bs := by
  cases h with
  | outside hrow => exact hrow

/-! ## What is read -/

theorem step_outside {ds : List (Nat × Directive)} (h : IsOutside l ds) :
    Progress.step ⟨pre, bs, .outside⟩ l = .ok ⟨pre ++ ds, bs, .outside⟩ := by
  have hne : Line.isComment l.text → l.text.isEmpty = false := by
    intro hcomment
    cases hl : l.text with
    | nil => rw [hl] at hcomment; cases hcomment
    | cons c r => rfl
  cases h with
  | blank htext => simp [Progress.step, Progress.readOutside, htext]
  | comment htext hplain => simp [Progress.step, Progress.readOutside, hne htext, htext, hplain]
  | directive htext hreads => simp [Progress.step, Progress.readOutside, hne htext, htext, hreads]

/-- The first line of a header is read between nodes as it is read in a header. -/
theorem step_first (hidle : l.isIdle = false) (hmark : l.text ≠ bodyMark) :
    Progress.step ⟨pre, bs, .outside⟩ l = Progress.step ⟨pre, bs, .header l.number none []⟩ l := by
  obtain ⟨hempty, hcomment⟩ := Bool.or_eq_false_iff.1 hidle
  simp only [Progress.step, Progress.readOutside, Progress.readHeader, hempty, hcomment, if_neg hmark,
    Bool.false_eq_true, if_false, Bool.or_self]
  rfl

theorem ne_bodyMark_of_isSome (h : (headerLine? l.text).isSome) : l.text ≠ bodyMark := by
  intro he
  rw [he, headerLine?_bodyMark] at h
  cases h

theorem ne_bodyMark_of_isIdle (h : l.isIdle) : l.text ≠ bodyMark := by
  intro he
  rw [SourceLine.isIdle, he] at h
  revert h
  decide

/-- The lines of a header are read: they may give one title at most, counting the one that was given before. -/
theorem readLines_header {start : Nat} {title : Option (Text × Nat)} {headers : List (Text × Text)} {n : Nat} {t : Text}
    (hlines : ∀ l ∈ hs, l.isIdle ∨ (headerLine? l.text).isSome)
    (htitles : marks title ++ hs.filterMap title? = [(n, t)]) (hid : Text.isNodeId t) (hnew : t ∉ bs.map Block.title) :
    readLines ⟨pre, bs, .header start title headers⟩ hs =
      .ok ⟨pre, bs, .header start (some (t, n)) (headers ++ hs.filterMap plainHeader?)⟩ := by
  induction hs generalizing title headers with
  | nil =>
    cases title with
    | none => cases htitles
    | some u =>
      cases htitles
      rw [List.filterMap_nil, List.append_nil]
      rfl
  | cons l hs ih =>
    obtain ⟨hl, hlines'⟩ := List.forall_mem_cons.1 hlines
    rw [readLines_cons]
    cases hidle : l.isIdle with
    | true =>
      rw [List.filterMap_cons_none (title?_of_isIdle hidle)] at htitles
      rw [List.filterMap_cons_none (plainHeader?_of_isIdle hidle)]
      have hstep :
          Progress.step ⟨pre, bs, .header start title headers⟩ l = .ok ⟨pre, bs, .header start title headers⟩ := by
        simp only [Progress.step, Progress.readHeader, if_neg (ne_bodyMark_of_isIdle hidle)]
        exact if_pos hidle
      rw [hstep]
      exact ih hlines' htitles
    | false =>
      have hsome := hl.resolve_left (by simp [hidle])
      have hadd : Progress.step ⟨pre, bs, .header start title headers⟩ l =
          Progress.addHeader ⟨pre, bs, .header start title headers⟩ start title headers l := by
        simp only [Progress.step, Progress.readHeader, if_neg (ne_bodyMark_of_isSome hsome)]
        exact if_neg (by rw [← SourceLine.isIdle, hidle]; simp)
      rw [hadd]
      cases hgiven : title? l with
      | none =>
        rw [List.filterMap_cons_none hgiven] at htitles
        obtain ⟨header, hplain⟩ := exists_plainHeader?_of_title?_none hsome hgiven
        rw [addHeader_eq_ok_iff.2 (.inr ⟨header, hgiven, hplain, rfl⟩), List.filterMap_cons_some hplain]
        refine (ih hlines' htitles).trans ?_
        rw [List.append_assoc]
        rfl
      | some mark =>
        rw [List.filterMap_cons_some hgiven] at htitles
        -- the title that the line gives is the only one
        cases title with
        | some u => simp [marks] at htitles
        | none =>
          obtain ⟨rfl, hrest⟩ : mark = (n, t) ∧ hs.filterMap title? = [] := by simpa [marks] using htitles
          obtain ⟨hn, hplain⟩ := of_title?_eq_some hgiven
          subst hn
          rw [addHeader_eq_ok_iff.2 (.inl ⟨t, rfl, hgiven, hplain, hid, hnew, rfl⟩), List.filterMap_cons_none hplain]
          exact ih hlines' (by rw [hrest]; rfl)

/-- The lines of a body are read, those that are blank without a trace. -/
theorem readLines_inside {body : List SourceLine} (h : ∀ l ∈ body, l.text ≠ endMark) :
    readLines ⟨pre, bs, .body b⟩ body =
      .ok ⟨pre, bs, .body { b with body := b.body ++ body.filter (!·.text.isEmpty) }⟩ := by
  induction body generalizing b with
  | nil =>
    rw [List.filter_nil, List.append_nil]
    rfl
  | cons l body ih =>
    obtain ⟨hend, hbody⟩ := List.forall_mem_cons.1 h
    rw [readLines_cons]
    cases hempty : l.text.isEmpty with
    | true =>
      have hstep : Progress.step ⟨pre, bs, .body b⟩ l = .ok ⟨pre, bs, .body b⟩ := by
        simp [Progress.step, Progress.readBody, hend, hempty]
      rw [hstep, List.filter_cons_of_neg (by simp [hempty])]
      exact ih hbody
    | false =>
      have hstep : Progress.step ⟨pre, bs, .body b⟩ l = .ok ⟨pre, bs, .body { b with body := b.body ++ [l] }⟩ := by
        simp [Progress.step, Progress.readBody, hend, hempty]
      rw [hstep, List.filter_cons_of_pos (by simp [hempty])]
      refine (ih hbody).trans ?_
      rw [List.append_assoc]
      rfl

/-- A node is read, and makes its block. -/
theorem readLines_stanza {s : Stanza} (h : s.Holds b) (hnew : b.title ∉ bs.map Block.title) (hend : l.text = endMark) :
    readLines ⟨pre, bs, .outside⟩ (s.lines ++ [l]) = .ok ⟨pre, bs ++ [b], .outside⟩ := by
  obtain ⟨first, rest, hfirst, hidle⟩ := h.header.first
  have hsome : (headerLine? first.text).isSome :=
    (h.header.lines first (by simp [hfirst])).resolve_left (by simp [hidle])
  have hheader : readLines ⟨pre, bs, .outside⟩ s.header =
      .ok ⟨pre, bs, .header first.number (some (b.title, b.titleLine)) b.headers⟩ := by
    have hread : readLines ⟨pre, bs, .header first.number none []⟩ s.header =
        .ok ⟨pre, bs, .header first.number (some (b.title, b.titleLine)) ([] ++ s.header.filterMap plainHeader?)⟩ :=
      readLines_header h.header.lines h.header.titles h.isNodeId hnew
    rw [h.header.headers, List.nil_append] at hread
    rw [← hread, hfirst, readLines_cons, readLines_cons, step_first hidle (ne_bodyMark_of_isSome hsome)]
  have hmark : ∀ start, Progress.step ⟨pre, bs, .header start (some (b.title, b.titleLine)) b.headers⟩ s.bodyMark =
      .ok ⟨pre, bs, .body ⟨b.title, b.titleLine, b.headers, []⟩⟩ := by
    intro start
    simp only [Progress.step, Progress.readHeader, if_pos h.bodyMark]
  have hlast : readLines ⟨pre, bs, .body b⟩ [l] = .ok ⟨pre, bs ++ [b], .outside⟩ := by
    rw [readLines_cons]
    simp only [Progress.step, Progress.readBody, if_pos hend]
    rfl
  have hbody : readLines ⟨pre, bs, .body ⟨b.title, b.titleLine, b.headers, []⟩⟩ s.body = .ok ⟨pre, bs, .body b⟩ := by
    rw [readLines_inside h.inside, List.nil_append, ← h.body]
  rw [readLines_append, Stanza.lines, readLines_append, hheader]
  show ((readLines _ (s.bodyMark :: s.body)).bind _) = _
  rw [readLines_cons, hmark]
  show ((readLines _ s.body).bind _) = _
  rw [hbody]
  exact hlast

/-- A row is read, and each of its nodes makes its block. -/
theorem run_row (h : Row ls pre bs) : readLines .start ls = .ok ⟨pre, bs, .outside⟩ := by
  induction h with
  | nil => rfl
  | @outside ls pre bs l ds _ hl ih =>
    rw [readLines_append, ih]
    show readLines _ [l] = _
    rw [readLines_cons, step_outside hl]
    rfl
  | node _ hholds hnew hend ih =>
    rw [List.append_assoc, readLines_append, ih]
    exact readLines_stanza hholds hnew hend

/-! ## What an outline holds -/

theorem numbered_eq_mapIdx (n : Nat) (ts : List Text) :
    numbered n ts = ts.mapIdx fun i t => ⟨i + n, Text.trim t⟩ := by
  induction ts generalizing n with
  | nil => rfl
  | cons t ts ih =>
    rw [numbered, ih, List.mapIdx_cons, Nat.zero_add]
    congr 2
    funext i u
    rw [Nat.add_assoc, Nat.add_comm 1 n]

/-- Which texts have an outline, and what it holds. The lines of the text, trimmed and numbered from one, have to be a
row; the outline has the directives of the lines outside of nodes, each with the number of its line, and a block for
each node, in order. The titles of the blocks differ. -/
theorem read_eq_ok_iff_row (s : Text) (o : Outline) :
    (read s = .ok o ↔ Row ((Text.lines s).mapIdx fun i t => ⟨i + 1, Text.trim t⟩) o.preamble o.blocks) ∧
    (read s = .ok o → (o.blocks.map Block.title).Nodup) := by
  have hread : read s = .ok o ↔ Row (numbered 1 (Text.lines s)) o.preamble o.blocks := by
    constructor
    · intro h
      exact (taken_readLines (read_eq_ok h)).row
    · intro h
      unfold read ofLines
      rw [run_row h]
      rfl
  rw [← numbered_eq_mapIdx]
  exact ⟨hread, fun h => (hread.1 h).nodup⟩

/-- A script with a directive and a comment outside of its node, a blank line and a comment in the header, and a blank
line and the line `---` in the body. -/
def marginScript : Text := "// Notes\n//@end node=a\ntitle: a\n\n// Aside\ntags: x\n ---\n\n---\n  Bob: Hi\n===\n".toList

def marginOutline : Outline where
  preamble := [(2, ⟨"end".toList, [("node".toList, ['a'])]⟩)]
  blocks := [⟨['a'], 3, [("tags".toList, ['x'])], [⟨9, "---".toList⟩, ⟨10, "Bob: Hi".toList⟩]⟩]

theorem read_eq_ok_iff_row_margins :
    Outline.read marginScript = .ok marginOutline ∧
    Row ((Text.lines marginScript).mapIdx fun i t => ⟨i + 1, Text.trim t⟩) marginOutline.preamble
      marginOutline.blocks ∧
    (marginOutline.blocks.map Block.title).Nodup := by
  have hread : Outline.read marginScript = .ok marginOutline := by with_unfolding_all rfl
  obtain ⟨hrow, hnodup⟩ := read_eq_ok_iff_row marginScript marginOutline
  exact ⟨hread, hrow.1 hread, hnodup hread⟩

end Outline
end DialogueScript
