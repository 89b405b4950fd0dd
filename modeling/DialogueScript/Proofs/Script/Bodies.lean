import DialogueScript.Proofs.Script.Renumber
/-!
# Bodies of blocks

Reading an outline asks of the blocks that were read for nothing but their titles, and all that it does to the one that
is being read is to put lines behind its body. So it makes no difference whether the bodies of blocks are changed
before a line is read or afterwards, as long as the change leaves that line where it is put.

Results:
* `IsBodyChange`: changes of which reading takes no notice.
* `Progress.step_mapBlocks`, `readLines_mapBlocks`: reading lines commutes with such a change.
* `Script.outcome_map`: what is made of an outline depends on the nodes that its bodies are read as.
* `Progress.steps_of_step`: what a line does that is read.
* `Progress.mem_preamble_of_step`, `Progress.mem_body_of_step`: nothing is taken back, of a preamble or of a body.
-/
namespace DialogueScript

namespace Outline

/-! ## Changes -/

/-- The place with another block for the one that is being read. -/
def Place.mapBlock (f : Block → Block) : Place → Place
  | body b => .body (f b)
  | p => p

/-- What was read, with other blocks. -/
def Progress.mapBlocks (f : Block → Block) (p : Progress) : Progress :=
  { p with blocks := p.blocks.map f, place := p.place.mapBlock f }

/-- The change keeps the titles of blocks and blocks without a body. -/
structure IsBodyChange (f : Block → Block) : Prop where
  title : ∀ b, (f b).title = b.title
  titleLine : ∀ b, (f b).titleLine = b.titleLine
  empty : ∀ b, b.body = [] → f b = b

/-- The change leaves the line where it is put. -/
def LeavesLine (f : Block → Block) (l : SourceLine) : Prop :=
  ∀ b, f { b with body := b.body ++ [l] } = { f b with body := (f b).body ++ [l] }

variable {f : Block → Block} (hf : IsBodyChange f)
include hf

theorem newTitle_map (bs : List Block) (n : Nat) (title : Text) : newTitle (bs.map f) n title = newTitle bs n title := by
  have htitles : (fun b : Block => b.title == title) ∘ f = fun b => b.title == title :=
    funext fun b => congrArg (· == title) (hf.title b)
  unfold newTitle
  rw [List.find?_map, htitles]
  cases bs.find? (·.title == title) with
  | none => rfl
  | some b => simp only [Option.map_some, hf.titleLine]

namespace Progress

theorem addHeader_mapBlocks (p : Progress) (start : Nat) (title : Option (Text × Nat)) (headers : List (Text × Text))
    (l : SourceLine) : (p.mapBlocks f).addHeader start title headers l =
      relabel id (mapBlocks f) (p.addHeader start title headers l) := by
  unfold addHeader
  rw [show (p.mapBlocks f).blocks = p.blocks.map f from rfl]
  simp only [newTitle_map hf]
  split
  · rfl
  · next key value _ =>
    split
    · cases title with
      | some t => rfl
      | none => cases newTitle p.blocks l.number value <;> rfl
    · rfl

theorem readOutside_mapBlocks (p : Progress) (l : SourceLine) :
    (p.mapBlocks f).readOutside l = relabel id (mapBlocks f) (p.readOutside l) := by
  unfold readOutside
  rw [addHeader_mapBlocks hf]
  split
  · rfl
  · split
    · split <;> rfl
    · rfl

theorem readHeader_mapBlocks (p : Progress) (start : Nat) (title : Option (Text × Nat)) (headers : List (Text × Text))
    (l : SourceLine) : (p.mapBlocks f).readHeader start title headers l =
      relabel id (mapBlocks f) (p.readHeader start title headers l) := by
  unfold readHeader
  rw [addHeader_mapBlocks hf]
  split
  · cases title with
    | none => rfl
    | some t => simp [relabel, mapBlocks, Place.mapBlock, hf.empty]
  · split <;> rfl

/-- It makes no difference whether blocks are changed before a line is read or afterwards. -/
theorem step_mapBlocks (p : Progress) {l : SourceLine} (hl : LeavesLine f l) :
    (p.mapBlocks f).step l = relabel id (mapBlocks f) (p.step l) := by
  obtain ⟨pre, bs, place⟩ := p
  cases place with
  | outside => exact readOutside_mapBlocks hf ⟨pre, bs, .outside⟩ l
  | header start title headers =>
    exact readHeader_mapBlocks hf ⟨pre, bs, .header start title headers⟩ start title headers l
  | body b =>
    refine congrArg Except.ok ?_
    unfold readBody
    split
    · simp [mapBlocks, Place.mapBlock]
    · split
      · rfl
      · simp only [mapBlocks, Place.mapBlock, hl b]

end Progress

theorem readLines_mapBlocks (p : Progress) {ls : List SourceLine} (hls : ∀ l ∈ ls, LeavesLine f l) :
    readLines (p.mapBlocks f) ls = relabel id (Progress.mapBlocks f) (readLines p ls) := by
  induction ls generalizing p with
  | nil => rfl
  | cons l ls ih =>
    obtain ⟨hl, hls⟩ := List.forall_mem_cons.1 hls
    rw [readLines_cons, readLines_cons, Progress.step_mapBlocks hf p hl]
    exact relabel_bind fun q => ih q hls

omit hf

/-! ## What a line does -/

namespace Progress

theorem eq_of_addHeader {p q : Progress} {start : Nat} {title : Option (Text × Nat)} {headers : List (Text × Text)}
    {l : SourceLine} (h : p.addHeader start title headers l = .ok q) :
    ∃ title' headers', q = { p with place := .header start title' headers' } := by
  unfold addHeader at h
  split at h
  · cases h
  · split at h
    · split at h
      · cases h
      · obtain ⟨t, -, rfl⟩ := except_map_eq_ok h
        exact ⟨_, _, rfl⟩
    · cases h
      exact ⟨_, _, rfl⟩

/-- A line is passed over, or it is a directive between blocks, belongs to a header, ends a header, belongs to a body
or ends a body. -/
inductive Steps (p : Progress) (l : SourceLine) : Progress → Prop
  | idle : Steps p l p
  | directive {d : Directive} (place : p.place = .outside) (reads : Line.directive? l.text = some (.ok d)) :
    Steps p l { p with preamble := p.preamble ++ [(l.number, d)] }
  | header {start : Nat} {title : Option (Text × Nat)} {headers : List (Text × Text)} (place : ∀ b, p.place ≠ .body b) :
    Steps p l { p with place := .header start title headers }
  | begins {start n : Nat} {t : Text} {headers : List (Text × Text)} (text : l.text = bodyMark)
    (place : p.place = .header start (some (t, n)) headers) : Steps p l { p with place := .body ⟨t, n, headers, []⟩ }
  | line {b : Block} (place : p.place = .body b) : Steps p l { p with place := .body { b with body := b.body ++ [l] } }
  | ends {b : Block} (text : l.text = endMark) (place : p.place = .body b) :
    Steps p l { p with blocks := p.blocks ++ [b], place := .outside }

theorem steps_of_step {p q : Progress} {l : SourceLine} (h : p.step l = .ok q) : p.Steps l q := by
  obtain ⟨pre, bs, place⟩ := p
  cases place with
  | outside =>
    simp only [step, readOutside] at h
    split at h
    · cases h; exact .idle
    · split at h
      · split at h
        · next d hd => cases h; exact .directive rfl hd
        · cases h
        · cases h; exact .idle
      · obtain ⟨title, headers, rfl⟩ := eq_of_addHeader h
        exact .header (by simp)
  | header start title headers =>
    simp only [step, readHeader] at h
    split at h
    · next hmark =>
      split at h
      · cases h; exact .begins hmark rfl
      · cases h
    · split at h
      · cases h; exact .idle
      · obtain ⟨title', headers', rfl⟩ := eq_of_addHeader h
        exact .header (by simp)
  | body b =>
    simp only [step, readBody] at h
    split at h
    · next hend => cases h; exact .ends hend rfl
    · split at h
      · cases h; exact .idle
      · cases h; exact .line rfl

/-- No directive that was read is taken back. -/
theorem mem_preamble_of_step {p q : Progress} {l : SourceLine} {e : Nat × Directive} (he : e ∈ p.preamble)
    (h : p.step l = .ok q) : e ∈ q.preamble := by
  cases steps_of_step h with
  | directive => exact List.mem_append_left _ he
  | idle | header | begins | line | ends => exact he

/-! ## Bodies that grow -/

/-- The blocks that were read and the one whose body is being read. -/
def opened (p : Progress) : List Block :=
  p.blocks ++ match p.place with
    | .body b => [b]
    | _ => []

theorem lines_eq_flatMap_opened (p : Progress) : p.lines = p.opened.flatMap Block.body := by
  obtain ⟨pre, bs, place⟩ := p
  cases place <;> simp [lines, opened]

theorem opened_of_body {p : Progress} {b : Block} (h : p.place = .body b) : p.opened = p.blocks ++ [b] := by
  rw [opened, h]

theorem opened_of_not_body {p : Progress} (h : ∀ b, p.place ≠ .body b) : p.opened = p.blocks := by
  unfold opened
  split
  · next b hb => exact absurd hb (h b)
  · exact List.append_nil _

/-- A line that is in the body of a block stays there. -/
theorem mem_body_of_step {p q : Progress} {l m : SourceLine} {title : Text}
    (hm : ∃ b ∈ p.opened, b.title = title ∧ m ∈ b.body) (h : p.step l = .ok q) :
    ∃ b ∈ q.opened, b.title = title ∧ m ∈ b.body := by
  obtain ⟨b, hb, htitle, hm⟩ := hm
  cases steps_of_step h with
  | idle | directive => exact ⟨b, hb, htitle, hm⟩
  | header hplace =>
    rw [opened_of_not_body hplace] at hb
    exact ⟨b, List.mem_append_left _ hb, htitle, hm⟩
  | begins _ hplace =>
    rw [opened_of_not_body (by simp [hplace])] at hb
    exact ⟨b, List.mem_append_left _ hb, htitle, hm⟩
  | ends _ hplace =>
    rw [opened_of_body hplace] at hb
    exact ⟨b, List.mem_append_left _ hb, htitle, hm⟩
  | @line c hplace =>
    rw [opened_of_body hplace] at hb
    rcases List.mem_append.1 hb with hb | hb
    · exact ⟨b, List.mem_append_left _ hb, htitle, hm⟩
    · obtain rfl := List.mem_singleton.1 hb
      exact ⟨_, List.mem_append_right _ (List.mem_singleton_self _), htitle, List.mem_append_left _ hm⟩

end Progress
end Outline

/-! ## What is made of outlines -/

namespace Script

variable {f : Block → Block} {bs : List Block} (hf : Outline.IsBodyChange f)
include hf

theorem readBlocks_map {strict : Bool} (hnode : ∀ b ∈ bs, (f b).node strict = b.node strict) :
    readBlocks strict (bs.map f) = readBlocks strict bs := by
  induction bs with
  | nil => rfl
  | cons b bs ih =>
    obtain ⟨hb, hbs⟩ := List.forall_mem_cons.1 hnode
    rw [List.map_cons, readBlocks, readBlocks, hb, hf.title, ih hbs]

theorem titleLine_map (node : Text) : titleLine (bs.map f) node = titleLine bs node := by
  have htitles : (fun b : Block => b.title == node) ∘ f = fun b => b.title == node :=
    funext fun b => congrArg (· == node) (hf.title b)
  have hlines : (fun b : Block => b.titleLine) ∘ f = fun b => b.titleLine := funext hf.titleLine
  unfold titleLine
  rw [List.find?_map, htitles, Option.map_map, hlines]

theorem refuseDangling_map (report : Check.Report) : refuseDangling (bs.map f) report = refuseDangling bs report := by
  unfold refuseDangling
  simp only [titleLine_map hf]

/-- Reading makes the same of an outline whose blocks are read as the same nodes. -/
theorem outcome_map {settings : Settings} {o : Outline}
    (hnode : ∀ b ∈ o.blocks, (f b).node settings.strictConditions = b.node settings.strictConditions) :
    outcome settings { o with blocks := o.blocks.map f } = outcome settings o := by
  have hgraph : readGraph settings.strictConditions { o with blocks := o.blocks.map f } =
      readGraph settings.strictConditions o := by
    unfold readGraph
    simp only [readBlocks_map hf hnode]
  unfold outcome
  rw [hgraph]
  simp only [refuseDangling_map hf]

end Script
end DialogueScript
