import DialogueScript.Proofs.Node.Directives
import DialogueScript.Proofs.Script.DeadLines
import DialogueScript.Proofs.Script.Ends
import DialogueScript.Proofs.Script.Flags
import DialogueScript.Proofs.Script.Spacing
/-!
# What becomes of directives

A directive may stand on any line of a script, and where it stands decides what becomes of it. Between blocks it is
well formed, and it describes the graph, marks an end, or notice is given that it was ignored. In a branching, a
storylet or a pool it is well formed and says a part of the node. But in the header of a block, in a speech and in a menu
it is lost, whatever it says and even if it is malformed: the script is read as if there were nothing on its line, and
without a notice.

Results:
* `Outline.Split`: a text cut at one of its lines.
* `Outline.Split.read_header`, `Outline.Split.read_body`: the outline of the text with nothing on that line.
* `Preamble.mem_notices_of_foldlM`, `heeds_of_mem_preamble`: what becomes of directives between blocks.
* `fate_of_directive`: what becomes of each directive of a script that is read.
-/
namespace DialogueScript

/-! ## A line with nothing on it -/

namespace Text

/-- The text with nothing on the line behind the first `i` lines. -/
def blankLine (i : Nat) (s : Text) : Text := ((lines s).set i []).flatMap (· ++ ['\n'])

theorem lines_blankLine (i : Nat) (s : Text) : lines (blankLine i s) = (lines s).set i [] := by
  refine lines_written fun l hl => ?_
  rcases List.mem_or_eq_of_mem_set hl with hl | rfl
  · exact newline_not_mem_of_mem_lines hl
  · exact List.not_mem_nil

end Text

namespace Outline

/-- Where reading stands when it comes to the line behind the first `i` lines. -/
def placeAt? (s : Text) (i : Nat) : Option Place :=
  (readLines .start (numbered 1 ((Text.lines s).take i))).toOption.map (·.place)

/-- The block without a line, if it is the one with a title. -/
def withoutIn (title : Text) (l : SourceLine) (b : Block) : Block := if b.title = title then b.without l else b

theorem isBodyChange_withoutIn (title : Text) (l : SourceLine) : IsBodyChange (withoutIn title l) where
  title b := by
    unfold withoutIn
    split <;> rfl
  titleLine b := by
    unfold withoutIn
    split <;> rfl
  empty b hb := by
    unfold withoutIn
    split
    · exact Block.without_of_not_mem (by simp [hb])
    · rfl

theorem leavesLine_withoutIn (title : Text) {l m : SourceLine} (hm : m ≠ l) : LeavesLine (withoutIn title l) m := by
  intro b
  unfold withoutIn
  split <;> simp [Block.without, hm]

theorem withoutIn_of_not_mem {title : Text} {l : SourceLine} {b : Block} (hl : l ∉ b.body) : withoutIn title l b = b := by
  unfold withoutIn
  split
  · exact Block.without_of_not_mem hl
  · rfl

/-- Lines that are numbered from one, in front of a line and behind it. -/
theorem numbered_split (front : List Text) (t : Text) (back : List Text) :
    numbered 1 (front ++ t :: back) =
      numbered 1 front ++ ⟨front.length + 1, Text.trim t⟩ :: numbered (front.length + 2) back := by
  rw [numbered_append, numbered, Nat.add_comm 1]

/-- The reading of a text that has an outline: what was read in front of a line, and what behind it. -/
structure Split (s : Text) (i : Nat) (t : Text) (o : Outline) (p q : Progress) : Prop where
  front : readLines .start (numbered 1 ((Text.lines s).take i)) = .ok p
  line : p.step ⟨i + 1, Text.trim t⟩ = .ok q
  back : readLines q (numbered (i + 2) ((Text.lines s).drop (i + 1))) = .ok ⟨o.preamble, o.blocks, .outside⟩

variable {s t : Text} {i : Nat} {o : Outline} {p q : Progress}

/-- A comment is neither blank nor a mark. -/
theorem of_isComment (h : Line.isComment t) : t.isEmpty = false ∧ t ≠ bodyMark ∧ t ≠ endMark := by
  obtain ⟨r, hr⟩ := Option.isSome_iff_exists.1 h
  rw [Text.eq_append_of_after? hr]
  exact ⟨rfl, by simp [bodyMark], by simp [endMark]⟩

theorem exists_split (h : read s = .ok o) (ht : (Text.lines s)[i]? = some t) : ∃ p q, Split s i t o p q := by
  obtain ⟨hi, ht⟩ := List.getElem?_eq_some_iff.1 ht
  have hlines : Text.lines s = (Text.lines s).take i ++ t :: (Text.lines s).drop (i + 1) := by
    rw [← ht, ← List.drop_eq_getElem_cons hi, List.take_append_drop]
  have hread := read_eq_ok h
  rw [hlines, numbered_split, List.length_take_of_le (Nat.le_of_lt hi), readLines_append] at hread
  obtain ⟨p, hp, hread⟩ := except_bind_eq_ok hread
  rw [readLines_cons] at hread
  obtain ⟨q, hq, hread⟩ := except_bind_eq_ok hread
  exact ⟨p, q, hp, hq, hread⟩

namespace Split

theorem placeAt? (h : Split s i t o p q) : placeAt? s i = some p.place := by
  rw [Outline.placeAt?, h.front]
  rfl

/-- With nothing on the line, what is behind it is read from where reading stood in front of it. -/
theorem read_blankLine (h : Split s i t o p q) (hi : i < (Text.lines s).length) {o' : Outline}
    (hback : readLines p (numbered (i + 2) ((Text.lines s).drop (i + 1))) = .ok ⟨o'.preamble, o'.blocks, .outside⟩) :
    read (Text.blankLine i s) = .ok o' := by
  unfold read ofLines
  rw [Text.lines_blankLine, List.set_eq_take_append_cons_drop, if_pos hi, numbered_split,
    List.length_take_of_le (Nat.le_of_lt hi), readLines_append, h.front]
  show ((readLines p (_ :: _)).bind _) = _
  rw [readLines_cons, Progress.step_blank rfl]
  show ((readLines p _).bind _) = _
  rw [hback]
  rfl

/-- A directive in a header is passed over. -/
theorem read_header (h : Split s i t o p q) (hi : i < (Text.lines s).length) (hcomment : Line.isComment (Text.trim t))
    {start : Nat} {title : Option (Text × Nat)} {headers : List (Text × Text)}
    (hplace : p.place = .header start title headers) : read (Text.blankLine i s) = .ok o := by
  have hmark := (of_isComment hcomment).2.1
  have hline := h.line
  simp only [Progress.step, hplace, Progress.readHeader, if_neg hmark, hcomment, Bool.or_true, if_true] at hline
  cases hline
  exact h.read_blankLine hi h.back

/-- A directive between blocks is in the preamble. -/
theorem mem_preamble (h : Split s i t o p q) {x : Except Directive.Fault Directive}
    (hx : Line.directive? (Text.trim t) = some x) (hplace : p.place = .outside) :
    ∃ d, x = .ok d ∧ (i + 1, d) ∈ o.preamble := by
  have hcomment := (Line.of_directive? hx).2.2
  have hempty := (of_isComment hcomment).1
  have hline := h.line
  simp only [Progress.step, hplace, Progress.readOutside, hempty, hcomment, hx, Bool.false_eq_true, if_false,
    if_true] at hline
  cases x with
  | error f => cases hline
  | ok d =>
    cases hline
    refine ⟨d, rfl, ?_⟩
    exact except_foldlM_invariant (I := fun r : Progress => (i + 1, d) ∈ r.preamble)
      (fun _ _ _ _ he hstep => Progress.mem_preamble_of_step he hstep) (by simp) h.back

section Body

variable (h : Split s i t o p q) (hcomment : Line.isComment (Text.trim t)) {b : Block} (hplace : p.place = .body b)
include h

/-- No line in front of this one is the same, since its number is another one. -/
theorem not_mem_opened : ∀ c ∈ p.opened, ⟨i + 1, Text.trim t⟩ ∉ c.body := by
  intro c hc hl
  have hlines : ⟨i + 1, Text.trim t⟩ ∈ p.lines := by
    rw [Progress.lines_eq_flatMap_opened]
    exact List.mem_flatMap.2 ⟨c, hc, hl⟩
  have hbounds := bounds_of_mem_numbered (mem_of_readLines h.front _ hlines)
  have htake := List.length_take_le i (Text.lines s)
  dsimp only at hbounds
  omega

include hcomment hplace

theorem eq_of_body : q = { p with place := .body { b with body := b.body ++ [⟨i + 1, Text.trim t⟩] } } := by
  obtain ⟨hempty, -, hend⟩ := of_isComment hcomment
  have hline := h.line
  simp only [Progress.step, hplace, Progress.readBody, if_neg hend, hempty, Bool.false_eq_true, if_false] at hline
  exact (Except.ok.inj hline).symm

/-- A directive in a body is in the block of that body. -/
theorem mem_body : ∃ c ∈ o.blocks, c.title = b.title ∧ ⟨i + 1, Text.trim t⟩ ∈ c.body := by
  have hstart : ∃ c ∈ q.opened, c.title = b.title ∧ ⟨i + 1, Text.trim t⟩ ∈ c.body := by
    rw [h.eq_of_body hcomment hplace, Progress.opened_of_body rfl]
    exact ⟨_, List.mem_append_right _ (List.mem_singleton_self _), rfl, by simp⟩
  have hopened := except_foldlM_invariant
    (I := fun r : Progress => ∃ c ∈ r.opened, c.title = b.title ∧ ⟨i + 1, Text.trim t⟩ ∈ c.body)
    (fun _ _ _ _ hc hstep => Progress.mem_body_of_step hc hstep) hstart h.back
  rwa [Progress.opened_of_not_body (p := ⟨o.preamble, o.blocks, .outside⟩) (by simp)] at hopened

/-- Reading stands behind the line where it stood in front of it, but for the line. -/
theorem mapBlocks_without : q.mapBlocks (withoutIn b.title ⟨i + 1, Text.trim t⟩) = p := by
  have hfront := h.not_mem_opened
  rw [Progress.opened_of_body hplace] at hfront
  have hblocks : p.blocks.map (withoutIn b.title ⟨i + 1, Text.trim t⟩) = p.blocks := by
    refine (List.map_congr_left fun c hc => ?_).trans (List.map_id _)
    exact withoutIn_of_not_mem (hfront c (List.mem_append_left _ hc))
  have hbody : withoutIn b.title ⟨i + 1, Text.trim t⟩ { b with body := b.body ++ [⟨i + 1, Text.trim t⟩] } = b := by
    have hkeep := Block.without_of_not_mem (hfront b (by simp))
    rw [withoutIn, if_pos rfl]
    simpa [Block.without] using hkeep
  obtain ⟨pre, bs, place⟩ := p
  obtain rfl : place = .body b := hplace
  rw [h.eq_of_body hcomment rfl, Progress.mapBlocks, hblocks, Place.mapBlock, hbody]

/-- In the outline of the text without the line, the line is missing in its block, and all else is the same. -/
theorem read_body (hi : i < (Text.lines s).length) : read (Text.blankLine i s) =
    .ok { o with blocks := o.blocks.map (withoutIn b.title ⟨i + 1, Text.trim t⟩) } := by
  have hback : ∀ m ∈ numbered (i + 2) ((Text.lines s).drop (i + 1)),
      LeavesLine (withoutIn b.title ⟨i + 1, Text.trim t⟩) m := by
    intro m hm
    refine leavesLine_withoutIn _ ?_
    rintro rfl
    have hbounds := bounds_of_mem_numbered hm
    dsimp only at hbounds
    omega
  refine h.read_blankLine hi ?_
  rw [← h.mapBlocks_without hcomment hplace, readLines_mapBlocks (isBodyChange_withoutIn _ _) _ hback, h.back]
  rfl

end Body

end Split
end Outline

namespace Script

/-! ## Directives between blocks -/

namespace Preamble

/-- Notice is given of every directive that neither describes the graph nor marks an end. -/
theorem mem_notices_of_foldlM {entries : List (Nat × Directive)} {p q : Preamble}
    (h : (entries.foldlM step p).result = .ok q) {n : Nat} {d : Directive} (hd : (n, d) ∈ entries)
    (hgraph : d.name ≠ graphName) (hend : d.name ≠ endName) :
    .ignoredDirective n d.name ∈ (entries.foldlM step p).notices := by
  induction entries generalizing p with
  | nil => cases hd
  | cons e entries ih =>
    obtain ⟨p', hp', hrest⟩ := Reading.foldlM_cons_eq_ok_iff.1 h
    rw [List.foldlM_cons]
    show _ ∈ ((p.step e).andThen _).notices
    rw [Reading.notices_andThen hp']
    rcases List.mem_cons.1 hd with rfl | hd
    · rw [step_other hgraph hend]
      exact List.mem_append_left _ (List.mem_singleton_self _)
    · exact List.mem_append_right _ (ih hrest hd)

end Preamble

/-- What is read of a script heeds a directive on the line `n`: it is the description of the graph, which gives way to
defaults where it says nothing, or one of the ends, or there is a notice that it was ignored. -/
inductive Outcome.Heeds (out : Outcome) (n : Nat) (d : Directive) : Prop
  | graph (name : d.name = graphName) (id : out.graph.id = (d.get? "id".toList).getD defaultId)
      (title : out.graph.title = (d.get? "title".toList).getD [])
      (start : out.graph.start = (d.get? "start".toList).getD ((out.graph.nodes.nodes.head?.map (·.id)).getD []))
  | marked {e : End} (name : d.name = endName) (marks : endOf? d = some e) (mem : e ∈ out.graph.ends)
  | ignored (graph : d.name ≠ graphName) (marked : d.name ≠ endName)
      (notice : .ignoredDirective n d.name ∈ out.notices)

/-- A graph is described by its directive. -/
theorem assemble_of_graph {ns : List Node} (hns : (ns.map (·.id)).Nodup) {p : Preamble} {d : Directive}
    (h : p.graph = some d) :
    (assemble p ns).id = (d.get? "id".toList).getD defaultId ∧
    (assemble p ns).title = (d.get? "title".toList).getD [] ∧
    (assemble p ns).start =
      (d.get? "start".toList).getD (((assemble p ns).nodes.nodes.head?.map (·.id)).getD []) := by
  rw [nodes_assemble hns p, assemble, h]
  exact ⟨rfl, rfl, rfl⟩

theorem heeds_of_mem_preamble {strict : Bool} {s : Text} {o : Outline} (ho : Outline.read s = .ok o) {out : Outcome}
    (h : readGraph strict o = ⟨out.notices, .ok out.graph⟩) {n : Nat} {d : Directive} (hd : (n, d) ∈ o.preamble) :
    out.Heeds n d := by
  obtain ⟨p, ns, hp, hns, hgraph⟩ := readGraph_eq_ok_iff.1 (show (readGraph strict o).result = _ by rw [h])
  obtain ⟨hgraphs, hmarked⟩ := Preamble.read_eq_ok_iff.1 hp
  have hmem : d ∈ o.preamble.map (·.2) := List.mem_map_of_mem hd
  by_cases hname : d.name = graphName
  · have hdescribes : p.graph = some d := by
      have hd : d ∈ graphs (o.preamble.map (·.2)) := List.mem_filter.2 ⟨hmem, by simpa using hname⟩
      rw [hgraphs] at hd
      exact Option.mem_toList.1 hd
    obtain ⟨hid, htitle, hstart⟩ := assemble_of_graph (nodup_of_readBlocks ho hns) hdescribes
    exact .graph hname (hgraph ▸ hid) (hgraph ▸ htitle) (hgraph ▸ hstart)
  · by_cases hend : d.name = endName
    · have hd : endOf? d ∈ marked (o.preamble.map (·.2)) :=
        List.mem_map_of_mem (List.mem_filter.2 ⟨hmem, by simpa using hend⟩)
      rw [hmarked] at hd
      obtain ⟨e, he, hmarks⟩ := List.mem_map.1 hd
      refine .marked hend hmarks.symm ?_
      rw [← hgraph]
      show e ∈ (assemble p ns).ends
      rw [assemble_ends]
      exact List.mem_append_right _ he
    · refine .ignored hname hend ?_
      have hnotice := Preamble.mem_notices_of_foldlM hp hd hname hend
      have hnotices : out.notices = (readGraph strict o).notices := by rw [h]
      rw [hnotices, readGraph, Reading.notices_andThen (Reading.mapError_eq_ok_iff.2 hp)]
      exact List.mem_append_left _ hnotice

/-! ## Every directive -/

/-- What becomes of a directive on the line behind the first `i` lines, by the place where it stands: it is heeded, it
says a part of a node, or the script is read without it as it is read with it. -/
inductive Fate (settings : Settings) (s : Text) (out : Outcome) (i : Nat) (x : Except Directive.Fault Directive) :
    Outline.Place → Prop
  | outside {d : Directive} (reads : x = .ok d) (heeds : out.Heeds (i + 1) d) : Fate settings s out i x .outside
  | header {start : Nat} {title : Option (Text × Nat)} {headers : List (Text × Text)}
      (lost : read settings (Text.blankLine i s) = .ok out) : Fate settings s out i x (.header start title headers)
  | stated {b : Block} {n : Node} {d : Directive} (reads : x = .ok d) (mem : n ∈ out.graph.nodes.nodes)
      (id : n.id = b.title) (states : n.payload.States (i + 1) d) : Fate settings s out i x (.body b)
  | passed {b : Block} {n : Node} (mem : n ∈ out.graph.nodes.nodes) (id : n.id = b.title)
      (kind : n.payload.kind = .speech ∨ n.payload.kind = .menu)
      (lost : read settings (Text.blankLine i s) = .ok out) : Fate settings s out i x (.body b)

theorem exists_of_forall₂ {α β : Type} {r : α → β → Prop} {as : List α} {bs : List β} (h : List.Forall₂ r as bs) :
    ∀ a ∈ as, ∃ b ∈ bs, r a b := by
  induction h with
  | nil => simp
  | cons hab _ ih =>
    refine List.forall_mem_cons.2 ⟨⟨_, by simp, hab⟩, fun a ha => ?_⟩
    obtain ⟨b, hb, hr⟩ := ih a ha
    exact ⟨b, List.mem_cons_of_mem _ hb, hr⟩

/-- A directive in a body says a part of the node, or the script is read the same without it. -/
theorem fate_in_body {settings : Settings} {s : Text} {out : Outcome} (h : read settings s = .ok out) {o : Outline}
    (ho : Outline.read s = .ok o) {i : Nat} {t : Text} {p q : Outline.Progress} (hsplit : Outline.Split s i t o p q)
    (hi : i < (Text.lines s).length) {x : Except Directive.Fault Directive}
    (hx : Line.directive? (Text.trim t) = some x) {b : Block} (hplace : p.place = .body b) :
    Fate settings s out i x (.body b) := by
  have hcomment := (Line.of_directive? hx).2.2
  obtain ⟨c, hc, htitle, hl⟩ := hsplit.mem_body hcomment hplace
  obtain ⟨o', ho', hblocks⟩ := forall₂_of_read h
  obtain rfl : o = o' := Except.ok.inj (ho.symm.trans ho')
  obtain ⟨n, hn, hmakes, -⟩ := exists_of_forall₂ hblocks c hc
  have hid : n.id = b.title := hmakes.title.symm.trans htitle
  by_cases hkind : n.payload.kind = .speech ∨ n.payload.kind = .menu
  · refine .passed hn hid hkind ?_
    have hnode : ∀ c' ∈ o.blocks, (Outline.withoutIn b.title ⟨i + 1, Text.trim t⟩ c').node settings.strictConditions =
        c'.node settings.strictConditions := by
      intro c' hc'
      unfold Outline.withoutIn
      split
      · next htitle' =>
        -- only one block has this title
        obtain rfl : c' = c :=
          List.inj_on_of_nodup_map (Outline.sound_read ho).1 hc' hc (htitle'.trans htitle.symm)
        exact Block.node_without hx hmakes.kind hkind
      · rfl
    rw [read_eq, hsplit.read_body hcomment hplace hi, ← h, read_eq, ho]
    exact outcome_map (Outline.isBodyChange_withoutIn _ _) hnode
  · obtain ⟨hspeech, hmenu⟩ := not_or.1 hkind
    obtain ⟨d, hd, hstates⟩ := Block.states_of_payload hmakes.payload hspeech hmenu hl hx
    exact .stated hd hn hid hstates

/-- What becomes of each directive of a script that is read. -/
theorem fate_of_directive {settings : Settings} {s : Text} {out : Outcome} (h : read settings s = .ok out) {i : Nat}
    {t : Text} (ht : (Text.lines s)[i]? = some t) {x : Except Directive.Fault Directive}
    (hx : Line.directive? (Text.trim t) = some x) :
    ∃ place, Outline.placeAt? s i = some place ∧ Fate settings s out i x place := by
  obtain ⟨o, ho, hgraph, -⟩ := read_eq_ok_iff.1 h
  obtain ⟨p, q, hsplit⟩ := Outline.exists_split ho ht
  obtain ⟨hi, -⟩ := List.getElem?_eq_some_iff.1 ht
  refine ⟨p.place, hsplit.placeAt?, ?_⟩
  cases hplace : p.place with
  | outside =>
    obtain ⟨d, hd, hmem⟩ := hsplit.mem_preamble hx hplace
    exact .outside hd (heeds_of_mem_preamble ho hgraph hmem)
  | header start title headers =>
    refine .header ?_
    rw [read_eq, hsplit.read_header hi (Line.of_directive? hx).2.2 hplace, ← ho, ← read_eq, h]
  | body b => exact fate_in_body h ho hsplit hi hx hplace

/-- A speech with the mark of an end in it, which belongs in front of the node. -/
def misplacedScript : Text := "title: a\n---\n// @end node=a exit=x\nBob: Hi\n===\n".toList

def misplacedGraph : Graph where
  id := "dialogue".toList
  title := []
  start := ['a']
  nodes := .ofList [(['a'], ⟨['a'], none, .speech ⟨"Bob".toList, "Hi".toList, none, []⟩⟩)]
  edges := []
  ends := [.plain ['a']]

def misplacedEnd : Directive := ⟨endName, [("node".toList, ['a']), ("exit".toList, ['x'])]⟩

theorem read_misplacedScript :
    read .standard misplacedScript = .ok ⟨misplacedGraph, [], misplacedGraph.check none⟩ := by
  with_unfolding_all rfl

theorem fate_of_directive_misplaced :
    read .standard misplacedScript = .ok ⟨misplacedGraph, [], misplacedGraph.check none⟩ ∧
    (Text.lines misplacedScript)[2]? = some "// @end node=a exit=x".toList ∧
    Line.directive? (Text.trim "// @end node=a exit=x".toList) = some (.ok misplacedEnd) ∧
    ∃ place, Outline.placeAt? misplacedScript 2 = some place ∧
      Fate .standard misplacedScript ⟨misplacedGraph, [], misplacedGraph.check none⟩ 2 (.ok misplacedEnd) place := by
  have hline : (Text.lines misplacedScript)[2]? = some "// @end node=a exit=x".toList := by rfl
  have hdirective : Line.directive? (Text.trim "// @end node=a exit=x".toList) = some (.ok misplacedEnd) := by
    with_unfolding_all rfl
  exact ⟨read_misplacedScript, hline, hdirective, fate_of_directive read_misplacedScript hline hdirective⟩

/-- The script is read without a notice, and the end of its graph is not the one that the directive marks: the key is
lost, as it is where nothing is on the line. -/
theorem misplaced_end_lost :
    (Text.lines misplacedScript)[2]? = some "// @end node=a exit=x".toList ∧
    Line.directive? "// @end node=a exit=x".toList = some (.ok misplacedEnd) ∧
    endOf? misplacedEnd = some ⟨['a'], some ['x']⟩ ∧
    read .standard misplacedScript = .ok ⟨misplacedGraph, [], misplacedGraph.check none⟩ ∧
    ⟨['a'], some ['x']⟩ ∉ misplacedGraph.ends ∧
    ¬Outcome.Heeds ⟨misplacedGraph, [], misplacedGraph.check none⟩ 3 misplacedEnd ∧
    read .standard (Text.blankLine 2 misplacedScript) = read .standard misplacedScript := by
  have hends : (⟨['a'], some ['x']⟩ : End) ∉ misplacedGraph.ends := by decide
  have hmarks : endOf? misplacedEnd = some ⟨['a'], some ['x']⟩ := by rfl
  refine ⟨by rfl, by with_unfolding_all rfl, hmarks, read_misplacedScript, hends, fun h => ?_,
    by with_unfolding_all rfl⟩
  cases h with
  | graph name => exact absurd name (by decide)
  | marked name marks mem =>
    rw [hmarks] at marks
    cases marks
    exact hends mem
  | ignored _ marked => exact marked rfl

end Script
end DialogueScript
