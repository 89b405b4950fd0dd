import DialogueScript.Proofs.Script.Spacing
import Mathlib.Data.List.Nodup
/-!
# Scripts one after the other

Reading a script ends between blocks, where reading another one starts. So the lines of a second script are read
behind a first one as they are read alone, moved down, until a title comes up that the first one gave. From there on
each block is read on its own and edges are derived node by node; only the preamble is one for both, and it describes
one graph.

Results:
* `Outline.continues_step`, `Outline.continues_readLines`: reading behind an outline, line by line and as a whole.
* `Outline.read_append`, `Outline.error_of_read_append`: the outline of two texts.
* `Preamble.read_append_eq_ok_iff`: the preamble of two preambles.
* `read_append_newline`: when two scripts can be read as one, and what their graph is.
-/
namespace DialogueScript

/-! ## Lines -/

namespace Text

theorem lines_ne_nil {s : Text} (h : s ≠ []) : lines s ≠ [] := by
  cases s with
  | nil => exact absurd rfl h
  | cons c r =>
    rw [lines]
    split
    · simp
    · split <;> simp

/-- With a newline between them, two texts have the lines of both, and a blank one between them when the first text
is empty or ends with a newline. -/
theorem lines_append (s t : Text) :
    lines (s ++ '\n' :: t) = lines s ++ lines t ∨ lines (s ++ '\n' :: t) = lines s ++ [] :: lines t := by
  induction s with
  | nil => exact .inr (by simp [lines])
  | cons c r ih =>
    by_cases hc : c = '\n'
    · rcases ih with ih | ih
      · exact .inl (by simp [lines, hc, ih])
      · exact .inr (by simp [lines, hc, ih])
    · rw [List.cons_append, lines, lines, if_neg hc, if_neg hc]
      cases hr : lines r with
      | nil =>
        obtain rfl : r = [] := by_contra fun hne => lines_ne_nil hne hr
        exact .inl (by simp [lines])
      | cons l ls =>
        rcases ih with ih | ih
        · exact .inl (by simp [ih, hr])
        · exact .inr (by simp [ih, hr])

end Text

/-! ## Outlines -/

/-- The titles of the blocks of an outline. -/
def Outline.titles (o : Outline) : List Text := o.blocks.map Block.title

/-- A directive between the blocks of an outline describes the graph. -/
def Outline.describesGraph (o : Outline) : Bool := o.preamble.any (·.2.name == Script.graphName)

/-- An outline behind another one. -/
instance : Append Outline := ⟨fun o p => ⟨o.preamble ++ p.preamble, o.blocks ++ p.blocks⟩⟩

namespace Outline

theorem titles_append (o p : Outline) : (o ++ p).titles = o.titles ++ p.titles := List.map_append

theorem titles_renumber (φ : Nat → Nat) (o : Outline) : (o.renumber φ).titles = o.titles := List.map_map

/-- What was read behind an outline, with the outline. -/
def Progress.behind (o : Outline) (p : Progress) : Progress :=
  ⟨o.preamble ++ p.preamble, o.blocks ++ p.blocks, p.place⟩

/-- What comes of reading on from some progress, and what behind an outline: the same behind it, or a refusal because
a title of the outline was given again. Nothing is said when reading failed already without the outline. -/
inductive Continues (o : Outline) : Except Fault Progress → Except Fault Progress → Prop
  | on (q : Progress) : Continues o (.ok q) (.ok (q.behind o))
  | refused {q : Progress} (f : Fault) {t : Text} (old : t ∈ o.titles) (given : t ∈ q.titles) :
    Continues o (.ok q) (.error f)
  | failed (f : Fault) (x : Except Fault Progress) : Continues o (.error f) x

theorem newTitle_append {bs : List Block} {n : Nat} {t : Text} {u : Text × Nat} (h : newTitle bs n t = .ok u)
    (old : List Block) : newTitle (old ++ bs) n t = .ok u ∨
      t ∈ old.map Block.title ∧ ∃ f, newTitle (old ++ bs) n t = .error f := by
  obtain ⟨rfl, rfl, hid, hnew⟩ := newTitle_eq_ok (u := u.1) (m := u.2) h
  by_cases hold : u.1 ∈ old.map Block.title
  · refine .inr ⟨hold, ?_⟩
    cases hall : newTitle (old ++ bs) u.2 u.1 with
    | error f => exact ⟨f, rfl⟩
    | ok v =>
      have hfresh := (newTitle_eq_ok (u := v.1) (m := v.2) hall).2.2.2
      exact absurd (List.mem_append_left _ hold) (by rwa [List.map_append] at hfresh)
  · have hfresh : u.1 ∉ (old ++ bs).map Block.title := by
      rw [List.map_append, List.mem_append, not_or]
      exact ⟨hold, hnew⟩
    exact .inl (newTitle_new hid hfresh u.2)

section Continues

variable (o : Outline) (p : Progress)

theorem continues_ok {o : Outline} {q r : Progress} (h : r = q.behind o) : Continues o (.ok q) (.ok r) := h ▸ .on q

theorem continues_addHeader (start : Nat) (title : Option (Text × Nat)) (headers : List (Text × Text)) (l : SourceLine) :
    Continues o (p.addHeader start title headers l) ((p.behind o).addHeader start title headers l) := by
  unfold Progress.addHeader
  split
  · exact .failed _ _
  · next key value _ =>
    split
    · cases title with
      | some t => exact .failed _ _
      | none =>
        dsimp only
        cases hnew : newTitle p.blocks l.number value with
        | error f => exact .failed _ _
        | ok u =>
          obtain ⟨rfl, -⟩ := newTitle_eq_ok (u := u.1) (m := u.2) hnew
          rcases newTitle_append hnew o.blocks with hon | ⟨hold, f, hrefused⟩
          · rw [Progress.behind, hon]
            exact .on _
          · rw [Progress.behind, hrefused]
            exact .refused f hold (by simp [Progress.titles, Progress.marks])
    · exact .on _

theorem readBody_behind (b : Block) (l : SourceLine) : (p.behind o).readBody b l = (p.readBody b l).behind o := by
  unfold Progress.readBody
  split
  · simp [Progress.behind]
  · split <;> rfl

theorem continues_step (l : SourceLine) : Continues o (p.step l) ((p.behind o).step l) := by
  obtain ⟨pre, bs, place⟩ := p
  cases place with
  | outside =>
    simp only [Progress.step, Progress.behind, Progress.readOutside]
    split
    · exact .on _
    · split
      · split
        · exact continues_ok (by simp [Progress.behind])
        · exact .failed _ _
        · exact .on _
      · exact continues_addHeader o ⟨pre, bs, .outside⟩ l.number none [] l
  | header start title headers =>
    simp only [Progress.step, Progress.behind, Progress.readHeader]
    split
    · cases title with
      | some t => exact .on _
      | none => exact .failed _ _
    · split
      · exact .on _
      · exact continues_addHeader o ⟨pre, bs, .header start title headers⟩ start title headers l
  | body b => exact continues_ok (readBody_behind o ⟨pre, bs, .body b⟩ b l)

theorem titles_readLines {p q : Progress} {ls : List SourceLine} (h : readLines p ls = .ok q) {t : Text}
    (ht : t ∈ p.titles) : t ∈ q.titles := by
  obtain ⟨ms, hmarks, -⟩ := marks_readLines h
  rw [Progress.titles, hmarks, List.map_append]
  exact List.mem_append_left _ ht

theorem continues_readLines (ls : List SourceLine) : Continues o (readLines p ls) (readLines (p.behind o) ls) := by
  induction ls generalizing p with
  | nil => exact .on p
  | cons l ls ih =>
    rw [readLines_cons, readLines_cons]
    generalize halone : p.step l = alone
    generalize hbehind : (p.behind o).step l = behind
    have hstep : Continues o alone behind := halone ▸ hbehind ▸ continues_step o p l
    cases hstep with
    | on q => exact ih q
    | @refused q f t hold hgiven =>
      -- the title stays among those that were given
      show Continues o (readLines q ls) (.error f)
      cases hrest : readLines q ls with
      | ok r => exact .refused f hold (titles_readLines hrest hgiven)
      | error f' => exact .failed _ _
    | failed f x => exact .failed _ _

end Continues

/-! ### Texts -/

theorem numbered_shift (k n : Nat) (ls : List Text) :
    numbered (n + k) ls = (numbered n ls).map (·.renumber (· + k)) := by
  induction ls generalizing n with
  | nil => rfl
  | cons t ls ih =>
    rw [numbered, numbered, List.map_cons, ← ih (n + 1), Nat.add_right_comm]
    rfl

/-- Behind a text that has an outline, the lines of another text are read from between blocks. -/
theorem readLines_lines_append {s : Text} {o : Outline} (h : read s = .ok o) (t : Text) :
    ∃ k, readLines .start (numbered 1 (Text.lines (s ++ '\n' :: t))) =
      readLines (Progress.start.behind o) ((numbered 1 (Text.lines t)).map (·.renumber (· + k))) := by
  have hfirst : ∀ ls, readLines .start (numbered 1 (Text.lines s ++ ls)) =
      readLines (Progress.start.behind o) ((numbered 1 ls).map (·.renumber (· + (Text.lines s).length))) := by
    intro ls
    rw [numbered_append, readLines_append, read_eq_ok h, numbered_shift]
    simp only [Progress.behind, Progress.start, List.append_nil]
    rfl
  rcases Text.lines_append s t with hlines | hlines
  · exact ⟨_, by rw [hlines, hfirst]⟩
  · refine ⟨(Text.lines s).length + 1, ?_⟩
    rw [hlines, hfirst, ← numbered_shift, ← numbered_shift, numbered, readLines_cons, Progress.step_blank rfl]
    rfl

/-- Two texts that have an outline have one together as well, or they give a title twice and are refused. -/
theorem read_append_cases {s t : Text} {o p : Outline} (hs : read s = .ok o) (ht : read t = .ok p) :
    (∃ φ, read (s ++ '\n' :: t) = .ok (o ++ p.renumber φ)) ∨
      (∃ f, read (s ++ '\n' :: t) = .error f) ∧ ¬ o.titles.Disjoint p.titles := by
  obtain ⟨k, hlines⟩ := readLines_lines_append hs t
  have halone := readLines_renumber (· + k) .start (numbered 1 (Text.lines t))
  rw [read_eq_ok ht] at halone
  change readLines .start _ = .ok (Progress.renumber (· + k) ⟨p.preamble, p.blocks, .outside⟩) at halone
  have hcontinues := continues_readLines o .start ((numbered 1 (Text.lines t)).map (·.renumber (· + k)))
  rw [halone, ← hlines] at hcontinues
  unfold read ofLines
  generalize readLines .start (numbered 1 (Text.lines (s ++ '\n' :: t))) = behind at hcontinues ⊢
  cases hcontinues with
  | on => exact .inl ⟨_, rfl⟩
  | @refused _ f u hold hgiven =>
    refine .inr ⟨⟨f, rfl⟩, fun hdisjoint => hdisjoint hold ?_⟩
    rw [← titles_renumber (· + k)]
    rwa [Progress.renumber, Place.renumber, titles_outside] at hgiven

section Read

variable {s t : Text} {o p : Outline} (hs : read s = .ok o) (ht : read t = .ok p)
include hs ht

/-- Together, two texts that give no title twice have the blocks of both. -/
theorem read_append (h : o.titles.Disjoint p.titles) :
    ∃ φ : Nat → Nat, read (s ++ '\n' :: t) = .ok (o ++ p.renumber φ) :=
  (read_append_cases hs ht).resolve_right fun hrefused => hrefused.2 h

theorem error_of_read_append (h : ¬ o.titles.Disjoint p.titles) : ∃ f, read (s ++ '\n' :: t) = .error f := by
  rcases read_append_cases hs ht with ⟨φ, hread⟩ | ⟨hrefused, -⟩
  · -- the titles of what was read differ
    have hdistinct : (o ++ p.renumber φ).titles.Nodup := (sound_read hread).1
    rw [titles_append, titles_renumber] at hdistinct
    exact absurd (List.disjoint_of_nodup_append hdistinct) h
  · exact hrefused

end Read
end Outline

/-! ## Preambles -/

namespace Script

theorem Preamble.read_append_eq_ok_iff {es fs : List (Nat × Directive)} {p q r : Preamble}
    (hp : (Preamble.read es).result = .ok p) (hq : (Preamble.read fs).result = .ok q) :
    (Preamble.read (es ++ fs)).result = .ok r ↔
      p.graph.toList ++ q.graph.toList = r.graph.toList ∧ p.ends ++ q.ends = r.ends := by
  obtain ⟨hpgraph, hpends⟩ := read_eq_ok_iff.1 hp
  obtain ⟨hqgraph, hqends⟩ := read_eq_ok_iff.1 hq
  have hends : p.ends.map some ++ q.ends.map some = r.ends.map some ↔ p.ends ++ q.ends = r.ends := by
    rw [← List.map_append, List.map_inj_right fun _ _ => Option.some.inj]
  rw [read_eq_ok_iff, List.map_append, graphs_append, marked_append, hpgraph, hqgraph, hpends, hqends, hends]

theorem Preamble.isSome_graph_of_read {o : Outline} {p : Preamble} (h : (Preamble.read o.preamble).result = .ok p) :
    p.graph.isSome = o.describesGraph := by
  have hdirectives : o.describesGraph = (o.preamble.map (·.2)).any (·.name == graphName) := by
    rw [List.any_map]
    rfl
  rw [hdirectives, any_eq_graphs, (Preamble.read_eq_ok_iff.1 h).1]
  cases p.graph <;> rfl

theorem Preamble.read_renumber_eq_ok (φ : Nat → Nat) {o : Outline} {p : Preamble}
    (h : (Preamble.read o.preamble).result = .ok p) : (Preamble.read (o.renumber φ).preamble).result = .ok p := by
  show (Preamble.read (o.preamble.map (Prod.map φ id))).result = _
  rw [Preamble.read_renumber, Reading.result_relabel, h]
  rfl

theorem readBlocks_renumber_eq_ok (φ : Nat → Nat) {strict : Bool} {o : Outline} {ns : List Node}
    (h : (readBlocks strict o.blocks).result = .ok ns) : (readBlocks strict (o.renumber φ).blocks).result = .ok ns := by
  show (readBlocks strict (o.blocks.map (·.renumber φ))).result = _
  rw [readBlocks_renumber, Reading.result_relabel, h]
  rfl

theorem readBlocks_append {strict : Bool} {bs cs : List Block} {ns ms : List Node}
    (hns : (readBlocks strict bs).result = .ok ns) (hms : (readBlocks strict cs).result = .ok ms) :
    (readBlocks strict (bs ++ cs)).result = .ok (ns ++ ms) := by
  induction bs generalizing ns with
  | nil => cases hns; exact hms
  | cons b bs ih =>
    obtain ⟨n, hn, h⟩ := Reading.andThen_eq_ok hns
    obtain ⟨ns', hns', h⟩ := Reading.andThen_eq_ok h
    cases h
    exact Reading.andThen_eq_ok_iff.2 ⟨n, hn, Reading.andThen_eq_ok_iff.2 ⟨ns' ++ ms, ih hns', rfl⟩⟩

/-! ## Graphs -/

/-- A graph that was read has the nodes of the blocks in their order, and the edges of these nodes. -/
theorem parts_of_read {settings : Settings} {s : Text} {o : Outline} {out : Outcome} (ho : Outline.read s = .ok o)
    (h : read settings s = .ok out) : ∃ p ns, (Preamble.read o.preamble).result = .ok p ∧
      (readBlocks settings.strictConditions o.blocks).result = .ok ns ∧
      out.graph.nodes.entries = ns.map (fun n => (n.id, n)) ∧ out.graph.edges = ns.flatMap Node.edges := by
  obtain ⟨o', ho', hg, -⟩ := read_eq_ok h
  obtain rfl : o' = o := Except.ok.inj (ho'.symm.trans ho)
  obtain ⟨p, ns, hp, hns, hgraph⟩ := readGraph_eq_ok_iff.1 hg
  have hd := nodup_of_readBlocks ho hns
  refine ⟨p, ns, hp, hns, ?_, ?_⟩ <;> rw [← hgraph]
  · exact entries_assemble hd p
  · show (assemble p ns).nodes.nodes.flatMap Node.edges = _
    rw [nodes_assemble hd]

/-- Without strict references, a preamble and nodes are all that reading takes. -/
theorem exists_read {settings : Settings} (hrefs : settings.strictReferences = false) {s : Text} {o : Outline}
    (ho : Outline.read s = .ok o) {p : Preamble} (hp : (Preamble.read o.preamble).result = .ok p) {ns : List Node}
    (hns : (readBlocks settings.strictConditions o.blocks).result = .ok ns) : ∃ out, read settings s = .ok out := by
  have hg := readGraph_eq_ok_iff.2 ⟨p, ns, hp, hns, rfl⟩
  refine ⟨⟨(assemble p ns).withDerivedEdges, (readGraph settings.strictConditions o).notices,
    (assemble p ns).withDerivedEdges.check settings.flagSchema⟩, ?_⟩
  exact read_eq_ok_iff.2 ⟨o, ho, by rw [← hg], rfl, by simp [hrefs]⟩

theorem read_eq_error_of_preamble {s : Text} {o : Outline} (ho : Outline.read s = .ok o) {fault : Outline.Fault}
    (h : (Preamble.read o.preamble).result = .error fault) (settings : Settings) :
    read settings s = .error (.script fault) := by
  have hg : (readGraph settings.strictConditions o).result = .error (.script fault) := by
    simp [readGraph, Reading.andThen, Reading.mapError, Except.mapError, h]
  rw [read_eq, ho]
  show outcome settings o = _
  rw [outcome, hg]
  rfl

section Append

variable {settings : Settings} {s t : Text} {o p : Outline} (ho : Outline.read s = .ok o) (hp : Outline.read t = .ok p)
include ho hp

theorem error_of_titles (htitles : ¬ o.titles.Disjoint p.titles) :
    ∃ fault, read settings (s ++ '\n' :: t) = .error (.script fault) := by
  obtain ⟨fault, hfault⟩ := Outline.error_of_read_append ho hp htitles
  exact ⟨fault, by rw [read_eq, hfault]; rfl⟩

variable {out out' : Outcome} (hs : read settings s = .ok out) (ht : read settings t = .ok out')
include hs ht

theorem exists_read_append (hrefs : settings.strictReferences = false) (htitles : o.titles.Disjoint p.titles)
    (hone : ¬ (o.describesGraph ∧ p.describesGraph)) : ∃ r, read settings (s ++ '\n' :: t) = .ok r ∧
      r.graph.nodes.entries = out.graph.nodes.entries ++ out'.graph.nodes.entries ∧
      r.graph.edges = out.graph.edges ++ out'.graph.edges := by
  obtain ⟨φ, happend⟩ := Outline.read_append ho hp htitles
  obtain ⟨a, ns, ha, hns, hentries, hedges⟩ := parts_of_read ho hs
  obtain ⟨b, ms, hb, hms, hentries', hedges'⟩ := parts_of_read hp ht
  have hgraph : a.graph.toList ++ b.graph.toList = (a.graph.or b.graph).toList := by
    rw [← Preamble.isSome_graph_of_read ha, ← Preamble.isSome_graph_of_read hb] at hone
    cases hfirst : a.graph with
    | none => rfl
    | some d =>
      cases hsecond : b.graph with
      | none => rfl
      | some e => simp [hfirst, hsecond] at hone
  have hpreamble : (Preamble.read (o ++ p.renumber φ).preamble).result = .ok ⟨a.graph.or b.graph, a.ends ++ b.ends⟩ :=
    (Preamble.read_append_eq_ok_iff ha (Preamble.read_renumber_eq_ok φ hb)).2 ⟨hgraph, rfl⟩
  have hblocks := readBlocks_append hns (readBlocks_renumber_eq_ok φ hms)
  obtain ⟨r, hr⟩ := exists_read hrefs happend hpreamble hblocks
  obtain ⟨-, ks, -, hks, hentries'', hedges''⟩ := parts_of_read happend hr
  obtain rfl : ks = ns ++ ms := Except.ok.inj (hks.symm.trans hblocks)
  refine ⟨r, hr, ?_, ?_⟩
  · rw [hentries, hentries', hentries'', List.map_append]
  · rw [hedges, hedges', hedges'', List.flatMap_append]

theorem error_of_graphs (htwo : o.describesGraph ∧ p.describesGraph) :
    ∃ fault, read settings (s ++ '\n' :: t) = .error (.script fault) := by
  by_cases htitles : o.titles.Disjoint p.titles
  · obtain ⟨φ, happend⟩ := Outline.read_append ho hp htitles
    obtain ⟨a, -, ha, -⟩ := parts_of_read ho hs
    obtain ⟨b, -, hb, -⟩ := parts_of_read hp ht
    cases hpreamble : (Preamble.read (o ++ p.renumber φ).preamble).result with
    | error fault => exact ⟨fault, read_eq_error_of_preamble happend hpreamble settings⟩
    | ok c =>
      have hgraph := ((Preamble.read_append_eq_ok_iff ha (Preamble.read_renumber_eq_ok φ hb)).1 hpreamble).1
      rw [← Preamble.isSome_graph_of_read ha, ← Preamble.isSome_graph_of_read hb] at htwo
      obtain ⟨d, hd⟩ := Option.isSome_iff_exists.1 htwo.1
      obtain ⟨e, he⟩ := Option.isSome_iff_exists.1 htwo.2
      cases hc : c.graph <;> simp [hd, he, hc] at hgraph
  · exact error_of_titles ho hp htitles

end Append

/-- Two scripts that are read are read as one with a newline between them, and then the graph has the nodes of the first
and those of the second, and likewise their edges. They are refused when they share a title or both describe the
graph. -/
theorem read_append_newline {settings : Settings} (hrefs : settings.strictReferences = false) {s t : Text}
    {o p : Outline} (ho : Outline.read s = .ok o) (hp : Outline.read t = .ok p) {out out' : Outcome}
    (hs : read settings s = .ok out) (ht : read settings t = .ok out') :
    (o.titles.Disjoint p.titles → ¬ (o.describesGraph ∧ p.describesGraph) →
      ∃ r, read settings (s ++ '\n' :: t) = .ok r ∧
        r.graph.nodes.entries = out.graph.nodes.entries ++ out'.graph.nodes.entries ∧
        r.graph.edges = out.graph.edges ++ out'.graph.edges) ∧
    (¬ o.titles.Disjoint p.titles ∨ (o.describesGraph ∧ p.describesGraph) →
      ∃ fault, read settings (s ++ '\n' :: t) = .error (.script fault)) :=
  ⟨exists_read_append ho hp hs ht hrefs, fun h => h.elim (error_of_titles ho hp) (error_of_graphs ho hp hs ht)⟩

/-- A script that describes the graph and goes back to the node of another one. -/
def backScript : Text := "// @graph start=a\ntitle: b\n---\nAnn: Bye\n<<jump a>>\n===\n".toList

def backGraph : Graph where
  id := "dialogue".toList
  title := []
  start := ['a']
  nodes := .ofList [(['b'], ⟨['b'], none, .speech ⟨"Ann".toList, "Bye".toList, some ['a'], []⟩⟩)]
  edges := [⟨"e-b-next-a".toList, ['b'], ['a'], .next, none, none⟩]
  ends := []

theorem read_backScript : read .standard backScript = .ok ⟨backGraph, [], backGraph.check none⟩ := by
  with_unfolding_all rfl

def backOutline : Outline where
  preamble := [(1, ⟨"graph".toList, [("start".toList, ['a'])]⟩)]
  blocks := [⟨['b'], 2, [], [⟨4, "Ann: Bye".toList⟩, ⟨5, "<<jump a>>".toList⟩]⟩]

theorem outline_backScript : Outline.read backScript = .ok backOutline := by with_unfolding_all rfl

theorem read_append_newline_jump :
    (∃ r, read .standard (jumpScript ++ '\n' :: backScript) = .ok r ∧
      r.graph.nodes.entries = jumpGraph.nodes.entries ++ backGraph.nodes.entries ∧
      r.graph.edges = jumpGraph.edges ++ backGraph.edges) ∧
    ∃ fault, read .standard (backScript ++ '\n' :: backScript) = .error (.script fault) := by
  obtain ⟨o, ho, htitles, hgraph⟩ : ∃ o, Outline.read jumpScript = .ok o ∧ o.titles = [['a']] ∧
      o.describesGraph = false := ⟨_, rfl, rfl, rfl⟩
  constructor
  · refine (read_append_newline rfl ho outline_backScript read_jumpScript read_backScript).1 ?_ ?_
    · rw [htitles, List.singleton_disjoint]
      decide
    · simp [hgraph]
  · exact (read_append_newline rfl outline_backScript outline_backScript read_backScript read_backScript).2
      (.inr (by decide))

end Script
end DialogueScript
