import DialogueScript.Proofs.Node.Renumber
import DialogueScript.Proofs.Script.Read
/-!
# Renumbering the lines of scripts

What holds for the readers of blocks holds for the reader of outlines and the reader of scripts: they carry the
numbers of lines along without looking at them. A script whose lines have other numbers is read as the same graph
with the same report, and with the same notices but for the numbers in them.

Results:
* `Outline.readLines_renumber`: reading lines commutes with renumbering them.
* `readGraph_renumber`, `outcome_renumber`: so does reading an outline.
-/
namespace DialogueScript

variable (φ : Nat → Nat)

/-! ## Outlines -/

namespace Outline

def Cause.renumber (φ : Nat → Nat) : Cause → Cause
  | repeatedTitle title first => .repeatedTitle title (φ first)
  | c => c

def Fault.renumber (φ : Nat → Nat) (f : Fault) : Fault := ⟨φ f.line, f.cause.renumber φ⟩

def Place.renumber (φ : Nat → Nat) : Place → Place
  | outside => .outside
  | header start title headers => .header (φ start) (title.map (Prod.map id φ)) headers
  | body b => .body (b.renumber φ)

def Progress.renumber (φ : Nat → Nat) (p : Progress) : Progress :=
  ⟨p.preamble.map (Prod.map φ id), p.blocks.map (·.renumber φ), p.place.renumber φ⟩

end Outline

def Outline.renumber (φ : Nat → Nat) (o : Outline) : Outline :=
  ⟨o.preamble.map (Prod.map φ id), o.blocks.map (·.renumber φ)⟩

namespace Outline

theorem find?_title_renumber (bs : List Block) (title : Text) :
    (bs.map (·.renumber φ)).find? (·.title == title) = (bs.find? (·.title == title)).map (·.renumber φ) := by
  rw [List.find?_map]
  rfl

theorem newTitle_renumber (bs : List Block) (n : Nat) (title : Text) :
    newTitle (bs.map (·.renumber φ)) (φ n) title =
      relabel (Fault.renumber φ) (Prod.map id φ) (newTitle bs n title) := by
  unfold newTitle
  rw [find?_title_renumber]
  split
  · cases bs.find? (·.title == title) <;> rfl
  · rfl

namespace Progress

theorem addHeader_renumber (p : Progress) (start : Nat) (title : Option (Text × Nat)) (headers : List (Text × Text))
    (l : SourceLine) : (p.renumber φ).addHeader (φ start) (title.map (Prod.map id φ)) headers (l.renumber φ) =
      relabel (Fault.renumber φ) (renumber φ) (p.addHeader start title headers l) := by
  unfold addHeader
  rw [show (l.renumber φ).text = l.text from rfl]
  split
  · rfl
  · split
    · cases title with
      | some t => rfl
      | none =>
        refine Eq.trans (congrArg (Except.map _) (newTitle_renumber φ p.blocks l.number _)) ?_
        exact relabel_map fun _ => rfl
    · rfl

theorem readOutside_renumber (pre : List (Nat × Directive)) (bs : List Block) (l : SourceLine) :
    (Progress.renumber φ ⟨pre, bs, .outside⟩).readOutside (l.renumber φ) =
      relabel (Fault.renumber φ) (renumber φ) (readOutside ⟨pre, bs, .outside⟩ l) := by
  unfold readOutside
  rw [show (l.renumber φ).text = l.text from rfl]
  split
  · rfl
  · split
    · split
      · simp [relabel, renumber, Place.renumber, SourceLine.renumber]
      · rfl
      · rfl
    · exact addHeader_renumber φ ⟨pre, bs, .outside⟩ l.number none [] l

theorem readHeader_renumber (pre : List (Nat × Directive)) (bs : List Block) (start : Nat)
    (title : Option (Text × Nat)) (headers : List (Text × Text)) (l : SourceLine) :
    (Progress.renumber φ ⟨pre, bs, .header start title headers⟩).readHeader (φ start) (title.map (Prod.map id φ))
        headers (l.renumber φ) =
      relabel (Fault.renumber φ) (renumber φ)
        (readHeader ⟨pre, bs, .header start title headers⟩ start title headers l) := by
  unfold readHeader
  rw [show (l.renumber φ).text = l.text from rfl]
  split
  · cases title <;> rfl
  · split
    · rfl
    · exact addHeader_renumber φ ⟨pre, bs, .header start title headers⟩ start title headers l

theorem readBody_renumber (pre : List (Nat × Directive)) (bs : List Block) (b : Block) (l : SourceLine) :
    (Progress.renumber φ ⟨pre, bs, .body b⟩).readBody (b.renumber φ) (l.renumber φ) =
      (readBody ⟨pre, bs, .body b⟩ b l).renumber φ := by
  unfold readBody
  rw [show (l.renumber φ).text = l.text from rfl]
  split
  · simp [renumber, Place.renumber]
  · split
    · rfl
    · simp [renumber, Place.renumber, Block.renumber]

theorem step_renumber (p : Progress) (l : SourceLine) :
    (p.renumber φ).step (l.renumber φ) = relabel (Fault.renumber φ) (renumber φ) (p.step l) := by
  obtain ⟨pre, bs, place⟩ := p
  cases place with
  | outside => exact readOutside_renumber φ pre bs l
  | header start title headers => exact readHeader_renumber φ pre bs start title headers l
  | body b => exact congrArg Except.ok (readBody_renumber φ pre bs b l)

end Progress

theorem readLines_renumber (p : Progress) (ls : List SourceLine) :
    readLines (p.renumber φ) (ls.map (·.renumber φ)) =
      relabel (Fault.renumber φ) (Progress.renumber φ) (readLines p ls) :=
  relabel_foldlM (Progress.step_renumber φ) ls p

end Outline

/-! ## Scripts -/

def Failure.renumber (φ : Nat → Nat) : Failure → Failure
  | script fault => .script (fault.renumber φ)
  | node id fault => .node id (fault.renumber φ)
  | f => f

namespace Script

def Outcome.renumber (φ : Nat → Nat) (out : Outcome) : Outcome :=
  { out with notices := out.notices.map (Notice.renumber φ) }

theorem Preamble.step_renumber (p : Preamble) (entry : Nat × Directive) :
    p.step (Prod.map φ id entry) = (p.step entry).relabel φ (Outline.Fault.renumber φ) id := by
  obtain ⟨n, d⟩ := entry
  unfold step
  dsimp only [Prod.map, id]
  split
  · split <;> rfl
  · split
    · split <;> rfl
    · rfl

theorem Preamble.read_renumber (entries : List (Nat × Directive)) :
    Preamble.read (entries.map (Prod.map φ id)) = (Preamble.read entries).relabel φ (Outline.Fault.renumber φ) id :=
  Reading.relabel_foldlM (r := id) (Preamble.step_renumber φ) entries .empty

theorem readBlocks_renumber (strict : Bool) (bs : List Block) :
    readBlocks strict (bs.map (·.renumber φ)) = (readBlocks strict bs).relabel φ (Failure.renumber φ) id := by
  induction bs with
  | nil => rfl
  | cons b bs ih =>
    have hnode : ((b.renumber φ).node strict).mapError (Failure.node b.title) =
        ((b.node strict).mapError (Failure.node b.title)).relabel φ (Failure.renumber φ) id := by
      rw [Block.node_renumber]
      exact Reading.relabel_mapError fun _ => rfl
    rw [List.map_cons, readBlocks, readBlocks]
    refine Eq.trans (congrArg (Reading.andThen · _) hnode) ?_
    refine Reading.relabel_andThen fun n => ?_
    rw [ih]
    exact Reading.relabel_andThen fun _ => rfl

theorem readGraph_renumber (strict : Bool) (o : Outline) :
    readGraph strict (o.renumber φ) = (readGraph strict o).relabel φ (Failure.renumber φ) id := by
  have hpreamble : (Preamble.read (o.renumber φ).preamble).mapError Failure.script =
      ((Preamble.read o.preamble).mapError Failure.script).relabel φ (Failure.renumber φ) id := by
    refine Eq.trans (congrArg (Reading.mapError _) (Preamble.read_renumber φ o.preamble)) ?_
    exact Reading.relabel_mapError fun _ => rfl
  unfold readGraph
  rw [hpreamble, show (o.renumber φ).blocks = o.blocks.map (·.renumber φ) from rfl, readBlocks_renumber]
  exact Reading.relabel_andThen fun _ => Reading.relabel_andThen fun _ => rfl

theorem outcome_renumber (settings : Settings) (o : Outline) :
    (outcome settings (o.renumber φ)).toOption = (outcome settings o).toOption.map (Outcome.renumber φ) := by
  unfold outcome
  rw [readGraph_renumber]
  cases readGraph settings.strictConditions o with
  | mk notices result =>
    cases result with
    | error f => rfl
    | ok g =>
      cases settings.strictReferences with
      | false => rfl
      | true =>
        simp only [Reading.relabel, relabel, Except.bind, id, if_true]
        cases hd : (g.check settings.flagSchema).dangling with
        | nil => simp only [refuseDangling, hd]; rfl
        | cons d ds => simp only [refuseDangling, hd]; rfl

end Script
end DialogueScript
