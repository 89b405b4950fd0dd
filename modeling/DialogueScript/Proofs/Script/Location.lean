import DialogueScript.Proofs.Check.Absence
import DialogueScript.Proofs.Script.Renumber
/-!
# Where reading fails

A failure of reading tells a line. Readers carry the numbers of lines along without looking at them, so the line of
a fault can only be one of those that the reader was given: a line of the text while the outline and the preamble are
read, and the title or a line of the body while a block is read. A block ends with the first line behind its title
that ends a body, and its own lines stand between the two.

Results:
* `Block.line_of_node`, `Outline.line_of_readLines`: a fault has one of the lines that were given.
* `Progress.Located`, `Outline.located_step`, `Outline.located_readLines`: where blocks begin and end while lines are
  read.
* `isLocated_of_read`: where every failure of reading a script is.
-/
namespace DialogueScript

/-! ## Numbers that are carried along -/

/-- Leaves the numbers of a list where they are and moves all others. -/
def keepOnly (ns : List Nat) (n : Nat) : Nat := if n ∈ ns then n else n + 1

theorem keepOnly_of_mem {ns : List Nat} {n : Nat} (h : n ∈ ns) : keepOnly ns n = n := if_pos h

theorem mem_of_keepOnly {ns : List Nat} {n : Nat} (h : keepOnly ns n = n) : n ∈ ns := by
  unfold keepOnly at h
  split at h
  · assumption
  · omega

/-- The lines of a block: that of its title, and those of its body. -/
def Block.numbers (b : Block) : List Nat := b.titleLine :: b.body.map (·.number)

theorem map_renumber_keepOnly {ls : List SourceLine} {ns : List Nat} (h : ∀ l ∈ ls, l.number ∈ ns) :
    ls.map (·.renumber (keepOnly ns)) = ls := by
  have hsame : ls.map (·.renumber (keepOnly ns)) = ls.map id :=
    List.map_congr_left fun l hl => by rw [SourceLine.renumber, keepOnly_of_mem (h l hl), id]
  rw [hsame, List.map_id]

theorem Block.renumber_keepOnly (b : Block) : b.renumber (keepOnly b.numbers) = b := by
  have htitle : keepOnly b.numbers b.titleLine = b.titleLine := keepOnly_of_mem (.head _)
  have hbody : b.body.map (·.renumber (keepOnly b.numbers)) = b.body :=
    map_renumber_keepOnly fun l hl => .tail _ (List.mem_map_of_mem hl)
  rw [renumber, htitle, hbody]

/-- A block that is moved to where it is fails at the same line, which was therefore not moved. -/
theorem Block.line_of_node {b : Block} {strict : Bool} {f : NodeFault} (h : (b.node strict).result = .error f) :
    f.line ∈ b.numbers := by
  have hmoved := congrArg Reading.result (b.node_renumber (keepOnly b.numbers) strict)
  rw [b.renumber_keepOnly, Reading.result_relabel, h] at hmoved
  exact mem_of_keepOnly (congrArg NodeFault.line (Except.error.inj hmoved)).symm

namespace Outline

theorem readLines_keepOnly (ls : List SourceLine) : readLines .start ls =
    relabel (Fault.renumber (keepOnly (ls.map (·.number)))) (Progress.renumber (keepOnly (ls.map (·.number))))
      (readLines .start ls) := by
  have hmoved := readLines_renumber (keepOnly (ls.map (·.number))) .start ls
  rwa [map_renumber_keepOnly fun l hl => List.mem_map_of_mem hl] at hmoved

theorem line_of_readLines {ls : List SourceLine} {f : Fault} (h : readLines .start ls = .error f) :
    f.line ∈ ls.map (·.number) := by
  have hmoved := readLines_keepOnly ls
  rw [h] at hmoved
  exact mem_of_keepOnly (congrArg Fault.line (Except.error.inj hmoved)).symm

section Read

variable {ls : List SourceLine} {p : Progress}

theorem renumber_of_readLines (h : readLines .start ls = .ok p) : p.renumber (keepOnly (ls.map (·.number))) = p := by
  have hmoved := readLines_keepOnly ls
  rw [h] at hmoved
  exact (Except.ok.inj hmoved).symm

theorem line_of_mem_preamble (h : readLines .start ls = .ok p) {e : Nat × Directive} (he : e ∈ p.preamble) :
    e.1 ∈ ls.map (·.number) := by
  have hmoved : p.preamble.map (Prod.map (keepOnly (ls.map (·.number))) id) = p.preamble :=
    congrArg Progress.preamble (renumber_of_readLines h)
  have hall := List.map_inj_left.1 (hmoved.trans (List.map_id _).symm)
  exact mem_of_keepOnly (congrArg Prod.fst (hall e he))

end Read

/-! ## Where blocks end -/

/-- The number of the first line behind the line `n` that ends a body. -/
def closing? (ls : List SourceLine) (n : Nat) : Option Nat :=
  (ls.find? fun l => n < l.number && l.text == endMark).map (·.number)

theorem closing?_append {ls : List SourceLine} {n close : Nat} (h : closing? ls n = some close) (l : SourceLine) :
    closing? (ls ++ [l]) n = some close := by
  obtain ⟨m, hm, rfl⟩ := Option.map_eq_some_iff.1 h
  unfold closing?
  rw [List.find?_append, hm]
  rfl

theorem closing?_concat {ls : List SourceLine} {n : Nat} (h : closing? ls n = none) (l : SourceLine) :
    closing? (ls ++ [l]) n = if n < l.number ∧ l.text = endMark then some l.number else none := by
  unfold closing?
  rw [List.find?_append, Option.map_eq_none_iff.1 h]
  by_cases hl : n < l.number ∧ l.text = endMark <;> simp [hl]

theorem closing?_eq_none {ls : List SourceLine} {n : Nat} (h : ∀ l ∈ ls, l.number ≤ n) : closing? ls n = none := by
  unfold closing?
  rw [Option.map_eq_none_iff, List.find?_eq_none]
  intro l hl
  have hle : ¬ n < l.number := Nat.not_lt.2 (h l hl)
  simp [hle]

end Outline

namespace Block
open Outline

/-- Among lines that were read, the block has not ended. -/
structure IsOpen (seen : List SourceLine) (b : Block) : Prop where
  closing : closing? seen b.titleLine = none
  numbers : ∀ n ∈ b.numbers, b.titleLine ≤ n ∧ n ∈ seen.map (·.number)

/-- Among lines that were read, the block has ended behind its own lines. -/
def IsClosed (seen : List SourceLine) (b : Block) : Prop :=
  ∃ close, closing? seen b.titleLine = some close ∧ ∀ n ∈ b.numbers, b.titleLine ≤ n ∧ n < close

variable {seen : List SourceLine} {b : Block} {l : SourceLine}

theorem IsClosed.append (h : b.IsClosed seen) (l : SourceLine) : b.IsClosed (seen ++ [l]) := by
  obtain ⟨close, hclose, hnumbers⟩ := h
  exact ⟨close, closing?_append hclose l, hnumbers⟩

theorem IsOpen.append (h : b.IsOpen seen) (hl : l.text ≠ endMark) : b.IsOpen (seen ++ [l]) := by
  refine ⟨by rw [closing?_concat h.closing, if_neg fun he => hl he.2], fun n hn => ?_⟩
  rw [List.map_append]
  exact ⟨(h.numbers n hn).1, List.mem_append_left _ (h.numbers n hn).2⟩

theorem IsOpen.withHeaders (h : b.IsOpen seen) (headers : List (Text × Text)) :
    IsOpen seen { b with headers := headers } :=
  ⟨h.closing, h.numbers⟩

theorem isOpen_title (hl : ∀ k ∈ seen, k.number < l.number) (title : Text) (headers : List (Text × Text)) :
    IsOpen (seen ++ [l]) ⟨title, l.number, headers, []⟩ := by
  constructor
  · apply closing?_eq_none
    rw [List.forall_mem_append]
    exact ⟨fun k hk => Nat.le_of_lt (hl k hk), by simp⟩
  · intro n hn
    rw [List.mem_singleton.1 hn]
    exact ⟨Nat.le_refl _, by simp⟩

/-- The lines of an open block are in front of the next line. -/
theorem IsOpen.numbers_lt (h : b.IsOpen seen) (hl : ∀ k ∈ seen, k.number < l.number) : ∀ n ∈ b.numbers, n < l.number := by
  intro n hn
  obtain ⟨k, hk, rfl⟩ := List.mem_map.1 (h.numbers n hn).2
  exact hl k hk

theorem IsOpen.line (h : b.IsOpen seen) (hl : ∀ k ∈ seen, k.number < l.number) (hne : l.text ≠ endMark) :
    IsOpen (seen ++ [l]) { b with body := b.body ++ [l] } := by
  have happend := h.append hne
  refine ⟨happend.closing, fun n hn => ?_⟩
  have hn : n ∈ b.numbers ++ [l.number] := by simpa [Block.numbers] using hn
  rcases List.mem_append.1 hn with hn | hn
  · exact happend.numbers n hn
  · rw [List.mem_singleton.1 hn]
    exact ⟨Nat.le_of_lt (h.numbers_lt hl _ (.head _)), by simp⟩

theorem IsOpen.close (h : b.IsOpen seen) (hl : ∀ k ∈ seen, k.number < l.number) (hend : l.text = endMark) :
    b.IsClosed (seen ++ [l]) := by
  have hbefore := h.numbers_lt hl
  refine ⟨l.number, ?_, fun n hn => ⟨(h.numbers n hn).1, hbefore n hn⟩⟩
  rw [closing?_concat h.closing, if_pos ⟨hbefore _ (.head _), hend⟩]

end Block

namespace Outline

/-- The block that is being read, with what was read of it. -/
def Place.block? : Place → Option Block
  | outside => none
  | header _ title headers => title.map fun t => ⟨t.1, t.2, headers, []⟩
  | body b => some b

/-- Among the lines that were read, the blocks that are finished have ended, and the one that is being read has not. -/
structure Progress.Located (seen : List SourceLine) (p : Progress) : Prop where
  closed : ∀ b ∈ p.blocks, b.IsClosed seen
  opened : ∀ b, p.place.block? = some b → b.IsOpen seen

section Located

variable {seen : List SourceLine} {p q : Progress} {l : SourceLine}

theorem located_of_open (hp : p.Located seen) (hblocks : q.blocks = p.blocks)
    (hopen : ∀ b, q.place.block? = some b → b.IsOpen (seen ++ [l])) : q.Located (seen ++ [l]) :=
  ⟨fun b hb => (hp.closed b (hblocks ▸ hb)).append l, hopen⟩

/-- A line that leaves the block as it is does not end it. -/
theorem located_of_same (hp : p.Located seen) (hne : l.text ≠ endMark) (hblocks : q.blocks = p.blocks)
    (hplace : q.place.block? = p.place.block?) : q.Located (seen ++ [l]) :=
  located_of_open hp hblocks fun b hb => (hp.opened b (hplace ▸ hb)).append hne

theorem located_addHeader {start : Nat} {title : Option (Text × Nat)} {headers : List (Text × Text)}
    (hp : Progress.Located seen ⟨p.preamble, p.blocks, .header start title headers⟩)
    (hl : ∀ k ∈ seen, k.number < l.number) (h : p.addHeader start title headers l = .ok q) : q.Located (seen ++ [l]) := by
  unfold Progress.addHeader at h
  split at h
  · cases h
  · next key value hline =>
    have hne : l.text ≠ endMark := by
      intro he
      rw [he] at hline
      cases hline
    split at h
    · split at h
      · cases h
      · obtain ⟨⟨t, n⟩, ht, rfl⟩ := except_map_eq_ok h
        obtain ⟨rfl, rfl, -⟩ := newTitle_eq_ok ht
        refine located_of_open hp rfl fun b hb => ?_
        cases hb
        exact Block.isOpen_title hl _ _
    · cases h
      refine located_of_open hp rfl fun b hb => ?_
      -- the header that is added is none of the lines of the block
      cases title with
      | none => cases hb
      | some t =>
        cases hb
        exact ((hp.opened _ rfl).append hne).withHeaders _

theorem located_step (hp : p.Located seen) (hl : ∀ k ∈ seen, k.number < l.number) (h : p.step l = .ok q) :
    q.Located (seen ++ [l]) := by
  have hblank : l.text.isEmpty → l.text ≠ endMark := by
    intro he hend
    rw [hend] at he
    cases he
  have hcomment : Line.isComment l.text → l.text ≠ endMark := by
    intro hc hend
    rw [hend] at hc
    cases hc
  obtain ⟨pre, bs, place⟩ := p
  cases place with
  | outside =>
    simp only [Progress.step, Progress.readOutside] at h
    split at h
    · next he => cases h; exact located_of_same hp (hblank he) rfl rfl
    · split at h
      · next hc =>
        split at h
        · cases h; exact located_of_same hp (hcomment hc) rfl rfl
        · cases h
        · cases h; exact located_of_same hp (hcomment hc) rfl rfl
      · exact located_addHeader ⟨hp.closed, fun b hb => by cases hb⟩ hl h
  | header start title headers =>
    simp only [Progress.step, Progress.readHeader] at h
    split at h
    · next hmark =>
      have hne : l.text ≠ endMark := by rw [hmark]; decide
      split at h
      · cases h; exact located_of_same hp hne rfl rfl
      · cases h
    · split at h
      · next hidle =>
        cases h
        exact located_of_same hp ((Bool.or_eq_true _ _ ▸ hidle).elim hblank hcomment) rfl rfl
      · exact located_addHeader hp hl h
  | body b =>
    have hopen : b.IsOpen seen := hp.opened b rfl
    simp only [Progress.step, Progress.readBody] at h
    split at h
    · next hend =>
      cases h
      refine ⟨?_, fun c hc => by cases hc⟩
      rw [List.forall_mem_append]
      exact ⟨fun c hc => (hp.closed c hc).append l, by simpa using hopen.close hl hend⟩
    · next hne =>
      split at h
      · cases h; exact located_of_same hp hne rfl rfl
      · cases h
        refine located_of_open hp rfl fun c hc => ?_
        cases hc
        exact hopen.line hl hne

end Located

theorem located_readLines {seen : List SourceLine} {n : Nat} {ls : List Text} {p q : Progress} (hp : p.Located seen)
    (hseen : ∀ k ∈ seen, k.number < n) (h : readLines p (numbered n ls) = .ok q) : q.Located (seen ++ numbered n ls) := by
  induction ls generalizing seen n p with
  | nil =>
    cases h
    rwa [numbered, List.append_nil]
  | cons t ls ih =>
    rw [numbered, readLines_cons] at h
    obtain ⟨p', hstep, h⟩ := except_bind_eq_ok h
    have hseen' : ∀ k ∈ seen ++ [⟨n, Text.trim t⟩], k.number < n + 1 := by
      rw [List.forall_mem_append]
      exact ⟨fun k hk => Nat.lt_succ_of_lt (hseen k hk), by simp⟩
    have := ih (located_step hp hseen hstep) hseen' h
    rwa [List.append_assoc] at this

/-- Each block of an outline ends in the text, and its lines stand between its title and its end. -/
theorem isClosed_of_read {s : Text} {o : Outline} (h : read s = .ok o) :
    ∀ b ∈ o.blocks, b.IsClosed (numbered 1 (Text.lines s)) := by
  have hstart : Progress.Located [] .start := ⟨nofun, nofun⟩
  exact (located_readLines hstart (by simp) (read_eq_ok h)).closed

/-! ## Faults of outlines -/

theorem bounds_of_mem_numbers {ls : List Text} {n : Nat} (h : n ∈ (numbered 1 ls).map (·.number)) :
    1 ≤ n ∧ n ≤ ls.length := by
  obtain ⟨l, hl, rfl⟩ := List.mem_map.1 h
  have := bounds_of_mem_numbered hl
  omega

/-- A text without an outline has a fault on one of its lines. -/
theorem line_of_read {s : Text} {f : Fault} (h : read s = .error f) : 1 ≤ f.line ∧ f.line ≤ (Text.lines s).length := by
  unfold read ofLines at h
  cases hp : readLines .start (numbered 1 (Text.lines s)) with
  | error e =>
    rw [hp] at h
    cases h
    exact bounds_of_mem_numbers (line_of_readLines hp)
  | ok p =>
    rw [hp] at h
    change p.finish _ = _ at h
    unfold Progress.finish at h
    split at h
    · cases h
    · next start title headers hplace =>
      cases h
      have hmoved := congrArg Progress.place (renumber_of_readLines hp)
      rw [Progress.renumber, hplace] at hmoved
      injection hmoved with hstart
      exact bounds_of_mem_numbers (mem_of_keepOnly hstart)
    · next b hplace =>
      cases h
      -- a body was begun, so there are lines
      have hlines : Text.lines s ≠ [] := by
        intro hnil
        rw [hnil] at hp
        cases hp
        cases hplace
      exact ⟨List.length_pos_iff.2 hlines, Nat.le_refl _⟩

end Outline

/-! ## Failures of scripts -/

/-- Where a failure of reading a text is. One of the outline or the preamble is on a line of the text. One of a node
is between the title, which may be meant, and the end of the only block with that title. There are no others. -/
def Failure.IsLocated (s : Text) : Failure → Prop
  | script fault => 1 ≤ fault.line ∧ fault.line ≤ (Text.lines s).length
  | node title fault => ∃ o b close, Outline.read s = .ok o ∧ o.blocks.filter (·.title == title) = [b] ∧
      Outline.closing? (Outline.numbered 1 (Text.lines s)) b.titleLine = some close ∧
      b.titleLine ≤ fault.line ∧ fault.line < close
  | condition _ | unknownKind .. | badSpeaker _ | notWritable _ | json => False

namespace Script

theorem Preamble.line_of_read {entries : List (Nat × Directive)} {f : Outline.Fault}
    (h : (Preamble.read entries).result = .error f) : f.line ∈ entries.map (·.1) := by
  let φ := keepOnly (entries.map (·.1))
  have hsame : entries.map (Prod.map φ id) = entries.map id :=
    List.map_congr_left fun e he => Prod.ext (keepOnly_of_mem (List.mem_map_of_mem he)) rfl
  have hmoved := congrArg Reading.result (Preamble.read_renumber φ entries)
  rw [hsame, List.map_id, Reading.result_relabel, h] at hmoved
  exact mem_of_keepOnly (congrArg Outline.Fault.line (Except.error.inj hmoved)).symm

/-- Blocks fail with a fault of one of them, under its title. -/
theorem error_of_readBlocks {strict : Bool} {bs : List Block} {f : Failure}
    (h : (readBlocks strict bs).result = .error f) : ∃ b ∈ bs, ∃ fault, f = .node b.title fault ∧ (b.node strict).result = .error fault := by
  induction bs with
  | nil => cases h
  | cons b bs ih =>
    rw [readBlocks] at h
    rcases Reading.andThen_eq_error h with h | ⟨n, -, h⟩
    · obtain ⟨fault, hfault, rfl⟩ := Reading.mapError_eq_error h
      exact ⟨b, by simp, fault, rfl, hfault⟩
    · rcases Reading.andThen_eq_error h with h | ⟨ns, -, h⟩
      · obtain ⟨c, hc, hfault⟩ := ih h
        exact ⟨c, by simp [hc], hfault⟩
      · cases h

/-- A fault on one of the lines of a block is located. -/
theorem isLocated_of_mem {s : Text} {o : Outline} (ho : Outline.read s = .ok o) {b : Block} (hb : b ∈ o.blocks)
    {fault : NodeFault} (hline : fault.line ∈ b.numbers) : Failure.IsLocated s (.node b.title fault) := by
  obtain ⟨close, hclose, hnumbers⟩ := Outline.isClosed_of_read ho b hb
  have hfilter := filter_key (Outline.sound_read ho).1 hb
  exact ⟨o, b, close, ho, hfilter, hclose, hnumbers fault.line hline⟩

theorem titleLine_eq {bs : List Block} (hd : (bs.map Block.title).Nodup) {b : Block} (hb : b ∈ bs) :
    titleLine bs b.title = b.titleLine := by
  unfold titleLine
  rw [← List.head?_filter, filter_key hd hb]
  rfl

section Located

variable {s : Text} {o : Outline} {f : Failure}

theorem isLocated_of_readGraph (ho : Outline.read s = .ok o) {strict : Bool}
    (h : (readGraph strict o).result = .error f) : f.IsLocated s := by
  rcases Reading.andThen_eq_error h with h | ⟨p, -, h⟩
  · obtain ⟨fault, hfault, rfl⟩ := Reading.mapError_eq_error h
    obtain ⟨e, he, hline⟩ := List.mem_map.1 (Preamble.line_of_read hfault)
    have hnumber := Outline.bounds_of_mem_numbers (Outline.line_of_mem_preamble (Outline.read_eq_ok ho) he)
    rwa [hline] at hnumber
  · rcases Reading.andThen_eq_error h with h | ⟨ns, -, h⟩
    · obtain ⟨b, hb, fault, rfl, hfault⟩ := error_of_readBlocks h
      exact isLocated_of_mem ho hb (Block.line_of_node hfault)
    · cases h

/-- A reference that is refused is one of a node, and is reported at the title of its block. -/
theorem isLocated_of_refuseDangling (ho : Outline.read s = .ok o) {strict : Bool} {g : Graph}
    (hg : (readGraph strict o).result = .ok g) {schema : Option Check.Schema}
    (h : refuseDangling o.blocks (g.check schema) = .error f) : f.IsLocated s := by
  obtain ⟨hsound, hkeys, -⟩ := sound_readGraph ho hg
  unfold refuseDangling at h
  split at h
  · next source target rest hdangling =>
    cases h
    have hmem : (source, target) ∈ (g.check schema).dangling := by rw [hdangling]; exact .head _
    obtain ⟨q, hq, hreference⟩ := List.mem_filterMap.1 hmem
    have hproblem : .danglingReference source target ∈ g.problems := by
      split at hreference
      · cases hreference
        exact hq
      · cases hreference
    obtain ⟨⟨n, hn, rfl, -⟩, -⟩ := Graph.isJustified_of_mem hproblem
    have hkey : n.id ∈ o.blocks.map Block.title := by
      rw [← hkeys]
      exact List.mem_map_of_mem (Graph.mem_entries_of_mem_nodes hsound.keys hn)
    obtain ⟨b, hb, htitle⟩ := List.mem_map.1 hkey
    rw [← htitle, titleLine_eq (Outline.sound_read ho).1 hb]
    exact isLocated_of_mem ho hb (.head _)
  · cases h

theorem isLocated_of_outcome {settings : Settings} (ho : Outline.read s = .ok o) (h : outcome settings o = .error f) :
    f.IsLocated s := by
  unfold outcome at h
  cases hg : (readGraph settings.strictConditions o).result with
  | error e =>
    rw [hg] at h
    cases h
    exact isLocated_of_readGraph ho hg
  | ok g =>
    rw [hg] at h
    change Except.map _ (if settings.strictReferences = true then _ else _) = _ at h
    split at h
    · cases hrefuse : refuseDangling o.blocks (g.check settings.flagSchema) with
      | error e =>
        rw [hrefuse] at h
        cases h
        exact isLocated_of_refuseDangling ho hg hrefuse
      | ok u =>
        rw [hrefuse] at h
        cases h
    · cases h

end Located

/-- Every failure of reading a script is located: on a line of the text, or between the title and the end of the one
block that it names. -/
theorem isLocated_of_read {settings : Settings} {s : Text} {f : Failure} (h : read settings s = .error f) :
    f.IsLocated s := by
  rw [read_eq] at h
  cases ho : Outline.read s with
  | error fault =>
    rw [ho] at h
    cases h
    exact Outline.line_of_read ho
  | ok o =>
    rw [ho] at h
    exact isLocated_of_outcome ho h

/-- A script with a second node that opens a bracket and does not close it. -/
def bracketScript : Text := "title: a\n---\nBob: Hi\n===\n\ntitle: b\n---\n<<if $x>>\n-> Go\n<<jump a>>\n===\n".toList

theorem isLocated_of_read_bracket : read .standard bracketScript = .error (.node ['b'] ⟨8, .notEnded⟩) ∧
    Failure.IsLocated bracketScript (.node ['b'] ⟨8, .notEnded⟩) := by
  have hread : read .standard bracketScript = .error (.node ['b'] ⟨8, .notEnded⟩) := by with_unfolding_all rfl
  exact ⟨hread, isLocated_of_read hread⟩

end Script
end DialogueScript
