import DialogueScript.Node.Dispatch
import DialogueScript.Proofs.Node.BranchingGrammar
import DialogueScript.Proofs.Node.Choices
import Mathlib.Data.List.Nodup
import Mathlib.Data.List.ReduceOption
/-!
# The ids of choices and branches

The choices of a menu and the branches of a branching are items with ids. An item keeps the id that is written at it.
An item without one is numbered: it gets the id of the node, what kind of item it is, and its place among all items,
whether or not those have numbers. Nothing compares the ids that come from numbers with those that are written.

Results:
* `Node.nodup_ids_iff`: when items can be told apart by their ids.
* `Menu.ids_of_read`, `Branching.ids_of_read`: the ids of the items that are read.
* `Block.menu_of_payload`, `Block.branching_of_payload`: which reader a node with items comes from.
-/
namespace DialogueScript

/-! ## Numbered items -/

namespace Node

/-- The id of an item that has none written, behind `count` others. -/
def numberedId (stem : Text) (count : Nat) : Text := stem ++ Decimal.digits (count + 1)

/-- The ids of items, of which some have one written. -/
def ids (stem : Text) (tags : List (Option Text)) : List Text :=
  tags.mapIdx fun count tag => tag.getD (numberedId stem count)

theorem numberedId_inj {stem : Text} {i j : Nat} : numberedId stem i = numberedId stem j ↔ i = j := by
  constructor
  · intro h
    have hdigits := List.append_cancel_left h
    have := congrArg Decimal.ofDigits hdigits
    rw [Decimal.ofDigits_digits, Decimal.ofDigits_digits] at this
    omega
  · rintro rfl
    rfl

theorem ids_concat (stem : Text) (tags : List (Option Text)) (tag : Option Text) :
    ids stem (tags ++ [tag]) = ids stem tags ++ [tag.getD (numberedId stem tags.length)] := List.mapIdx_concat

theorem getElem?_ids (stem : Text) (tags : List (Option Text)) (count : Nat) :
    (ids stem tags)[count]? = tags[count]?.map (·.getD (numberedId stem count)) := List.getElem?_mapIdx

/-- An id is written at one item only. -/
theorem eq_of_written {tags : List (Option Text)} (h : tags.reduceOption.Nodup) {i j : Nat} {id : Text}
    (hi : tags[i]? = some (some id)) (hj : tags[j]? = some (some id)) : i = j := by
  have hdistinct : ∀ i j : Nat, i < j → tags[i]? = some (some id) → tags[j]? ≠ some (some id) := by
    intro i j hij hi hj
    obtain ⟨hi', hi⟩ := List.getElem?_eq_some_iff.1 hi
    obtain ⟨hj', hj⟩ := List.getElem?_eq_some_iff.1 hj
    exact List.pairwise_iff_getElem.1 (List.pairwise_filterMap.1 h) i j hi' hj' hij id hi id hj rfl
  rcases Nat.lt_trichotomy i j with hij | hij | hij
  · exact absurd hj (hdistinct i j hij hi)
  · exact hij
  · exact absurd hi (hdistinct j i hij hj)

/-- Equal ids stand at equal places. -/
theorem nodup_ids_iff_inj {stem : Text} {tags : List (Option Text)} :
    (ids stem tags).Nodup ↔ ∀ (i j : Nat) (a b : Option Text), tags[i]? = some a → tags[j]? = some b →
      a.getD (numberedId stem i) = b.getD (numberedId stem j) → i = j := by
  constructor
  · intro h i j a b hi hj hab
    have hlt : i < (ids stem tags).length := by
      rw [ids, List.length_mapIdx]
      exact (List.getElem?_eq_some_iff.1 hi).1
    refine (List.getElem?_inj hlt h).1 ?_
    rw [getElem?_ids, getElem?_ids, hi, hj]
    exact congrArg some hab
  · intro h
    rw [List.nodup_iff_getElem?_ne_getElem?]
    intro i j hij hj he
    rw [ids, List.length_mapIdx] at hj
    have hi : i < tags.length := by omega
    rw [getElem?_ids, getElem?_ids, List.getElem?_eq_getElem hi, List.getElem?_eq_getElem hj] at he
    have := h i j _ _ (List.getElem?_eq_getElem hi) (List.getElem?_eq_getElem hj) (Option.some.inj he)
    omega

/-- Items whose written ids differ have ids that differ exactly when no item without a written id is numbered by an
id that is written. -/
theorem nodup_ids_iff {stem : Text} {tags : List (Option Text)} (h : tags.reduceOption.Nodup) :
    (ids stem tags).Nodup ↔ ∀ count : Nat, tags[count]? = some none → numberedId stem count ∉ tags.reduceOption := by
  rw [nodup_ids_iff_inj]
  constructor
  · intro hinj count hcount hmem
    obtain ⟨i, hi⟩ := List.mem_iff_getElem?.1 (List.reduceOption_mem_iff.1 hmem)
    obtain rfl := hinj i count _ _ hi hcount rfl
    rw [hi] at hcount
    cases hcount
  · intro hfree i j a b hi hj hab
    have hwritten {k : Nat} {id : Text} (hk : tags[k]? = some (some id)) : id ∈ tags.reduceOption :=
      List.reduceOption_mem_iff.2 (List.mem_of_getElem? hk)
    cases a with
    | none =>
      cases b with
      | none => exact numberedId_inj.1 hab
      | some id =>
        obtain rfl : numberedId stem i = id := hab
        exact absurd (hwritten hj) (hfree i hi)
    | some id =>
      cases b with
      | none =>
        obtain rfl : id = numberedId stem j := hab
        exact absurd (hwritten hi) (hfree j hj)
      | some id' =>
        obtain rfl : id = id' := hab
        exact eq_of_written h hi hj

end Node

/-! ## Choices -/

namespace Menu

variable {ctx : Node.Context}

/-- The choices that lines begin, each with its tag if it has one. -/
def tags (ls : List SourceLine) : List (Option Text) := ls.filterMap fun l => (Line.choice? l.text).map (·.2)

/-- The ids that are written at choices. -/
def writtenIds (ls : List SourceLine) : List Text := ls.filterMap fun l => (Line.choice? l.text).bind (·.2)

theorem reduceOption_tags (ls : List SourceLine) : (tags ls).reduceOption = writtenIds ls := by
  unfold tags writtenIds List.reduceOption
  rw [List.filterMap_filterMap]
  congr 1
  funext l
  cases Line.choice? l.text <;> rfl

theorem tags_concat (seen : List SourceLine) (l : SourceLine) :
    tags (seen ++ [l]) = tags seen ++ ((Line.choice? l.text).map (·.2)).toList := by
  rw [tags, List.filterMap_append]
  cases hc : Line.choice? l.text <;> simp [tags, hc]

theorem ids_readLine {s s' : Progress × Nat} {l : SourceLine} {seen : List SourceLine}
    (hs : s.1.choices.map (·.id) = Node.ids (ctx.node ++ "-choice-".toList) (tags seen))
    (h : (readLine ctx s l).result = .ok s') :
    s'.1.choices.map (·.id) = Node.ids (ctx.node ++ "-choice-".toList) (tags (seen ++ [l])) := by
  have hlength : s.1.choices.length = (tags seen).length := by
    rw [← List.length_map (f := fun c : Choice => c.id), hs, Node.ids, List.length_mapIdx]
  rw [(grows_of_readLine h).ids, hs, tags_concat]
  cases Line.choice? l.text with
  | none => simp
  | some c =>
    have hid : s.1.defaultId ctx.node = Node.numberedId (ctx.node ++ "-choice-".toList) (tags seen).length :=
      hlength ▸ rfl
    simp only [Option.map_some, Option.toList_some, hid]
    exact (Node.ids_concat _ _ _).symm

/-- The ids of the choices of a menu. -/
theorem ids_of_read {b : Block} {m : Menu} (h : (read ctx b).result = .ok m) :
    m.choices.map (·.id) = Node.ids (ctx.node ++ "-choice-".toList) (tags b.meaningful) := by
  obtain ⟨s, hfold, hm, -⟩ := run_of_read h
  rw [hm]
  exact Reading.foldlM_history
    (I := fun (seen : List SourceLine) (s : Progress × Nat) =>
      s.1.choices.map (·.id) = Node.ids (ctx.node ++ "-choice-".toList) (tags seen))
    (fun l _ seen s s' hs hstep => ids_readLine hs hstep) rfl hfold

end Menu

/-! ## Branches -/

namespace Branching

variable {ctx : Node.Context}

/-- A line opens a branch. -/
def isOpening (l : SourceLine) : Bool :=
  match Line.command? l.text with
  | some (.ifThen _) | some (.elseIf _) | some .orElse => true
  | _ => false

/-- The id by which a line names a branch. -/
def nameOf? (l : SourceLine) : Option Text :=
  l.directive?.bind fun d => if d.name = blockName then d.get? "id".toList else none

/-- The branches that lines open, each with the id that the next line names it by, if that does. -/
def tags : List SourceLine → List (Option Text)
  | [] => []
  | l :: ls => if isOpening l then ls.head?.bind nameOf? :: tags ls else tags ls

/-- The ids by which branches are named. -/
def writtenIds (ls : List SourceLine) : List Text := ls.filterMap nameOf?

theorem isOpening_of_opens {l : SourceLine} {kind : BranchKind} {cs : Option (List Condition)}
    (h : Opens ctx l kind cs) : isOpening l = true := by
  cases h with
  | ifThen h => simp [isOpening, h]
  | elseIf h => simp [isOpening, h]
  | orElse h => simp [isOpening, h]

theorem nameOf?_of_command? {l : SourceLine} {c : Line.Command} (h : Line.command? l.text = some c) :
    nameOf? l = none := by
  simp [nameOf?, SourceLine.directive?, Line.directive?_of_command? h]

theorem nameOf?_of_opens {l : SourceLine} {kind : BranchKind} {cs : Option (List Condition)}
    (h : Opens ctx l kind cs) : nameOf? l = none := by
  cases h with
  | ifThen hc => exact nameOf?_of_command? hc
  | elseIf hc => exact nameOf?_of_command? hc
  | orElse hc => exact nameOf?_of_command? hc

theorem nameOf?_of_isContent {l : SourceLine} (h : IsContent l) : nameOf? l = none := by
  simp [nameOf?, SourceLine.directive?, h.directive]

theorem nameOf?_of_names {l : SourceLine} {id : Text} (h : Names l id) : nameOf? l = some id := by
  obtain ⟨d, hd, hname, hid, -⟩ := h
  simp only [nameOf?, SourceLine.directive?, hd, Option.bind_some, hname, if_true, hid]

namespace Part

/-- The id by which a part is named. -/
def tag (p : Part) : Option Text := p.name.bind nameOf?

/-- The lines behind the one that opens the branch and the one that names it. -/
def rest (p : Part) : List SourceLine := p.said ++ p.jump.toList

variable {p : Part} {count : Nat} {r : Branch}

theorem tag_of_rel {id : Option Text} (h : Option.Rel Names p.name id) : p.tag = id := by
  unfold tag
  generalize p.name = name at h
  cases h with
  | none => rfl
  | some hl => exact nameOf?_of_names hl

theorem id_of_makes (h : p.Makes ctx count r) :
    r.id = p.tag.getD (Node.numberedId (ctx.node ++ "-block-".toList) count) := by
  obtain ⟨id, hname, hid⟩ := h.names
  rw [hid, tag_of_rel hname]
  rfl

/-- No line behind the one that names the branch opens or names one. -/
theorem of_mem_rest (h : p.Makes ctx count r) : ∀ l ∈ p.rest, isOpening l = false ∧ nameOf? l = none := by
  intro l hl
  rcases List.mem_append.1 hl with hl | hl
  · have hcontent := h.content l hl
    exact ⟨by simp [isOpening, hcontent.command], nameOf?_of_isContent hcontent⟩
  · have hjump := h.jumps
    rw [Option.mem_toList.1 hl] at hjump
    generalize r.next = next at hjump
    cases hjump with
    | some hj => exact ⟨by simp [isOpening, hj.command], nameOf?_of_command? hj.command⟩

theorem lines_eq (p : Part) : p.lines = p.opening :: (p.name.toList ++ p.rest) := rfl

end Part

theorem isOpening_of_names {l : SourceLine} {id : Text} (h : Names l id) : isOpening l = false := by
  obtain ⟨d, hd, -⟩ := h
  cases hc : Line.command? l.text with
  | none => simp [isOpening, hc]
  | some c => rw [Line.directive?_of_command? hc] at hd; cases hd

theorem tags_append_of_not {ls : List SourceLine} (h : ∀ l ∈ ls, isOpening l = false) (ks : List SourceLine) :
    tags (ls ++ ks) = tags ks := by
  induction ls with
  | nil => rfl
  | cons l ls ih =>
    obtain ⟨hl, hls⟩ := List.forall_mem_cons.1 h
    rw [List.cons_append, tags, hl, ← ih hls]
    rfl

theorem head?_append_of_not {ls : List SourceLine} (h : ∀ l ∈ ls, nameOf? l = none) {ks : List SourceLine}
    (hks : ks.head?.bind nameOf? = none) : (ls ++ ks).head?.bind nameOf? = none := by
  cases ls with
  | nil => exact hks
  | cons l ls => exact h l (by simp)

/-- The lines of a part open one branch, with the id that its name says. -/
theorem tags_lines {p : Part} {count : Nat} {r : Branch} (h : p.Makes ctx count r) {ks : List SourceLine}
    (hks : ks.head?.bind nameOf? = none) : tags (p.lines ++ ks) = p.tag :: tags ks := by
  have hrest := p.of_mem_rest h
  have hskip := tags_append_of_not (fun l hl => (hrest l hl).1) ks
  have hopening := isOpening_of_opens h.opens
  obtain ⟨id, hname, -⟩ := h.names
  rw [Part.lines_eq, List.cons_append, tags, hopening, if_pos rfl]
  cases hn : p.name with
  | none =>
    have hhead := head?_append_of_not (fun l hl => (hrest l hl).2) hks
    simp only [Part.tag, hn, Option.toList_none, List.nil_append, hskip, hhead, Option.bind_none]
  | some l =>
    rw [hn] at hname
    have hl : isOpening l = false := by
      cases hname with
      | some hl => exact isOpening_of_names hl
    simp only [Part.tag, hn, Option.toList_some, List.cons_append, List.nil_append, List.head?_cons,
      Option.bind_some, tags, hl, Bool.false_eq_true, if_false, hskip]

theorem writtenIds_lines {p : Part} {count : Nat} {r : Branch} (h : p.Makes ctx count r) :
    writtenIds p.lines = p.tag.toList := by
  have hopening := nameOf?_of_opens h.opens
  have hrest : p.rest.filterMap nameOf? = [] := List.filterMap_eq_nil_iff.2 fun l hl => (p.of_mem_rest h l hl).2
  rw [Part.lines_eq, writtenIds, List.filterMap_cons_none hopening, List.filterMap_append, hrest, List.append_nil]
  cases hn : p.name with
  | none => simp [Part.tag, hn]
  | some l => cases hl : nameOf? l <;> simp [Part.tag, hn, hl]

/-- The lines of parts open a branch for each part, and no id is written but those of the parts. -/
theorem tags_parts {ps : List Part} (h : ∀ p ∈ ps, ∃ count r, p.Makes ctx count r) {l : SourceLine}
    (hl : Line.command? l.text = some .endIf) :
    tags (ps.flatMap Part.lines ++ [l]) = ps.map Part.tag ∧
      writtenIds (ps.flatMap Part.lines ++ [l]) = (ps.map Part.tag).reduceOption := by
  have hname : nameOf? l = none := nameOf?_of_command? hl
  induction ps with
  | nil => simp [tags, writtenIds, isOpening, hl, hname]
  | cons p ps ih =>
    obtain ⟨⟨count, r, hp⟩, hps⟩ := List.forall_mem_cons.1 h
    obtain ⟨htags, hwritten⟩ := ih hps
    have hhead : (ps.flatMap Part.lines ++ [l]).head?.bind nameOf? = none := by
      cases ps with
      | nil => exact hname
      | cons q qs =>
        obtain ⟨_, _, hq⟩ := hps q (by simp)
        exact nameOf?_of_opens hq.opens
    rw [List.flatMap_cons, List.append_assoc]
    refine ⟨by rw [tags_lines hp hhead, htags, List.map_cons], ?_⟩
    rw [writtenIds, List.filterMap_append]
    show writtenIds p.lines ++ writtenIds _ = _
    rw [writtenIds_lines hp, hwritten]
    cases ht : p.tag <;> simp [ht]

theorem Row.makes {ps : List Part} {rs : List Branch} (h : Row ctx ps rs) :
    ∀ p ∈ ps, ∃ count r, p.Makes ctx count r := by
  induction h with
  | nil => simp
  | snoc h hp ih => exact List.forall_mem_append.2 ⟨ih, by simpa using ⟨_, _, hp⟩⟩

theorem Row.ids {ps : List Part} {rs : List Branch} (h : Row ctx ps rs) :
    rs.map (·.id) = Node.ids (ctx.node ++ "-block-".toList) (ps.map Part.tag) := by
  induction h with
  | nil => rfl
  | snoc h hp ih =>
    rw [List.map_append, List.map_append, List.map_singleton, List.map_singleton, Node.ids_concat, ih,
      Part.id_of_makes hp, List.length_map, h.length_eq]

/-- The ids of the branches of a branching, and that all ids that are written are found at their branches. -/
theorem ids_of_read {b : Block} {c : Branching} (h : (read ctx b).result = .ok c) :
    c.branches.map (·.id) = Node.ids (ctx.node ++ "-block-".toList) (tags b.meaningful) ∧
      (tags b.meaningful).reduceOption = writtenIds b.meaningful := by
  obtain ⟨ps, l, hlines, hrow, -, hl⟩ := exists_parts_of_read h
  obtain ⟨htags, hwritten⟩ := tags_parts hrow.makes hl
  rw [hlines, htags, hwritten]
  exact ⟨hrow.ids, rfl⟩

end Branching

/-! ## Nodes -/

namespace Block

variable {b : Block} {ctx : Node.Context}

theorem kind_of_payload {k : Kind} {p : Payload} (h : (b.payload ctx k).result = .ok p) : p.kind = k := by
  cases k with
  | speech => obtain ⟨s, -, rfl⟩ := except_map_eq_ok h; rfl
  | menu => obtain ⟨m, -, he⟩ := Reading.andThen_eq_ok h; cases he; rfl
  | branching => obtain ⟨c, -, he⟩ := Reading.andThen_eq_ok h; cases he; rfl
  | storylet => obtain ⟨s, -, rfl⟩ := except_map_eq_ok h; rfl
  | pool => obtain ⟨p, -, rfl⟩ := except_map_eq_ok h; rfl

theorem menu_of_payload {k : Kind} {m : Menu} (h : (b.payload ctx k).result = .ok (.menu m)) :
    (Menu.read ctx b).result = .ok m := by
  obtain rfl : Kind.menu = k := kind_of_payload h
  obtain ⟨m', hm, he⟩ := Reading.andThen_eq_ok h
  cases he
  exact hm

theorem branching_of_payload {k : Kind} {c : Branching} (h : (b.payload ctx k).result = .ok (.branching c)) :
    (Branching.read ctx b).result = .ok c := by
  obtain rfl : Kind.branching = k := kind_of_payload h
  obtain ⟨c', hc, he⟩ := Reading.andThen_eq_ok h
  cases he
  exact hc

/-- A node is the block that it was read from, by its title and what is read of it. -/
theorem payload_of_node {strict : Bool} {n : Node} (h : (b.node strict).result = .ok n) :
    n.id = b.title ∧ ∃ k, (b.payload ⟨b.title, strict⟩ k).result = .ok n.payload := by
  obtain ⟨kind, -, h⟩ := Reading.andThen_eq_ok h
  obtain ⟨position, -, h⟩ := Reading.andThen_eq_ok h
  obtain ⟨payload, hpayload, h⟩ := Reading.andThen_eq_ok h
  cases h
  exact ⟨rfl, kind, hpayload⟩

end Block
end DialogueScript
