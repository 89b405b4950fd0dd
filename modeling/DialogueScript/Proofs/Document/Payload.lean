import DialogueScript.Document.Payload
import DialogueScript.Proofs.Check.Payload
import DialogueScript.Proofs.Json.Record
/-!
# Payloads are read back from documents

Every record of a payload is laid out field by field, so it is read back from its canonical form when its fields
are. Only a number may be lost on the way: one that is not finite is written as nothing.

Results:
* `Payload.kindUnder?_eq_ofTag?`: payloads are read under the tags of the kinds, and under no others.
* `Payload.ofJson?_eq_some_iff`: what is read as a payload.
* `Payload.restores`: a payload is read back from its canonical form.
* `Payload.isFinite_of_ofJson?`: a payload that was read holds finite numbers only.
-/
namespace DialogueScript
open Json

/-! ## Conditions -/

theorem Literal.restores {l : Literal} (h : l.isFinite) : Restores Literal.ofJson? l.toJson l := by
  cases l with
  | bool b => exact ⟨rfl, rfl⟩
  | text t => exact ⟨rfl, rfl⟩
  | number x =>
    have hx : x.isFinite := h
    have hjson : Literal.toJson (.number x) = .float x := if_pos hx
    have hfloat : float? (.float x) = some x := by rw [float?, Option.filter_some, if_pos hx]
    rw [hjson]
    refine ⟨rfl, ?_⟩
    show (float? (.float x)).map Literal.number = _
    rw [hfloat]
    rfl

theorem Condition.toJson_eq (c : Condition) : c.toJson = ofFields ["flag", "operator", "value"]
    [some (.string c.flag), some (.string c.operator.name), c.literal?.map Literal.toJson] := by
  rw [Condition.toJson, whenSome_eq]
  rfl

theorem Condition.restores (place : Place) {c : Condition} (h : c.isFinite) :
    Restores (Condition.ofJson? place) c.toJson c := by
  have hflag := (restores_string c.flag).required
  have hoperator := (restores_named place (Operator.ofName?_name c.operator)).required
  have hliteral : RestoresField _ (c.literal?.map Literal.toJson) c.literal? :=
    restores_optional rfl fun l hl => Literal.restores (Condition.isFinite_iff.1 h l hl)
  rw [Condition.toJson_eq]
  refine restores_ofFields (by decide) rfl ?_ fun j hj => ?_
  · simp only [List.forall_mem_cons]
    exact ⟨hflag.isReadable, hoperator.isReadable, hliteral.isReadable, by simp⟩
  · rw [Condition.ofJson?, hj]
    simp only [List.map_cons, List.map_nil]
    rw [hflag.read_canonical, hoperator.read_canonical, hliteral.read_canonical]
    rfl

/-! ## Choices and branches -/

theorem Choice.toJson_eq (c : Choice) : c.toJson = ofFields ["id", "text", "nextNodeId", "conditions", "setFlags"]
    [some (.string c.id), some (.string c.text), c.next.map .string, listed Condition.toJson c.conditions,
      listed .string c.setFlags] := by
  rw [Choice.toJson, whenSome_eq, whenFull_eq, whenFull_eq]
  rfl

theorem Choice.restores (place : Place) {c : Choice} (h : ∀ d ∈ c.conditions, d.isFinite) :
    Restores (Choice.ofJson? place) c.toJson c := by
  have hid := (restores_string c.id).required
  have htext := (restores_string c.text).required
  have hnext := restores_optional (o := c.next) rfl fun t _ => restores_string t
  have hconditions := restores_listed c.conditions fun d hd => Condition.restores place (h d hd)
  have hflags := restores_listed c.setFlags fun t _ => restores_string t
  rw [Choice.toJson_eq]
  refine restores_ofFields (by decide) rfl ?_ fun j hj => ?_
  · simp only [List.forall_mem_cons]
    exact ⟨hid.isReadable, htext.isReadable, hnext.isReadable, hconditions.isReadable, hflags.isReadable, by simp⟩
  · rw [Choice.ofJson?, hj]
    simp only [List.map_cons, List.map_nil]
    rw [hid.read_canonical, htext.read_canonical, hnext.read_canonical, hconditions.read_canonical,
      hflags.read_canonical]
    rfl

theorem Branch.toJson_eq (b : Branch) :
    b.toJson = ofFields ["id", "type", "condition", "content", "speaker", "nextNodeId"]
      [some (.string b.id), some (.string b.kind.name), b.condition.map (ofList Condition.toJson),
        some (.string b.content), b.speaker.map .string, b.next.map .string] := by
  rw [Branch.toJson, whenSome_eq, whenSome_eq, whenSome_eq]
  rfl

theorem Branch.restores {b : Branch} (h : ∀ d ∈ b.conditions, d.isFinite) : Restores Branch.ofJson? b.toJson b := by
  have hid := (restores_string b.id).required
  have hkind := (restores_named .tagged (BranchKind.ofName?_name b.kind)).required
  have hcondition := restores_optional (o := b.condition) rfl fun cs hcs =>
    restores_list cs fun d hd => Condition.restores .tagged (h d (by simpa [conditions, Option.mem_def.1 hcs] using hd))
  have hcontent := (restores_string b.content).withDefault []
  have hspeaker := restores_optional (o := b.speaker) rfl fun t _ => restores_string t
  have hnext := restores_optional (o := b.next) rfl fun t _ => restores_string t
  rw [Branch.toJson_eq]
  refine restores_ofFields (by decide) rfl ?_ fun j hj => ?_
  · simp only [List.forall_mem_cons]
    exact ⟨hid.isReadable, hkind.isReadable, hcondition.isReadable, hcontent.isReadable, hspeaker.isReadable,
      hnext.isReadable, by simp⟩
  · rw [Branch.ofJson?, hj]
    simp only [List.map_cons, List.map_nil]
    rw [hid.read_canonical, hkind.read_canonical, hcondition.read_canonical, hcontent.read_canonical,
      hspeaker.read_canonical, hnext.read_canonical]
    rfl

/-! ## Members of pools -/

theorem restores_weight (w : UInt32) : Restores weight? (.int w.toNat) w := by
  have hlt : w.toNat < 2 ^ 32 := w.toNat_lt
  refine ⟨rfl, ?_⟩
  show weight? (.int w.toNat) = some w
  rw [weight?, if_pos (by omega), Int.toNat_natCast, UInt32.ofNat_toNat]

theorem PoolMember.restores (m : PoolMember) : Restores PoolMember.ofJson? m.toJson m := by
  have htemplate := (restores_string m.template).required
  have hweight := (restores_weight m.weight).withDefault 1
  show Restores _ (ofFields ["templateId", "weight"] [some (.string m.template), some (.int m.weight.toNat)]) m
  refine restores_ofFields (by decide) rfl ?_ fun j hj => ?_
  · simp only [List.forall_mem_cons]
    exact ⟨htemplate.isReadable, hweight.isReadable, by simp⟩
  · rw [PoolMember.ofJson?, hj]
    simp only [List.map_cons, List.map_nil]
    rw [htemplate.read_canonical, hweight.read_canonical]
    rfl

/-! ## Attributes -/

/-- The field of attributes, which is left out when there are none. -/
def attributesField (d : Dictionary Text) : Option Json := if d.isEmpty then none else some (ofDictionary .string d)

theorem attributesMember_eq (d : Dictionary Text) : attributesMember d = field "attributes" (attributesField d) := by
  unfold attributesMember attributesField
  split <;> rfl

theorem restores_attributes (d : Dictionary Text) :
    RestoresField (withDefault .empty (dictionary? string?)) (attributesField d) d := by
  unfold attributesField
  split
  · next h =>
    have hd : d = .empty := by
      obtain ⟨entries, increasing⟩ := d
      obtain rfl := List.isEmpty_iff.1 h
      rfl
    rw [hd]
    exact ⟨nofun, rfl⟩
  · exact (restores_dictionary d).withDefault .empty

/-! ## Payloads -/

namespace Payload

/-! ## Tags -/

/-- A tag of the one table is looked up in the other one; any other tag is in neither. -/
theorem kindUnder?_eq_ofTag? (tag : Text) : kindUnder? tag = Kind.ofTag? tag := by
  by_cases h : tag ∈ tags.map (·.1)
  · have hagree : ∀ t ∈ tags.map (·.1), kindUnder? t = Kind.ofTag? t := by decide
    exact hagree tag h
  · have hnone : kindUnder? tag = none := by
      rw [kindUnder?, Option.map_eq_none_iff, List.find?_eq_none]
      intro e he heq
      exact h (List.mem_map.2 ⟨e, he, beq_iff_eq.1 heq⟩)
    rw [hnone]
    simp only [tags, List.map_cons, List.map_nil, List.mem_cons, not_or] at h
    simp only [Kind.ofTag?, h, or_self, if_false]

theorem kindUnder?_tag (k : Kind) : kindUnder? k.tag = some k := (kindUnder?_eq_ofTag? k.tag).trans (Kind.ofTag?_tag k)

theorem read_eq_ok_iff {j : Json} {p : Payload} : read j = .ok p ↔ ofJson? j = some p := by
  unfold ofJson?
  cases read j <;> simp [Except.toOption]

/-- A payload is read under its tag, from its fields. -/
theorem ofJson?_eq_some_iff {j : Json} {p : Payload} : ofJson? j = some p ↔ j.isReadable ∧
    ∃ tag record kind, tagged? j = some (tag, record) ∧ kindUnder? tag = some kind ∧ ofRecord? record kind = some p := by
  rw [← read_eq_ok_iff]
  constructor
  · intro h
    unfold read at h
    split at h
    · next hj =>
      split at h
      · cases h
      · next tag record htagged =>
        split at h
        · cases h
        · next kind hkind =>
          split at h
          · cases h
          · next hp => cases h; exact ⟨hj, tag, record, kind, htagged, hkind, hp⟩
    · cases h
  · rintro ⟨hj, tag, record, kind, htagged, hkind, hp⟩
    rw [read, if_pos hj, htagged]
    simp only [hkind, hp]

/-! ## Fields -/

/-- A payload is read back when its own fields are; its tag is found in front of them. -/
theorem restores_of_fields {p : Payload} (names : List String) (values : List (Option Json))
    (hp : p.jsonFields = List.zipWith field names values) (hd : (("type" :: names).map String.toList).Nodup)
    (hl : names.length = values.length) (hreadable : ∀ v ∈ values, ∀ j ∈ v, j.isReadable)
    (hread : ∀ j, fields? names j = some (values.map (Option.map canonical)) → ofRecord? j p.kind = some p) :
    Restores ofJson? p.toJson p := by
  have hjson : p.toJson = ofFields ("type" :: names) (some (.string p.kind.tag) :: values) := by
    rw [toJson, hp]
    rfl
  have hreadable' : (ofFields ("type" :: names) (some (.string p.kind.tag) :: values)).isReadable := by
    apply isReadable_ofFields
    rw [List.forall_mem_cons]
    exact ⟨fun j hj => Option.some.inj hj ▸ rfl, hreadable⟩
  have hl' : ("type" :: names).length = (some (Json.string p.kind.tag) :: values).length := by simpa using hl
  have hfields := fields?_ofFields hd hl'
  rw [hjson]
  refine ⟨hreadable', ?_⟩
  have hcanonical := isReadable_canonical hreadable'
  generalize hj : (ofFields ("type" :: names) (some (.string p.kind.tag) :: values)).canonical = j at hfields hcanonical
  obtain ⟨ms, rfl⟩ : ∃ ms, j = .object ms := ⟨_, hj.symm.trans (canonical_object _)⟩
  obtain ⟨htag, hfields⟩ := fields?_cons_eq_some hfields
  have htagged : tagged? (.object ms) = some (p.kind.tag, .object ms) := by
    rw [tagged?, htag]
    rfl
  exact ofJson?_eq_some_iff.2 ⟨hcanonical, _, _, _, htagged, kindUnder?_tag p.kind, hread _ hfields⟩

theorem restores_speech (s : Speech) : Restores ofJson? (toJson (.speech s)) (.speech s) := by
  have hspeaker := (restores_string s.speaker).required
  have hcontent := (restores_string s.content).required
  have hnext := restores_optional (o := s.next) rfl fun t _ => restores_string t
  have hflags := restores_listed s.setFlags fun t _ => restores_string t
  refine restores_of_fields ["speaker", "content", "nextNodeId", "setFlags"]
    [some (.string s.speaker), some (.string s.content), s.next.map .string, listed .string s.setFlags]
    ?_ (by decide) rfl ?_ fun j hj => ?_
  · rw [jsonFields, Speech.jsonFields, whenSome_eq, whenFull_eq]
    rfl
  · simp only [List.forall_mem_cons]
    exact ⟨hspeaker.isReadable, hcontent.isReadable, hnext.isReadable, hflags.isReadable, by simp⟩
  · show (Speech.ofJson? j).map speech = _
    rw [Speech.ofJson?, hj]
    simp only [List.map_cons, List.map_nil]
    rw [hspeaker.read_canonical, hcontent.read_canonical, hnext.read_canonical, hflags.read_canonical]
    rfl

theorem restores_menu {m : Menu} (h : (menu m).isFinite) : Restores ofJson? (toJson (.menu m)) (.menu m) := by
  have hchoices := (restores_list m.choices fun c hc =>
    Choice.restores .tagged (List.all_eq_true.1 (List.all_eq_true.1 h c hc))).required
  refine restores_of_fields ["choices"] [some (ofList Choice.toJson m.choices)] rfl (by decide) rfl ?_ fun j hj => ?_
  · simp only [List.forall_mem_cons]
    exact ⟨hchoices.isReadable, by simp⟩
  · show (Menu.ofJson? j).map menu = _
    rw [Menu.ofJson?, hj]
    simp only [List.map_cons, List.map_nil]
    rw [hchoices.read_canonical]
    rfl

theorem restores_branching {b : Branching} (h : (branching b).isFinite) :
    Restores ofJson? (toJson (.branching b)) (.branching b) := by
  have hbranches := (restores_list b.branches fun r hr =>
    Branch.restores (List.all_eq_true.1 (List.all_eq_true.1 h r hr))).required
  refine restores_of_fields ["blocks"] [some (ofList Branch.toJson b.branches)] rfl (by decide) rfl ?_ fun j hj => ?_
  · simp only [List.forall_mem_cons]
    exact ⟨hbranches.isReadable, by simp⟩
  · show (Branching.ofJson? j).map branching = _
    rw [Branching.ofJson?, hj]
    simp only [List.map_cons, List.map_nil]
    rw [hbranches.read_canonical]
    rfl

theorem restores_storylet (s : Storylet) : Restores ofJson? (toJson (.storylet s)) (.storylet s) := by
  have htemplate := (restores_string s.template).required
  have hentry := (restores_named .tagged (Storylet.ofName?_entry s.entry)).withDefault .start
  have hentryNode := restores_optional (o := s.entryNode) rfl fun t _ => restores_string t
  have hexit := (restores_named .tagged (Storylet.ofName?_exit s.exit)).withDefault .node
  have hexitNode := restores_optional (o := s.exitNode) rfl fun t _ => restores_string t
  have hattributes := restores_attributes s.attributes
  refine restores_of_fields
    ["templateId", "entryPolicy", "entryNodeId", "returnPolicy", "returnNodeId", "attributes"]
    [some (.string s.template), some (.string s.entry.name), s.entryNode.map .string, some (.string s.exit.name),
      s.exitNode.map .string, attributesField s.attributes]
    ?_ (by decide) rfl ?_ fun j hj => ?_
  · rw [jsonFields, Storylet.jsonFields, whenSome_eq, whenSome_eq, attributesMember_eq]
    rfl
  · simp only [List.forall_mem_cons]
    exact ⟨htemplate.isReadable, hentry.isReadable, hentryNode.isReadable, hexit.isReadable, hexitNode.isReadable,
      hattributes.isReadable, by simp⟩
  · show (Storylet.ofJson? j).map storylet = _
    rw [Storylet.ofJson?, hj]
    simp only [List.map_cons, List.map_nil]
    rw [htemplate.read_canonical, hentry.read_canonical, hentryNode.read_canonical, hexit.read_canonical,
      hexitNode.read_canonical, hattributes.read_canonical]
    rfl

theorem restores_pool (p : Pool) : Restores ofJson? (toJson (.pool p)) (.pool p) := by
  have hpool := (restores_string p.pool).required
  have hselection := (restores_named .tagged (Pool.ofName?_selection p.selection)).withDefault .random
  have hmembers := (restores_list p.members fun m _ => PoolMember.restores m).withDefault []
  have hnext := restores_optional (o := p.next) rfl fun t _ => restores_string t
  have hattributes := restores_attributes p.attributes
  refine restores_of_fields ["poolId", "selectionMode", "members", "nextNodeId", "attributes"]
    [some (.string p.pool), some (.string p.selection.name), some (ofList PoolMember.toJson p.members),
      p.next.map .string, attributesField p.attributes]
    ?_ (by decide) rfl ?_ fun j hj => ?_
  · rw [jsonFields, Pool.jsonFields, whenSome_eq, attributesMember_eq]
    rfl
  · simp only [List.forall_mem_cons]
    exact ⟨hpool.isReadable, hselection.isReadable, hmembers.isReadable, hnext.isReadable, hattributes.isReadable,
      by simp⟩
  · show (Pool.ofJson? j).map pool = _
    rw [Pool.ofJson?, hj]
    simp only [List.map_cons, List.map_nil]
    rw [hpool.read_canonical, hselection.read_canonical, hmembers.read_canonical, hnext.read_canonical,
      hattributes.read_canonical]
    rfl

/-- A payload with finite numbers is read back from its canonical form. -/
theorem restores {p : Payload} (h : p.isFinite) : Restores ofJson? p.toJson p := by
  cases p with
  | speech s => exact restores_speech s
  | menu m => exact restores_menu h
  | branching b => exact restores_branching h
  | storylet s => exact restores_storylet s
  | pool p => exact restores_pool p

end Payload

/-! ## What was read is finite -/

theorem Literal.isFinite_of_ofJson? {j : Json} {l : Literal} (h : Literal.ofJson? j = some l) : l.isFinite := by
  unfold Literal.ofJson? at h
  split at h
  · cases h; rfl
  · cases h; rfl
  · obtain ⟨x, hx, rfl⟩ := Option.map_eq_some_iff.1 h
    show x.isFinite = true
    unfold float? at hx
    split at hx
    · exact (Option.filter_eq_some_iff.1 hx).2
    · exact (Option.filter_eq_some_iff.1 hx).2
    · cases hx

theorem Condition.isFinite_of_ofJson? {place : Place} {j : Json} {c : Condition}
    (h : Condition.ofJson? place j = some c) : c.isFinite := by
  unfold Condition.ofJson? at h
  split at h
  · obtain ⟨flag, -, h⟩ := Option.bind_eq_some_iff.1 h
    obtain ⟨operator, -, h⟩ := Option.bind_eq_some_iff.1 h
    obtain ⟨literal, hliteral, h⟩ := Option.bind_eq_some_iff.1 h
    cases h
    rw [Condition.isFinite_iff]
    intro l hl
    obtain rfl := Option.mem_def.1 hl
    obtain ⟨k, hk⟩ := exists_of_optional hliteral
    exact Literal.isFinite_of_ofJson? hk
  · cases h

theorem Choice.isFinite_of_ofJson? {place : Place} {j : Json} {c : Choice} (h : Choice.ofJson? place j = some c) :
    c.conditions.all Condition.isFinite := by
  unfold Choice.ofJson? at h
  split at h
  · obtain ⟨id, -, h⟩ := Option.bind_eq_some_iff.1 h
    obtain ⟨text, -, h⟩ := Option.bind_eq_some_iff.1 h
    obtain ⟨next, -, h⟩ := Option.bind_eq_some_iff.1 h
    obtain ⟨conditions, hconditions, h⟩ := Option.bind_eq_some_iff.1 h
    obtain ⟨flags, -, h⟩ := Option.bind_eq_some_iff.1 h
    cases h
    rw [List.all_eq_true]
    intro d hd
    obtain ⟨k, hk⟩ := exists_of_listField hconditions d hd
    exact Condition.isFinite_of_ofJson? hk
  · cases h

theorem Branch.isFinite_of_ofJson? {j : Json} {b : Branch} (h : Branch.ofJson? j = some b) :
    b.conditions.all Condition.isFinite := by
  unfold Branch.ofJson? at h
  split at h
  · obtain ⟨id, -, h⟩ := Option.bind_eq_some_iff.1 h
    obtain ⟨kind, -, h⟩ := Option.bind_eq_some_iff.1 h
    obtain ⟨condition, hcondition, h⟩ := Option.bind_eq_some_iff.1 h
    obtain ⟨content, -, h⟩ := Option.bind_eq_some_iff.1 h
    obtain ⟨speaker, -, h⟩ := Option.bind_eq_some_iff.1 h
    obtain ⟨next, -, h⟩ := Option.bind_eq_some_iff.1 h
    cases h
    rw [List.all_eq_true]
    intro d hd
    cases condition with
    | none => cases hd
    | some cs =>
      obtain ⟨k, hk⟩ := exists_of_optional hcondition
      obtain ⟨i, hi⟩ := exists_of_list? hk d hd
      exact Condition.isFinite_of_ofJson? hi
  · cases h

namespace Payload

theorem isFinite_of_menu {j : Json} {m : Menu} (h : Menu.ofJson? j = some m) : (menu m).isFinite := by
  unfold Menu.ofJson? at h
  split at h
  · obtain ⟨choices, hchoices, h⟩ := Option.bind_eq_some_iff.1 h
    cases h
    obtain ⟨k, -, hk⟩ := Option.bind_eq_some_iff.1 hchoices
    apply List.all_eq_true.2
    intro c hc
    obtain ⟨i, hi⟩ := exists_of_list? hk c hc
    exact Choice.isFinite_of_ofJson? hi
  · cases h

theorem isFinite_of_branching {j : Json} {b : Branching} (h : Branching.ofJson? j = some b) :
    (branching b).isFinite := by
  unfold Branching.ofJson? at h
  split at h
  · obtain ⟨branches, hbranches, h⟩ := Option.bind_eq_some_iff.1 h
    cases h
    obtain ⟨k, -, hk⟩ := Option.bind_eq_some_iff.1 hbranches
    apply List.all_eq_true.2
    intro r hr
    obtain ⟨i, hi⟩ := exists_of_list? hk r hr
    exact Branch.isFinite_of_ofJson? hi
  · cases h

/-- Whatever stands in a document, the numbers that are read from it are finite. -/
theorem isFinite_of_ofJson? {j : Json} {p : Payload} (h : ofJson? j = some p) : p.isFinite := by
  obtain ⟨-, tag, record, kind, -, -, h⟩ := ofJson?_eq_some_iff.1 h
  cases kind with
  | speech => obtain ⟨s, -, rfl⟩ := Option.map_eq_some_iff.1 h; rfl
  | menu => obtain ⟨m, hm, rfl⟩ := Option.map_eq_some_iff.1 h; exact isFinite_of_menu hm
  | branching => obtain ⟨b, hb, rfl⟩ := Option.map_eq_some_iff.1 h; exact isFinite_of_branching hb
  | storylet => obtain ⟨s, -, rfl⟩ := Option.map_eq_some_iff.1 h; rfl
  | pool => obtain ⟨p, -, rfl⟩ := Option.map_eq_some_iff.1 h; rfl

end Payload
end DialogueScript
