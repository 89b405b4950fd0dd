import DialogueScript.Proofs.Document.Conversion
import Mathlib.Data.List.Forall2
/-!
# Documents that are refused

A document is turned into a graph node by node, and the first node that cannot be turned decides the failure: its tag is
not that of a kind, or else its data are no payload, or else a node in front of it has its id. The tag is looked up
twice, by the conversion and by the reader of payloads, each in a table of its own, and the tables agree. So a node with
the tag of a kind can lack a field, but is never of an unknown kind to the reader, and the data of a node with any other
tag are not read at all.

Results:
* `Document.addNode_eq_error_iff`: what a node is refused for behind other nodes.
* `Document.toGraph_decided_by_first`: the first node that is refused decides the failure, for the script as well.
-/
namespace DialogueScript
open Json

/-! ## Tags of data -/

namespace Payload

theorem kind_of_ofRecord? {j : Json} {kind : Kind} {p : Payload} (h : ofRecord? j kind = some p) : p.kind = kind := by
  cases kind <;> obtain ⟨_, -, rfl⟩ := Option.map_eq_some_iff.1 h <;> rfl

/-- The reader finds the tag that the conversion finds. -/
theorem tag_of_tagged? {j record : Json} {s tag : Text} (hs : j.member? "type".toList = some (.string s))
    (h : tagged? j = some (tag, record)) : tag = s := by
  unfold tagged? at h
  split at h
  · split at h
    · next hfield =>
      cases h
      rw [Json.member?_of_field? hfield] at hs
      cases hs
      rfl
    · cases h
  · cases hs
  · cases h

end Payload

namespace Document

/-! ## Tags and payloads of nodes -/

/-- The data of the node have a tag, and it is that of a kind. -/
def Node.HasKind (n : Node) (kind : Kind) : Prop :=
  ∃ tag, n.data.member? "type".toList = some (.string tag) ∧ Kind.ofTag? tag = some kind

/-- The data of the node have the tag of a kind and are a payload. -/
def Node.HasPayload (n : Node) : Prop := (∃ kind, n.HasKind kind) ∧ ∃ p, Payload.ofJson? n.data = some p

/-- What stands for a missing tag is not the tag of a kind either. -/
theorem Node.hasKind_iff {n : Node} {kind : Kind} : n.HasKind kind ↔ Kind.ofTag? n.tag = some kind := by
  unfold HasKind tag
  constructor
  · rintro ⟨tag, htag, hkind⟩
    rw [htag]
    exact hkind
  · intro h
    rcases hm : n.data.member? "type".toList with _ | j
    · rw [hm] at h
      cases h
    · cases j with
      | string tag => rw [hm] at h; exact ⟨tag, rfl, h⟩
      | _ => rw [hm] at h; cases h

theorem Node.kind_of_ofJson? {n : Node} {kind : Kind} (hn : n.HasKind kind) {p : Payload}
    (h : Payload.ofJson? n.data = some p) : p.kind = kind := by
  obtain ⟨s, hs, hkind⟩ := hn
  obtain ⟨-, tag, record, kind', htagged, hkind', h⟩ := Payload.ofJson?_eq_some_iff.1 h
  rw [Payload.tag_of_tagged? hs htagged, Payload.kindUnder?_eq_ofTag?, hkind] at hkind'
  obtain rfl := Option.some.inj hkind'
  exact Payload.kind_of_ofRecord? h

theorem Node.read_ne_unknownTag {n : Node} {kind : Kind} (hn : n.HasKind kind) (tag : Text) :
    Payload.read n.data ≠ .error (.unknownTag tag) := by
  obtain ⟨s, hs, hkind⟩ := hn
  intro h
  unfold Payload.read at h
  split at h
  · split at h
    · cases h
    · next htagged =>
      rw [Payload.tag_of_tagged? hs htagged, Payload.kindUnder?_eq_ofTag?, hkind] at h
      split at h
      · next hnone => cases hnone
      · split at h <;> cases h
  · cases h

/-! ## One node -/

/-- What a node is refused for behind nodes with these ids. A missing tag is reported as an empty one. -/
inductive Node.Refused (ids : List Text) (n : Node) : Failure → Prop
  | unknownKind (h : ∀ kind, ¬n.HasKind kind) : Refused ids n (.unknownKind n.id n.tag)
  | noPayload (hkind : ∃ kind, n.HasKind kind) (h : ∀ p, Payload.ofJson? n.data ≠ some p) : Refused ids n .json
  | repeatedId (h : n.HasPayload) (hid : n.id ∈ ids) : Refused ids n (.notWritable [.repeatedNode n.id])

theorem Node.refused_or_hasPayload (ids : List Text) (n : Node) :
    (∃ f, n.Refused ids f) ∨ n.HasPayload ∧ n.id ∉ ids := by
  by_cases hkind : ∃ kind, n.HasKind kind
  · by_cases hp : ∃ p, Payload.ofJson? n.data = some p
    · by_cases hid : n.id ∈ ids
      · exact .inl ⟨_, .repeatedId ⟨hkind, hp⟩ hid⟩
      · exact .inr ⟨⟨hkind, hp⟩, hid⟩
    · exact .inl ⟨_, .noPayload hkind (not_exists.1 hp)⟩
  · exact .inl ⟨_, .unknownKind (not_exists.1 hkind)⟩

theorem addNode_of_unknownKind {t : NodeTable} {n : Node} (h : ∀ kind, ¬n.HasKind kind) :
    addNode t n = .error (.unknownKind n.id n.tag) := by
  have hnone : Kind.ofTag? n.tag = none :=
    Option.eq_none_iff_forall_ne_some.2 fun kind hkind => h kind (Node.hasKind_iff.2 hkind)
  rw [addNode, Node.payload, hnone]

theorem addNode_of_noPayload {t : NodeTable} {n : Node} (hkind : ∃ kind, n.HasKind kind)
    (hp : Payload.ofJson? n.data = none) : addNode t n = .error .json := by
  obtain ⟨kind, hkind⟩ := hkind
  rw [addNode, Node.payload, Node.hasKind_iff.1 hkind, hp]

theorem exists_addNode_eq {n : Node} (h : n.HasPayload) : ∃ p, ∀ t, addNode t n =
    if t.contains n.id then .error (.notWritable [.repeatedNode n.id])
    else .ok (t.insert n.id ⟨n.id, some n.position, p⟩) := by
  obtain ⟨⟨kind, hkind⟩, p, hp⟩ := h
  refine ⟨p, fun t => ?_⟩
  rw [addNode, Node.payload, Node.hasKind_iff.1 hkind, hp]

theorem addNode_of_refused {t : NodeTable} {n : Node} {f : Failure} (h : n.Refused t.keys f) :
    addNode t n = .error f := by
  cases h with
  | unknownKind h => exact addNode_of_unknownKind h
  | noPayload hkind h => exact addNode_of_noPayload hkind (Option.eq_none_iff_forall_ne_some.2 h)
  | repeatedId h hid =>
    obtain ⟨p, hadd⟩ := exists_addNode_eq h
    rw [hadd, if_pos (by simpa [NodeTable.contains] using hid)]

theorem exists_addNode {t : NodeTable} {n : Node} (h : n.HasPayload) (hid : n.id ∉ t.keys) :
    ∃ u, addNode t n = .ok u := by
  obtain ⟨p, hadd⟩ := exists_addNode_eq h
  rw [hadd, if_neg (by simpa [NodeTable.contains] using hid)]
  exact ⟨_, rfl⟩

theorem addNode_eq_error_iff {t : NodeTable} {n : Node} {f : Failure} :
    addNode t n = .error f ↔ n.Refused t.keys f := by
  refine ⟨fun h => ?_, addNode_of_refused⟩
  rcases n.refused_or_hasPayload t.keys with ⟨f', hf'⟩ | ⟨hp, hid⟩
  · rw [addNode_of_refused hf'] at h
    cases h
    exact hf'
  · obtain ⟨u, hu⟩ := exists_addNode hp hid
    rw [hu] at h
    cases h

theorem hasPayload_of_addNode {t u : NodeTable} {n : Node} (h : addNode t n = .ok u) :
    n.HasPayload ∧ n.id ∉ t.keys := by
  rcases n.refused_or_hasPayload t.keys with ⟨f, hf⟩ | hn
  · rw [addNode_of_refused hf] at h
    cases h
  · exact hn

theorem keys_addNode {t u : NodeTable} {n : Node} (h : addNode t n = .ok u) : u.keys = t.keys ++ [n.id] := by
  obtain ⟨p, -, hentries⟩ := entries_addNode h
  simp [NodeTable.keys, hentries]

/-! ## All nodes -/

/-- All nodes have payloads, and no two of them have one id. -/
structure IsConvertible (ns : List Node) : Prop where
  payload : ∀ n ∈ ns, n.HasPayload
  nodup : (ns.map (·.id)).Nodup

theorem IsConvertible.concat {ns : List Node} (h : IsConvertible ns) {n : Node} (hn : n.HasPayload)
    (hid : n.id ∉ ns.map (·.id)) : IsConvertible (ns ++ [n]) := by
  refine ⟨List.forall_mem_append.2 ⟨h.payload, by simpa using hn⟩, ?_⟩
  rw [List.map_append, List.nodup_append]
  refine ⟨h.nodup, by simp, ?_⟩
  rintro id hmem id' hid' rfl
  rw [List.map_singleton, List.mem_singleton] at hid'
  exact hid (hid' ▸ hmem)

theorem isConvertible_of_foldlM {ns : List Node} {t : NodeTable} (h : ns.foldlM addNode .empty = .ok t) :
    IsConvertible ns ∧ t.keys = ns.map (·.id) := by
  refine except_foldlM_history (I := fun seen t => IsConvertible seen ∧ t.keys = seen.map (·.id)) ?_
    ⟨⟨by simp, by simp⟩, rfl⟩ h
  intro n _ seen t u ht hadd
  obtain ⟨hseen, hkeys⟩ := ht
  obtain ⟨hn, hid⟩ := hasPayload_of_addNode hadd
  exact ⟨hseen.concat hn (hkeys ▸ hid), by rw [keys_addNode hadd, hkeys, List.map_append]; rfl⟩

/-- If one of them failed, the nodes in front of it would have its id. -/
theorem exists_foldlM {ns : List Node} (h : IsConvertible ns) : ∃ t, ns.foldlM addNode .empty = .ok t := by
  cases hfold : ns.foldlM addNode .empty with
  | ok t => exact ⟨t, rfl⟩
  | error f =>
    obtain ⟨front, n, back, t, rfl, hfront, hn⟩ := except_foldlM_eq_error_iff.1 hfold
    obtain ⟨-, hkeys⟩ := isConvertible_of_foldlM hfront
    have hnew : n.id ∉ t.keys := by
      intro hid
      have hd := h.nodup
      rw [List.map_append, List.nodup_append] at hd
      exact hd.2.2 n.id (hkeys ▸ hid) n.id (by simp) rfl
    obtain ⟨u, hu⟩ := exists_addNode (h.payload n (by simp)) hnew
    rw [hu] at hn
    cases hn

theorem foldlM_eq_error_iff {ns : List Node} {f : Failure} : ns.foldlM addNode .empty = .error f ↔
    ∃ front n back, ns = front ++ n :: back ∧ IsConvertible front ∧ n.Refused (front.map (·.id)) f := by
  rw [except_foldlM_eq_error_iff]
  constructor
  · rintro ⟨front, n, back, t, hns, hfront, hn⟩
    obtain ⟨hconvertible, hkeys⟩ := isConvertible_of_foldlM hfront
    exact ⟨front, n, back, hns, hconvertible, hkeys ▸ addNode_eq_error_iff.1 hn⟩
  · rintro ⟨front, n, back, hns, hconvertible, hn⟩
    obtain ⟨t, hfront⟩ := exists_foldlM hconvertible
    obtain ⟨-, hkeys⟩ := isConvertible_of_foldlM hfront
    exact ⟨front, n, back, t, hns, hfront, addNode_of_refused (hkeys ▸ hn)⟩

/-! ## What is not read -/

/-- The nodes are equal, or they are of no kind and show the same id and the same tag. -/
def Node.LooksLike (n m : Node) : Prop := n = m ∨ (∀ kind, ¬n.HasKind kind) ∧ n.id = m.id ∧ n.tag = m.tag

theorem addNode_congr {n m : Node} (h : n.LooksLike m) (t : NodeTable) : addNode t n = addNode t m := by
  rcases h with rfl | ⟨hn, hid, htag⟩
  · rfl
  · have hm : ∀ kind, ¬m.HasKind kind := by
      intro kind hkind
      rw [Node.hasKind_iff, ← htag, ← Node.hasKind_iff] at hkind
      exact hn kind hkind
    rw [addNode_of_unknownKind hn, addNode_of_unknownKind hm, hid, htag]

theorem foldlM_congr {ns ms : List Node} (h : List.Forall₂ Node.LooksLike ns ms) (t : NodeTable) :
    ns.foldlM addNode t = ms.foldlM addNode t := by
  induction h generalizing t with
  | nil => rfl
  | cons hn _ ih =>
    rw [List.foldlM_cons, List.foldlM_cons, addNode_congr hn]
    exact bind_congr ih

/-! ## The document -/

/-- Only nodes are refused: edges are taken over as they are, also those that lead nowhere. -/
theorem exists_toGraph_iff {d : Document} : (∃ g, d.toGraph = .ok g) ↔ ∃ t, d.nodes.foldlM addNode .empty = .ok t := by
  unfold toGraph
  cases d.nodes.foldlM addNode .empty <;> simp

theorem toGraph_eq_error_iff {d : Document} {f : Failure} :
    d.toGraph = .error f ↔ d.nodes.foldlM addNode .empty = .error f := by
  unfold toGraph
  cases d.nodes.foldlM addNode .empty <;> simp

/-- What becomes of a document is decided by its first node that is refused. -/
structure IsDecidedByFirst (d : Document) : Prop where
  accepted : (∃ g, d.toGraph = .ok g) ↔ IsConvertible d.nodes
  refused : ∀ f, d.toGraph = .error f ↔
    ∃ front n back, d.nodes = front ++ n :: back ∧ IsConvertible front ∧ n.Refused (front.map (·.id)) f
  /-- A failure leaves no script behind. -/
  unwritten : ∀ f, d.toGraph = .error f → d.script = .error f
  /-- A node of a kind is not of an unknown kind to the reader of payloads, and not of another kind. -/
  kinds : ∀ n ∈ d.nodes, ∀ kind, n.HasKind kind →
    (∀ tag, Payload.read n.data ≠ .error (.unknownTag tag)) ∧ ∀ p, Payload.ofJson? n.data = some p → p.kind = kind
  /-- Of a node of no kind only the id and the tag count, whatever else is in its data. -/
  unread : ∀ ns, List.Forall₂ Node.LooksLike d.nodes ns → { d with nodes := ns }.toGraph = d.toGraph

/-- Both tables of tags agree, the reader that gives reasons reads what is read, and every document is decided by its
first node that is refused. -/
theorem toGraph_decided_by_first :
    (∀ tag, Payload.kindUnder? tag = Kind.ofTag? tag) ∧
    (∀ j p, Payload.read j = .ok p ↔ Payload.ofJson? j = some p) ∧
    ∀ d : Document, d.IsDecidedByFirst := by
  refine ⟨Payload.kindUnder?_eq_ofTag?, fun j p => Payload.read_eq_ok_iff, fun d => ?_⟩
  refine ⟨?_, ?_, ?_, ?_, ?_⟩
  · exact exists_toGraph_iff.trans ⟨fun ⟨t, ht⟩ => (isConvertible_of_foldlM ht).1, exists_foldlM⟩
  · exact fun f => toGraph_eq_error_iff.trans foldlM_eq_error_iff
  · intro f hf
    rw [script, hf]
    rfl
  · exact fun n _ kind hn => ⟨n.read_ne_unknownTag hn, fun p => n.kind_of_ofJson? hn⟩
  · intro ns hns
    rw [toGraph, toGraph, foldlM_congr hns]

/-- A document with these nodes. -/
def storyboard (ns : List Node) : Document := ⟨['d'], [], ['a'], [], ns, []⟩

/-- A node that lets somebody speak. -/
def greeting (id : Text) : Node := ⟨id, "card".toList, .origin,
  .object [("type".toList, .string "character".toList), ("speaker".toList, .string ['B']),
    ("content".toList, .string "Hi".toList)]⟩

/-- A node with the tag of menus, and without choices. -/
def choiceless (id : Text) : Node := ⟨id, "card".toList, .origin, .object [("type".toList, .string "player".toList)]⟩

/-- A node of a kind that only its editor knows. -/
def cutscene (id : Text) (clip : Json) : Node := ⟨id, "card".toList, .origin,
  .object [("type".toList, .string "cutscene".toList), ("clip".toList, clip)]⟩

/-- Each of three nodes that are refused stands in front of the others once, and a document without them is accepted. -/
theorem toGraph_decided_by_first_storyboard :
    (storyboard [greeting ['a'], cutscene ['b'] .null, choiceless ['c'], greeting ['a']]).toGraph =
      .error (.unknownKind ['b'] "cutscene".toList) ∧
    (storyboard [greeting ['a'], cutscene ['b'] .unreadable, choiceless ['c'], greeting ['a']]).toGraph =
      .error (.unknownKind ['b'] "cutscene".toList) ∧
    (storyboard [greeting ['a'], choiceless ['c'], greeting ['a'], cutscene ['b'] .null]).script = .error .json ∧
    (storyboard [greeting ['a'], greeting ['a'], cutscene ['b'] .null, choiceless ['c']]).toGraph =
      .error (.notWritable [.repeatedNode ['a']]) ∧
    (∀ tag, Payload.read (choiceless ['c']).data ≠ .error (.unknownTag tag)) ∧
    ∃ g, (storyboard [greeting ['a'], greeting ['b']]).toGraph = .ok g := by
  obtain ⟨-, -, hdecided⟩ := toGraph_decided_by_first
  have hgreeting : ∀ id, (greeting id).HasPayload := fun id => ⟨⟨.speech, _, rfl, by decide⟩, _, rfl⟩
  have hmenu : ∀ id, (choiceless id).HasKind .menu := fun id => ⟨_, rfl, by decide⟩
  have hnoKind : ∀ id clip kind, ¬(cutscene id clip).HasKind kind := by
    rintro id clip kind ⟨tag, htag, hkind⟩
    cases htag
    cases hkind
  have hfront : IsConvertible [greeting ['a']] := ⟨by simpa using hgreeting ['a'], by decide⟩
  have hcutscene : (storyboard [greeting ['a'], cutscene ['b'] .null, choiceless ['c'], greeting ['a']]).toGraph =
      .error (.unknownKind ['b'] "cutscene".toList) :=
    ((hdecided _).refused _).2 ⟨[greeting ['a']], cutscene ['b'] .null, _, rfl, hfront, .unknownKind (hnoKind _ _)⟩
  have hlooks : List.Forall₂ Node.LooksLike
      [greeting ['a'], cutscene ['b'] .null, choiceless ['c'], greeting ['a']]
      [greeting ['a'], cutscene ['b'] .unreadable, choiceless ['c'], greeting ['a']] :=
    .cons (.inl rfl) (.cons (.inr ⟨hnoKind _ _, rfl, rfl⟩) (.cons (.inl rfl) (.cons (.inl rfl) .nil)))
  refine ⟨hcutscene, ?_, ?_, ?_, ?_, ?_⟩
  · exact ((hdecided (storyboard _)).unread _ hlooks).trans hcutscene
  · exact (hdecided _).unwritten _ (((hdecided _).refused _).2
      ⟨[greeting ['a']], choiceless ['c'], _, rfl, hfront, .noPayload ⟨_, hmenu _⟩ nofun⟩)
  · exact ((hdecided _).refused _).2
      ⟨[greeting ['a']], greeting ['a'], _, rfl, hfront, .repeatedId (hgreeting _) (by decide)⟩
  · exact ((hdecided (storyboard [choiceless ['c']])).kinds _ (List.mem_singleton_self _) _ (hmenu _)).1
  · exact (hdecided _).accepted.2 ⟨by simp [storyboard, hgreeting], by decide⟩

end Document
end DialogueScript
