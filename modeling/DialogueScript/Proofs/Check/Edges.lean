import DialogueScript.Proofs.Check.Absence
import Mathlib.Data.List.Nodup
/-!
# The ids of derived edges

A check makes sure that no two nodes have one id, and no two choices or branches of a node. So the node and the handle
tell the references of a graph apart. The id of a derived edge puts node, handle and target one behind the other with
hyphens between them, and all three may have hyphens in them: where one of them ends is not written.

Results:
* `Graph.nodup_handles_of_problems`: a reference is known by its node and its handle.
* `Reference.spelled_inj`: what is read from the spelling of a reference when the ids of nodes have no hyphens.
* `Graph.nodup_ids_derivedEdges`: when the ids of derived edges differ.
-/
namespace DialogueScript
open Check

/-! ## Handles -/

theorem filterMap_sublist_map {α β : Type} {f : α → Option β} {g : α → β} (h : ∀ a b, f a = some b → b = g a)
    (as : List α) : (as.filterMap f).Sublist (as.map g) := by
  induction as with
  | nil => exact .slnil
  | cons a as ih =>
    rw [List.map_cons]
    cases ha : f a with
    | none => rw [List.filterMap_cons_none ha]; exact .cons _ ih
    | some b => rw [List.filterMap_cons_some ha, h a b ha]; exact .cons_cons _ ih

/-- Ids differ where each of them was demanded to differ from those in front of it. -/
theorem nodup_of_seen {α : Type} {id : α → Text} {P : List Text → List α → Prop}
    (hstep : ∀ seen a as, P seen (a :: as) → id a ∉ seen ∧ P (id a :: seen) as) {seen : List Text} {as : List α}
    (h : P seen as) : (as.map id).Nodup ∧ ∀ a ∈ as, id a ∉ seen := by
  induction as generalizing seen with
  | nil => simp
  | cons a as ih =>
    obtain ⟨ha, hrest⟩ := hstep seen a as h
    obtain ⟨hnodup, hseen⟩ := ih hrest
    refine ⟨List.nodup_cons.2 ⟨?_, hnodup⟩, ?_⟩
    · intro hmem
      obtain ⟨b, hb, he⟩ := List.mem_map.1 hmem
      exact hseen b hb (by simp [he])
    · intro b hb
      rcases List.mem_cons.1 hb with rfl | hb
      · exact ha
      · exact fun hmem => hseen b hb (List.mem_cons_of_mem _ hmem)

theorem nodup_of_choicesProblems {node : Text} {cs : List Choice} (h : choicesProblems node [] cs = []) :
    (cs.map (·.id)).Nodup := by
  refine (nodup_of_seen (P := fun seen cs => choicesProblems node seen cs = []) ?_ h).1
  intro seen c cs h
  simp only [choicesProblems, List.append_eq_nil_iff] at h
  obtain ⟨⟨⟨⟨hid, -⟩, -⟩, -⟩, hrest⟩ := h
  exact ⟨(idProblems_eq_nil.1 hid).2, hrest⟩

theorem nodup_of_branchesProblems {node : Text} {bs : List Branch} (h : branchesProblems node true [] bs = []) :
    (bs.map (·.id)).Nodup := by
  refine (nodup_of_seen (P := fun seen bs => ∃ isFirst, branchesProblems node isFirst seen bs = []) ?_ ⟨true, h⟩).1
  rintro seen b bs ⟨isFirst, h⟩
  simp only [branchesProblems, List.append_eq_nil_iff] at h
  obtain ⟨⟨⟨⟨⟨hid, -⟩, -⟩, -⟩, -⟩, hrest⟩ := h
  exact ⟨(idProblems_eq_nil.1 hid).2, false, hrest⟩

/-- The references of a payload without problems have handles of their own. -/
theorem nodup_handles_of_payloadProblems {node : Text} {p : Payload} (h : payloadProblems node p = []) :
    (p.references.map (·.handle)).Nodup := by
  cases p with
  | speech s => cases hn : s.next <;> simp [Payload.references, hn]
  | menu m =>
    have hids := nodup_of_choicesProblems (List.append_eq_nil_iff.1 h).2
    refine List.Nodup.sublist ?_ hids
    rw [Payload.references, List.map_filterMap]
    refine filterMap_sublist_map ?_ m.choices
    intro c handle hc
    obtain ⟨r, hr, rfl⟩ := Option.map_eq_some_iff.1 hc
    obtain ⟨t, -, rfl⟩ := Option.map_eq_some_iff.1 hr
    rfl
  | branching b =>
    have hids := nodup_of_branchesProblems (List.append_eq_nil_iff.1 h).2
    refine List.Nodup.sublist ?_ hids
    rw [Payload.references, List.map_filterMap]
    refine filterMap_sublist_map ?_ b.branches
    intro r handle hr
    obtain ⟨x, hx, rfl⟩ := Option.map_eq_some_iff.1 hr
    obtain ⟨t, -, rfl⟩ := Option.map_eq_some_iff.1 hx
    rfl
  | storylet s =>
    cases hn : s.exitNode <;> simp [Payload.references, hn, apply_ite]
  | pool p => cases hn : p.next <;> simp [Payload.references, hn]

/-! ## Spelling -/

/-- The first character of a kind cuts a text in two. -/
theorem Text.append_cons_inj {c : Char} {s s' x x' : Text} (hs : c ∉ s) (hs' : c ∉ s')
    (h : s ++ c :: x = s' ++ c :: x') : s = s' ∧ x = x' := by
  induction s generalizing s' with
  | nil =>
    cases s' with
    | nil => simpa using h
    | cons d s' =>
      obtain ⟨rfl, -⟩ := List.cons.inj h
      exact absurd List.mem_cons_self hs'
  | cons d s ih =>
    cases s' with
    | nil =>
      obtain ⟨rfl, -⟩ := List.cons.inj h
      exact absurd List.mem_cons_self hs
    | cons d' s' =>
      obtain ⟨rfl, hrest⟩ := List.cons.inj h
      have hs := List.not_mem_of_not_mem_cons hs
      obtain ⟨rfl, rfl⟩ := ih hs (List.not_mem_of_not_mem_cons hs') hrest
      exact ⟨rfl, rfl⟩

namespace Reference

/-- The reference of a node in one word: the node, the handle and the target with hyphens between them. -/
def spelled (source : Text) (r : Reference) : Text := source ++ '-' :: (r.handle ++ '-' :: r.target)

theorem id_edge (source : Text) (r : Reference) : (r.edge source).id = "e-".toList ++ r.spelled source := by
  simp [edge, spelled]

/-- Where source and target have no hyphen, the spelling of a reference says where they end. -/
theorem spelled_inj {source source' : Text} {r r' : Reference} (hs : '-' ∉ source) (hs' : '-' ∉ source')
    (ht : '-' ∉ r.target) (ht' : '-' ∉ r'.target) (h : r.spelled source = r'.spelled source') :
    source = source' ∧ r.handle = r'.handle ∧ r.target = r'.target := by
  obtain ⟨hsource, hrest⟩ := Text.append_cons_inj hs hs' h
  -- the handle may have hyphens, so the target is read from the end
  have hreversed := congrArg List.reverse hrest
  simp only [List.reverse_append, List.reverse_cons, List.append_assoc, List.singleton_append] at hreversed
  obtain ⟨htarget, hhandle⟩ := Text.append_cons_inj (by simpa using ht) (by simpa using ht') hreversed
  exact ⟨hsource, List.reverse_injective hhandle, List.reverse_injective htarget⟩

end Reference

/-! ## Graphs without problems -/

namespace Graph

/-- The references of a graph, each with its node. -/
def references (g : Graph) : List (Text × Reference) := g.nodes.nodes.flatMap fun n => n.references.map (n.id, ·)

theorem derivedEdges_eq (g : Graph) : g.derivedEdges = g.references.map fun (source, r) => r.edge source := by
  unfold derivedEdges references Node.edges
  rw [List.map_flatMap]
  simp only [List.map_map]
  rfl

variable {g : Graph} {schema : Option Schema}

theorem structural_of_problems (h : (g.check schema).problems = []) : (g.check schema).structural = [] := by
  rw [Report.structural, h]
  rfl

theorem keys_of_problems (h : (g.check schema).problems = []) : g.nodes.keys = g.nodes.nodes.map (·.id) := by
  rw [NodeTable.keys, NodeTable.nodes, List.map_map]
  exact List.map_congr_left fun e he => key_of_structural (structural_of_problems h) he

theorem nodup_nodeIds_of_problems (h : (g.check schema).problems = []) : (g.nodes.nodes.map (·.id)).Nodup :=
  keys_of_problems h ▸ g.nodes.distinct

/-- A reference is known by its node and its handle. -/
theorem nodup_handles_of_problems (h : (g.check schema).problems = []) :
    (g.references.map fun (source, r) => (source, r.handle)).Nodup := by
  have hstructural := structural_of_problems h
  have hnodes := List.pairwise_map.1 (nodup_nodeIds_of_problems h)
  unfold references
  rw [List.map_flatMap, List.nodup_flatMap]
  refine ⟨?_, hnodes.imp ?_⟩
  · intro n hn
    obtain ⟨e, he, rfl⟩ := List.mem_map.1 hn
    have hhandles := nodup_handles_of_payloadProblems (payloadProblems_of_structural hstructural he)
    rw [List.map_map]
    refine List.Nodup.of_map Prod.snd ?_
    rw [List.map_map]
    exact hhandles
  · intro n n' hne x hx hx'
    obtain ⟨_, hr, rfl⟩ := List.mem_map.1 hx
    obtain ⟨_, hr', he⟩ := List.mem_map.1 hx'
    obtain ⟨r, -, rfl⟩ := List.mem_map.1 hr
    obtain ⟨r', -, rfl⟩ := List.mem_map.1 hr'
    exact hne (Prod.mk.inj he).1.symm

/-- Both ends of a reference are ids of nodes. -/
theorem ends_of_problems (h : (g.check schema).problems = []) {source : Text} {r : Reference}
    (hr : (source, r) ∈ g.references) : source ∈ g.nodes.nodes.map (·.id) ∧ r.target ∈ g.nodes.nodes.map (·.id) := by
  obtain ⟨n, hn, hr⟩ := List.mem_flatMap.1 hr
  obtain ⟨r, hr, he⟩ := List.mem_map.1 hr
  cases he
  refine ⟨List.mem_map_of_mem hn, ?_⟩
  have hnamed : r.target ∈ g.namedIds := by
    simp only [namedIds, List.mem_cons, List.mem_append, List.mem_flatMap, List.mem_map]
    exact .inr (.inr ⟨n, hn, r, hr, rfl⟩)
  have hcontains := contains_of_problems_eq_nil (show g.problems = [] from h) hnamed
  rw [← keys_of_problems h]
  simpa [NodeTable.contains] using hcontains

/-- The ids of derived edges differ exactly when no two references are spelled in the same way. -/
theorem nodup_ids_iff_spelled (h : (g.check schema).problems = []) : (g.derivedEdges.map (·.id)).Nodup ↔
    ∀ x ∈ g.references, ∀ y ∈ g.references, x.2.spelled x.1 = y.2.spelled y.1 → x = y := by
  have hids : g.derivedEdges.map (·.id) = g.references.map fun x => "e-".toList ++ x.2.spelled x.1 := by
    rw [derivedEdges_eq, List.map_map]
    exact List.map_congr_left fun x _ => Reference.id_edge x.1 x.2
  rw [hids, List.nodup_map_iff_inj_on (nodup_handles_of_problems h).of_map]
  simp only [List.append_cancel_left_eq]

theorem nodup_ids_of_plain (h : (g.check schema).problems = []) (hplain : ∀ n ∈ g.nodes.nodes, '-' ∉ n.id) :
    (g.derivedEdges.map (·.id)).Nodup := by
  have hends {id : Text} (hid : id ∈ g.nodes.nodes.map (·.id)) : '-' ∉ id := by
    obtain ⟨n, hn, rfl⟩ := List.mem_map.1 hid
    exact hplain n hn
  rw [nodup_ids_iff_spelled h]
  intro x hx y hy he
  obtain ⟨hsx, htx⟩ := ends_of_problems h hx
  obtain ⟨hsy, hty⟩ := ends_of_problems h hy
  obtain ⟨hsource, hhandle, -⟩ := Reference.spelled_inj (hends hsx) (hends hsy) (hends htx) (hends hty) he
  exact List.inj_on_of_nodup_map (nodup_handles_of_problems h) hx hy (Prod.ext hsource hhandle)

/-- In a graph in which nothing is broken there is one edge for each reference, which is known by its node and its
handle. The ids of the edges differ exactly when no two references are spelled in the same way, and that is so when no
node has a hyphen in its id. -/
theorem nodup_ids_derivedEdges (h : (g.check schema).isValid) :
    g.derivedEdges = g.references.map (fun (source, r) => r.edge source) ∧
    (g.references.map fun (source, r) => (source, r.handle)).Nodup ∧
    ((g.derivedEdges.map (·.id)).Nodup ↔
      ∀ x ∈ g.references, ∀ y ∈ g.references, x.2.spelled x.1 = y.2.spelled y.1 → x = y) ∧
    ((∀ n ∈ g.nodes.nodes, '-' ∉ n.id) → (g.derivedEdges.map (·.id)).Nodup) := by
  have hproblems := List.isEmpty_iff.1 h
  exact ⟨derivedEdges_eq g, nodup_handles_of_problems hproblems, nodup_ids_iff_spelled hproblems,
    nodup_ids_of_plain hproblems⟩

/-- A menu with two choices that go on at speeches with these ids. -/
def forkGraph (left right : Text) : Graph where
  id := "fork".toList
  title := []
  start := ['a']
  nodes := .ofList
    [(['a'], ⟨['a'], none, .menu ⟨[⟨['b', '-', 'c'], "Left".toList, some left, [], []⟩,
      ⟨['b'], "Right".toList, some right, [], []⟩]⟩⟩),
     (left, ⟨left, none, .speech ⟨"Bob".toList, "Left.".toList, none, []⟩⟩),
     (right, ⟨right, none, .speech ⟨"Bob".toList, "Right.".toList, none, []⟩⟩)]
  edges := []
  ends := [.plain left, .plain right]

theorem nodup_ids_derivedEdges_fork :
    ((forkGraph ['d'] ['e']).check none).isValid ∧ (∀ n ∈ (forkGraph ['d'] ['e']).nodes.nodes, '-' ∉ n.id) ∧
    (forkGraph ['d'] ['e']).derivedEdges.map (·.id) = ["e-a-b-c-d".toList, "e-a-b-e".toList] ∧
    ((forkGraph ['d'] ['e']).derivedEdges.map (·.id)).Nodup := by
  have hvalid : ((forkGraph ['d'] ['e']).check none).isValid := by decide
  have hplain : ∀ n ∈ (forkGraph ['d'] ['e']).nodes.nodes, '-' ∉ n.id := by decide
  exact ⟨hvalid, hplain, by decide, (nodup_ids_derivedEdges hvalid).2.2.2 hplain⟩

/-- The choice `b-c` to the node `d` and the choice `b` to the node `c-d` have edges with one id. -/
theorem forked_edges_clash :
    ((forkGraph ['d'] ['c', '-', 'd']).check none).isValid ∧
    (forkGraph ['d'] ['c', '-', 'd']).derivedEdges.map (·.id) = ["e-a-b-c-d".toList, "e-a-b-c-d".toList] ∧
    ¬ ((forkGraph ['d'] ['c', '-', 'd']).derivedEdges.map (·.id)).Nodup := by
  refine ⟨by decide, by decide, by decide⟩

end Graph
end DialogueScript
