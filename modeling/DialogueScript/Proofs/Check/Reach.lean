import DialogueScript.Proofs.Script.Independence
import Mathlib.Algebra.Order.BigOperators.Group.List
import Mathlib.Algebra.Order.Ring.Nat
import Mathlib.Logic.Function.Iterate
import Mathlib.Logic.Relation
/-!
# Which nodes are reached

The search from the start takes one id after another from those that are still to be visited. A round uses up at least
one reference that was not followed before, so there are never more rounds than references and one for the start,
whatever cycles the graph has. Where every node is stored under its own id, three facts are kept by every round: what
was seen lies on a path from the start, the start was seen or is still to be visited, and so is every node that a seen
node refers to. When nothing is left to visit, the seen ids are closed under references, and that makes the search
complete.

Results:
* `Graph.rounds_from_start`: the search is over after so many rounds.
* `Graph.mem_reachable_iff`: what is found is what a path from the start leads to.
* `Graph.reachable_exact`: both for all graphs, and which nodes a check warns about.
-/
namespace DialogueScript
open Check

/-- The node that a warning calls unreachable. -/
def Check.Warning.unreachable? : Warning → Option Text
  | unreachable node => some node
  | _ => none

namespace Graph

variable {g : Graph} {seen todo : List Text} {key id : Text} {n : Node}

/-! ## Rounds of the search -/

/-- The ids that a node refers to, in the order in which they are visited. -/
def targets (n : Node) : List Text := (n.references.map (·.target)).reverse

/-- One round of the search, on the ids that were seen and those still to be visited. -/
def round (g : Graph) : List Text × List Text → List Text × List Text
  | (seen, []) => (seen, [])
  | (seen, key :: todo) => match g.node? key with
    | none => (seen, todo)
    | some n => if seen.contains n.id then (seen, todo) else (n.id :: seen, targets n ++ todo)

/-- What a round does: nothing for a missing node, nothing for one that was seen, or it enters a node. -/
theorem round_cases (g : Graph) (seen : List Text) (key : Text) (todo : List Text) :
    (g.node? key = none ∧ g.round (seen, key :: todo) = (seen, todo)) ∨
    (∃ n, g.node? key = some n ∧ n.id ∈ seen ∧ g.round (seen, key :: todo) = (seen, todo)) ∨
    ∃ n, g.node? key = some n ∧ n.id ∉ seen ∧ g.round (seen, key :: todo) = (n.id :: seen, targets n ++ todo) := by
  cases hn : g.node? key with
  | none => exact .inl ⟨rfl, by simp only [round, hn]⟩
  | some n =>
    by_cases hs : n.id ∈ seen
    · exact .inr (.inl ⟨n, rfl, hs, by simp [round, hn, hs]⟩)
    · exact .inr (.inr ⟨n, rfl, hs, by simp [round, hn, hs]⟩)

/-- A round does not change what the search finds. -/
theorem visit_round (g : Graph) (p : List Text × List Text) :
    g.visit (g.round p).1 (g.round p).2 = g.visit p.1 p.2 := by
  obtain ⟨seen, todo⟩ := p
  cases todo with
  | nil => rfl
  | cons key todo =>
    rw [visit]
    split
    · next hn => simp only [round, hn]
    · next n hn =>
      by_cases hs : n.id ∈ seen
      · simp [round, hn, hs]
      · simp [round, hn, hs, targets]

/-- The references of all nodes that were not seen, and the ids still to be visited. -/
def work (g : Graph) (p : List Text × List Text) : Nat :=
  p.2.length + ((g.unseen p.1).map fun n => n.references.length).sum

theorem sum_filter_add_le {α : Type} (f : α → Nat) {q : α → Bool} {as : List α} {a : α} (ha : a ∈ as)
    (hq : q a = false) : ((as.filter q).map f).sum + f a ≤ (as.map f).sum := by
  induction as with
  | nil => cases ha
  | cons b as ih =>
    rw [List.map_cons, List.sum_cons]
    rcases List.mem_cons.1 ha with rfl | ha
    · have hle : ((as.filter q).map f).sum ≤ (as.map f).sum :=
        (List.filter_sublist.map f).sum_le_sum fun _ _ => Nat.zero_le _
      rw [List.filter_cons_of_neg (by simp [hq])]
      omega
    · have := ih ha
      by_cases hb : q b
      · rw [List.filter_cons_of_pos hb, List.map_cons, List.sum_cons]
        omega
      · rw [List.filter_cons_of_neg hb]
        omega

/-- A node that is entered gives up its references. -/
theorem work_unseen (hn : g.node? key = some n) (hs : n.id ∉ seen) :
    ((g.unseen (n.id :: seen)).map fun n => n.references.length).sum + n.references.length ≤
      ((g.unseen seen).map fun n => n.references.length).sum := by
  have hfilter : g.unseen (n.id :: seen) = (g.unseen seen).filter fun m => !(m.id == n.id) := by
    unfold unseen
    rw [List.filter_filter]
    exact List.filter_congr fun m _ => by simp [beq_eq_decide]
  have hmem : n ∈ g.unseen seen := List.mem_filter.2 ⟨mem_nodes_of_node? hn, by simpa using hs⟩
  rw [hfilter]
  exact sum_filter_add_le _ hmem (by simp)

theorem work_round_lt (g : Graph) (seen : List Text) (key : Text) (todo : List Text) :
    g.work (g.round (seen, key :: todo)) < g.work (seen, key :: todo) := by
  obtain ⟨-, hround⟩ | ⟨n, -, -, hround⟩ | ⟨n, hn, hs, hround⟩ := g.round_cases seen key todo
  · rw [hround]
    simp only [work, List.length_cons]
    omega
  · rw [hround]
    simp only [work, List.length_cons]
    omega
  · have := work_unseen hn hs
    rw [hround]
    simp only [work, targets, List.length_append, List.length_reverse, List.length_map, List.length_cons]
    omega

/-- As many rounds as there is work leave nothing to visit. -/
theorem rounds_eq {k : Nat} {p : List Text × List Text} (h : g.work p ≤ k) : g.round^[k] p = (g.visit p.1 p.2, []) := by
  induction k generalizing p with
  | zero =>
    obtain ⟨seen, todo⟩ := p
    have htodo : todo = [] := List.length_eq_zero_iff.1 (by simp only [work] at h; omega)
    rw [htodo, visit]
    rfl
  | succ k ih =>
    rw [Function.iterate_succ_apply]
    obtain ⟨seen, todo⟩ := p
    cases todo with
    | nil =>
      rw [visit]
      exact Function.iterate_fixed rfl k
    | cons key todo =>
      have := g.work_round_lt seen key todo
      rw [ih (by omega), visit_round]

/-- The search is over after one round for every reference and one for the start. -/
theorem rounds_from_start (g : Graph) : g.round^[g.derivedEdges.length + 1] ([], [g.start]) = (g.reachable, []) := by
  refine rounds_eq (Nat.le_of_eq ?_)
  have hunseen : g.unseen [] = g.nodes.nodes := List.filter_eq_self.2 fun n _ => rfl
  have hedges : g.derivedEdges.length = (g.nodes.nodes.map fun n => n.references.length).sum := by
    rw [derivedEdges, List.length_flatMap]
    exact congrArg List.sum (List.map_congr_left fun n _ => List.length_map _)
  rw [work, hunseen, hedges]
  exact Nat.add_comm _ _

/-! ## Paths -/

/-- A node refers to a node, and both are there. -/
def Refers (g : Graph) (source target : Text) : Prop :=
  ∃ n, g.node? source = some n ∧ target ∈ n.references.map (·.target) ∧ g.nodes.contains target

theorem Refers.contains {source target : Text} (h : g.Refers source target) : g.nodes.contains target := by
  obtain ⟨_, _, _, hcontains⟩ := h
  exact hcontains

/-- There is a path to a node from the start, all of whose ids are keys. -/
def IsReached (g : Graph) (id : Text) : Prop := g.nodes.contains g.start ∧ Relation.ReflTransGen g.Refers g.start id

/-- Every node is stored under its own id. -/
def IsKeyed (g : Graph) : Prop := ∀ e ∈ g.nodes.entries, e.1 = e.2.id

theorem id_of_node? (hg : g.IsKeyed) (h : g.node? key = some n) : n.id = key := by
  obtain ⟨e, he, rfl⟩ := Option.map_eq_some_iff.1 h
  have hkey := List.find?_some he
  rw [← hg e (List.mem_of_find?_eq_some he)]
  exact beq_iff_eq.1 hkey

theorem contains_of_node? (h : g.node? key = some n) : g.nodes.contains key := by
  obtain ⟨e, he, rfl⟩ := Option.map_eq_some_iff.1 h
  have hkey := List.find?_some he
  rw [← beq_iff_eq.1 hkey]
  exact NodeTable.contains_of_mem (List.mem_of_find?_eq_some he)

theorem exists_node?_of_contains (h : g.nodes.contains key) : ∃ n, g.node? key = some n := by
  obtain ⟨e, he, rfl⟩ := List.mem_map.1 (List.contains_iff_mem.1 h)
  exact ⟨e.2, NodeTable.get?_of_mem he⟩

/-! ## What every round keeps -/

/-- What is known when some ids were seen and some are still to be visited. -/
structure Explored (g : Graph) (p : List Text × List Text) : Prop where
  nodup : p.1.Nodup
  seen : ∀ id ∈ p.1, g.IsReached id
  todo : ∀ id ∈ p.2, g.nodes.contains id → g.IsReached id
  start : g.nodes.contains g.start → g.start ∈ p.1 ∨ g.start ∈ p.2
  closed : ∀ source ∈ p.1, ∀ target, g.Refers source target → target ∈ p.1 ∨ target ∈ p.2

theorem explored_start (g : Graph) : g.Explored ([], [g.start]) where
  nodup := .nil
  seen := fun id hid => nomatch hid
  todo := by
    intro id hid hcontains
    rw [List.mem_singleton.1 hid] at hcontains ⊢
    exact ⟨hcontains, .refl⟩
  start := fun _ => .inr (List.mem_singleton_self _)
  closed := fun source hsource => nomatch hsource

/-- An id may be left out when it is not the id of a node, or when it was seen. -/
theorem Explored.skip (h : g.Explored (seen, key :: todo)) (hkey : g.nodes.contains key → key ∈ seen) :
    g.Explored (seen, todo) := by
  have hleft : ∀ id, g.nodes.contains id → id ∈ seen ∨ id ∈ key :: todo → id ∈ seen ∨ id ∈ todo := by
    intro id hcontains hid
    rcases hid with hid | hid
    · exact .inl hid
    rcases List.mem_cons.1 hid with rfl | hid
    · exact .inl (hkey hcontains)
    · exact .inr hid
  constructor
  case nodup => exact h.nodup
  case seen => exact h.seen
  case todo => exact fun id hid => h.todo id (List.mem_cons_of_mem _ hid)
  case start => exact fun hstart => hleft _ hstart (h.start hstart)
  case closed =>
    intro source hsource target hrefers
    exact hleft target hrefers.contains (h.closed source hsource target hrefers)

/-- A node that is entered is on a path, and so are the nodes that it refers to. -/
theorem Explored.enter (h : g.Explored (seen, key :: todo)) (hn : g.node? key = some n) (hs : key ∉ seen) :
    g.Explored (key :: seen, targets n ++ todo) := by
  have hreached : g.IsReached key := h.todo key (List.mem_cons_self ..) (contains_of_node? hn)
  have htargets : ∀ {id}, id ∈ targets n ↔ id ∈ n.references.map (·.target) := List.mem_reverse
  have hmoved : ∀ id, id ∈ seen ∨ id ∈ key :: todo → id ∈ key :: seen ∨ id ∈ targets n ++ todo := by
    intro id hid
    simp only [List.mem_cons, List.mem_append] at hid ⊢
    tauto
  constructor
  case nodup => exact List.nodup_cons.2 ⟨hs, h.nodup⟩
  case seen =>
    intro id hid
    rcases List.mem_cons.1 hid with rfl | hid
    · exact hreached
    · exact h.seen id hid
  case todo =>
    intro id hid hcontains
    rcases List.mem_append.1 hid with hid | hid
    · exact ⟨hreached.1, hreached.2.tail ⟨n, hn, htargets.1 hid, hcontains⟩⟩
    · exact h.todo id (List.mem_cons_of_mem _ hid) hcontains
  case start => exact fun hstart => hmoved _ (h.start hstart)
  case closed =>
    intro source hsource target hrefers
    rcases List.mem_cons.1 hsource with rfl | hsource
    · obtain ⟨m, hm, htarget, -⟩ := hrefers
      rw [hn] at hm
      cases hm
      exact .inr (List.mem_append_left _ (htargets.2 htarget))
    · exact hmoved target (h.closed source hsource target hrefers)

theorem Explored.round (hg : g.IsKeyed) {p : List Text × List Text} (h : g.Explored p) : g.Explored (g.round p) := by
  obtain ⟨seen, todo⟩ := p
  cases todo with
  | nil => exact h
  | cons key todo =>
    obtain ⟨hn, hround⟩ | ⟨n, hn, hs, hround⟩ | ⟨n, hn, hs, hround⟩ := g.round_cases seen key todo
    · rw [hround]
      refine h.skip fun hcontains => ?_
      obtain ⟨n, hn'⟩ := exists_node?_of_contains hcontains
      rw [hn] at hn'
      cases hn'
    · rw [id_of_node? hg hn] at hs
      rw [hround]
      exact h.skip fun _ => hs
    · rw [id_of_node? hg hn] at hs hround
      rw [hround]
      exact h.enter hn hs

theorem Explored.rounds (hg : g.IsKeyed) {p : List Text × List Text} (h : g.Explored p) (k : Nat) :
    g.Explored (g.round^[k] p) := by
  induction k generalizing p with
  | zero => exact h
  | succ k ih => exact ih (h.round hg)

theorem explored_reachable (hg : g.IsKeyed) : g.Explored (g.reachable, []) := by
  rw [← g.rounds_from_start]
  exact g.explored_start.rounds hg _

/-- When nothing is left to visit, the seen ids are all that a path leads to. -/
theorem Explored.mem_iff (h : g.Explored (seen, [])) : id ∈ seen ↔ g.IsReached id := by
  refine ⟨h.seen id, fun hid => ?_⟩
  obtain ⟨hstart, hpath⟩ := hid
  induction hpath with
  | refl => exact (h.start hstart).resolve_right (List.not_mem_nil)
  | tail _ hrefers ih => exact (h.closed _ ih _ hrefers).resolve_right (List.not_mem_nil)

theorem mem_reachable_iff (hg : g.IsKeyed) : id ∈ g.reachable ↔ g.IsReached id := (explored_reachable hg).mem_iff

/-! ## Warnings -/

/-- The nodes that a check calls unreachable are the keys that were not found, in order. -/
theorem unreachable_warnings (g : Graph) (schema : Option Schema) :
    (g.check schema).warnings.filterMap Warning.unreachable? =
      if g.nodes.contains g.start then g.nodes.keys.filter fun key => !g.reachable.contains key else [] := by
  have hflags : (g.flagWarnings schema).filterMap Warning.unreachable? = [] := by
    refine List.filterMap_eq_nil_iff.2 fun w hw => ?_
    have habout := isAboutFlag_of_mem_flagWarnings hw
    cases w with
    | unknownFlag | typeMismatch => rfl
    | unreachable node => cases habout
  show (g.flagWarnings schema ++ g.reachWarnings).filterMap _ = _
  rw [List.filterMap_append, hflags, List.nil_append, reachWarnings]
  split
  · rw [List.filterMap_map]
    exact List.filterMap_some
  · rfl

open Classical in
/-- The search for any graph. It is over after one round for every reference and one for the start, and a check warns
about the keys that it did not find, in order, if there is a start. Where every node is stored under its own id, it
finds each id once, and finds exactly those to which a path leads from the start: none without a start. -/
theorem reachable_exact (g : Graph) :
    g.round^[g.derivedEdges.length + 1] ([], [g.start]) = (g.reachable, []) ∧
    (∀ schema, (g.check schema).warnings.filterMap Warning.unreachable? =
      if g.nodes.contains g.start then g.nodes.keys.filter fun key => !g.reachable.contains key else []) ∧
    (g.IsKeyed → g.reachable.Nodup ∧ (∀ id, id ∈ g.reachable ↔ g.IsReached id) ∧
      (g.nodes.contains g.start = false → g.reachable = []) ∧
      ∀ schema, (g.check schema).warnings.filterMap Warning.unreachable? =
        if g.nodes.contains g.start then g.nodes.keys.filter fun key => ¬ g.IsReached key else []) := by
  refine ⟨g.rounds_from_start, g.unreachable_warnings, fun hg => ?_⟩
  refine ⟨(explored_reachable hg).nodup, fun id => mem_reachable_iff hg, fun hstart => ?_, fun schema => ?_⟩
  · refine List.eq_nil_iff_forall_not_mem.2 fun id hid => ?_
    have hcontains := ((mem_reachable_iff hg).1 hid).1
    rw [hstart] at hcontains
    cases hcontains
  · rw [unreachable_warnings]
    congr 1
    exact List.filter_congr fun key _ => by simp [← mem_reachable_iff hg]

/-- Two nodes that refer to each other, the first also to itself, to the second once more and to a missing node, and
a third node that refers to the second. -/
def loopedGraph : Graph where
  id := ['d']
  title := []
  start := ['a']
  nodes := .ofList
    [(['a'], ⟨['a'], none, .menu ⟨[['b'], ['a'], ['z'], ['b']].map fun target =>
      ⟨"choice-1".toList, "Go.".toList, some target, [], []⟩⟩⟩),
     (['b'], ⟨['b'], none, .speech ⟨"Bob".toList, "Left.".toList, some ['a'], []⟩⟩),
     (['c'], ⟨['c'], none, .speech ⟨"Bob".toList, "Right.".toList, some ['b'], []⟩⟩)]
  edges := []
  ends := []

theorem reachable_exact_looped :
    loopedGraph.IsKeyed ∧ loopedGraph.reachable = [['b'], ['a']] ∧ ¬ loopedGraph.IsReached ['c'] ∧
    (loopedGraph.check none).warnings = [.unreachable ['c']] := by
  have hkeyed : loopedGraph.IsKeyed := by unfold IsKeyed; decide
  obtain ⟨hrounds, -, hexact⟩ := reachable_exact loopedGraph
  obtain ⟨-, hmem, -, -⟩ := hexact hkeyed
  have hfound : loopedGraph.reachable = [['b'], ['a']] := by
    have hrun : loopedGraph.round^[loopedGraph.derivedEdges.length + 1] ([], [loopedGraph.start]) =
        ([['b'], ['a']], []) := by decide
    rw [hrun] at hrounds
    exact (congrArg Prod.fst hrounds).symm
  refine ⟨hkeyed, hfound, fun hc => ?_, ?_⟩
  · have := (hmem ['c']).2 hc
    rw [hfound] at this
    revert this
    decide
  · show loopedGraph.reachWarnings = _
    rw [reachWarnings, hfound]
    decide

end Graph
end DialogueScript
