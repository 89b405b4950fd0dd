import DialogueScript.Graph.Reference
/-!
# Reachable nodes

The ids of the nodes that are found from the start by following references, last reference first. A
reference to a missing node is passed over, and a node whose id was seen is not entered again.

* `Graph.reachable`: the ids, the last one found first.
-/
namespace DialogueScript.Graph

/-- The nodes whose ids were not seen. -/
def unseen (g : Graph) (seen : List Text) : List Node := g.nodes.nodes.filter fun n => !seen.contains n.id

theorem mem_nodes_of_node? {g : Graph} {key : Text} {n : Node} (h : g.node? key = some n) : n ∈ g.nodes.nodes := by
  obtain ⟨e, he, rfl⟩ := Option.map_eq_some_iff.1 h
  exact List.mem_map_of_mem (List.mem_of_find?_eq_some he)

theorem length_filter_lt {α : Type} {p q : α → Bool} {xs : List α} {x : α} (hx : x ∈ xs) (hp : p x = true)
    (hq : q x = false) (hpq : ∀ y, q y = true → p y = true) : (xs.filter q).length < (xs.filter p).length := by
  induction xs with
  | nil => simp at hx
  | cons y ys ih =>
    have hle : (ys.filter q).length ≤ (ys.filter p).length := by
      rw [← List.countP_eq_length_filter, ← List.countP_eq_length_filter]
      exact List.countP_mono_left fun z _ => hpq z
    rcases List.mem_cons.1 hx with hx | hx
    · subst hx; simp only [List.filter_cons, hp, hq]; simp only [if_true, List.length_cons]; simp; omega
    · have := ih hx
      by_cases h : q y
      · simp only [List.filter_cons, h, hpq y h, if_true, List.length_cons]; omega
      · by_cases h' : p y
        · simp only [List.filter_cons, h, h', if_true, List.length_cons]; simp; omega
        · simp only [List.filter_cons, h, h']; simpa using this

theorem unseen_length_lt {g : Graph} {key : Text} {n : Node} {seen : List Text} (h : g.node? key = some n)
    (hs : n.id ∉ seen) : (g.unseen (n.id :: seen)).length < (g.unseen seen).length :=
  length_filter_lt (mem_nodes_of_node? h) (by simpa using hs) (by simp) (by simp)

/-- Follows the references of the nodes that are still to be visited. -/
def visit (g : Graph) (seen : List Text) : List Text → List Text
  | [] => seen
  | key :: todo => match _h : g.node? key with
    | none => visit g seen todo
    | some n =>
      if _hs : n.id ∈ seen then visit g seen todo
      -- a stack: the last reference is followed first
      else visit g (n.id :: seen) ((n.references.map (·.target)).reverse ++ todo)
termination_by todo => ((g.unseen seen).length, todo.length)
decreasing_by
  · exact Prod.Lex.right _ (by simp)
  · exact Prod.Lex.right _ (by simp)
  · exact Prod.Lex.left _ _ (unseen_length_lt _h _hs)

/-- The ids of the nodes that can be reached from the start. -/
def reachable (g : Graph) : List Text := g.visit [] [g.start]

end DialogueScript.Graph
