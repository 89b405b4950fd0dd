import DialogueScript.Proofs.Check.Graph
/-!
# Texts that are missing

Four parts of a node need a text: a choice, the template of a storylet, the id of a pool and the template of a member.
A check finds a text missing that has nothing but blank characters, also if it is not empty.

Results:
* `Payload.neededTexts`: the texts that a payload needs.
* `Graph.missedTexts_eq`: for any graph, what a check finds missing are the blank ones among these texts.
-/
namespace DialogueScript

theorem Text.isEmpty_trim (s : Text) : (trim s).isEmpty = isBlankText s := by
  rw [Bool.eq_iff_iff, List.isEmpty_iff]
  constructor
  · intro h
    refine List.all_eq_true.2 fun c hc => ?_
    cases hb : isBlank c with
    | true => rfl
    | false =>
      have hmem := mem_trim hc hb
      rw [h] at hmem
      cases hmem
  · intro h
    have hs := trim_append_blank (List.all_eq_true.1 h) []
    exact hs

/-- The texts that a payload needs, in the order in which they are checked. -/
def Payload.neededTexts : Payload → List Text
  | speech _ | branching _ => []
  | menu m => m.choices.map (·.text)
  | storylet s => [s.template]
  | pool p => p.pool :: p.members.map (·.template)

namespace Check

/-- A text that is needed is missing. -/
def Defect.isMissingText : Defect → Bool
  | emptyChoice _ | noTemplate | noPool | noMemberTemplate => true
  | _ => false

/-- The node in which a text that is needed is missing. -/
def Problem.missesText? : Problem → Option Text
  | defect node d => if d.isMissingText then some node else none
  | _ => none

/-- The node, once for each of its texts that is blank. -/
def missing (node : Text) (texts : List Text) : List Text := (texts.filter Text.isBlankText).map fun _ => node

/-- The nodes in which a text is missing, each as often as it misses one. -/
def Report.missedTexts (r : Report) : List Text := r.problems.filterMap Problem.missesText?

theorem missing_cons (node t : Text) (ts : List Text) :
    missing node (t :: ts) = missing node [t] ++ missing node ts := by
  unfold missing
  rw [← List.map_append, ← List.filter_append]
  rfl

variable {node : Text}

/-! ## Payloads -/

theorem missesText?_demand {ok : Bool} {p q : Problem} (hp : p.missesText? = none) (hq : q ∈ demand ok p) :
    q.missesText? = none := by
  rw [mem_demand hq]
  exact hp

theorem filterMap_demand {ok : Bool} {p : Problem} (hp : p.missesText? = none) :
    (demand ok p).filterMap Problem.missesText? = [] :=
  List.filterMap_eq_nil_iff.2 fun _ => missesText?_demand hp

theorem filterMap_flatMap_eq_nil {α : Type} {as : List α} {f : α → List Problem}
    (h : ∀ a, ∀ q ∈ f a, q.missesText? = none) : (as.flatMap f).filterMap Problem.missesText? = [] := by
  refine List.filterMap_eq_nil_iff.2 fun q hq => ?_
  obtain ⟨a, -, hq⟩ := List.mem_flatMap.1 hq
  exact h a q hq

/-- A text is demanded not to be blank. -/
theorem filterMap_demand_text {p : Problem} (hp : p.missesText? = some node) (t : Text) :
    (demand (!(Text.trim t).isEmpty) p).filterMap Problem.missesText? = missing node [t] := by
  rw [Text.isEmpty_trim]
  unfold demand missing
  cases ht : Text.isBlankText t <;> simp [hp, ht]

theorem missesText?_conditionProblems {c : Condition} {q : Problem} (hq : q ∈ conditionProblems node c) :
    q.missesText? = none := by
  unfold conditionProblems at hq
  split at hq
  · exact missesText?_demand rfl hq
  · rw [List.mem_singleton.1 hq]; rfl

theorem missesText?_idProblems {role : Role} {repeated : Defect} (hr : repeated.isMissingText = false)
    {seen : List Text} {id : Text} {q : Problem} (hq : q ∈ idProblems node role repeated seen id) :
    q.missesText? = none := by
  unfold idProblems at hq
  split at hq
  · rw [List.mem_singleton.1 hq]; rfl
  · refine missesText?_demand ?_ hq
    rw [Problem.missesText?, hr]
    rfl

theorem filterMap_attributeProblems (reserved : List Text) (attributes : Dictionary Text) :
    (attributeProblems node reserved attributes).filterMap Problem.missesText? = [] :=
  filterMap_flatMap_eq_nil fun _ _ => missesText?_demand rfl

theorem filterMap_choiceTextProblems (c : Choice) :
    (choiceTextProblems node c).filterMap Problem.missesText? = missing node [c.text] := by
  unfold choiceTextProblems
  rw [Text.isEmpty_trim]
  split
  · next ht => simp [missing, ht, Problem.missesText?, Defect.isMissingText]
  · next ht =>
    rw [filterMap_demand rfl]
    simp [missing, ht]

theorem filterMap_choicesProblems (seen : List Text) (cs : List Choice) :
    (choicesProblems node seen cs).filterMap Problem.missesText? = missing node (cs.map (·.text)) := by
  induction cs generalizing seen with
  | nil => rfl
  | cons c cs ih =>
    have hid : (idProblems node .choice (.repeatedChoice c.id) seen c.id).filterMap Problem.missesText? = [] :=
      List.filterMap_eq_nil_iff.2 fun _ => missesText?_idProblems rfl
    have hconditions : (c.conditions.flatMap (conditionProblems node)).filterMap Problem.missesText? = [] :=
      filterMap_flatMap_eq_nil fun _ _ => missesText?_conditionProblems
    have hflags : (c.setFlags.flatMap (flagProblems node)).filterMap Problem.missesText? = [] :=
      filterMap_flatMap_eq_nil fun _ _ => missesText?_demand rfl
    simp only [choicesProblems, List.filterMap_append, hid, hconditions, hflags, filterMap_choiceTextProblems, ih,
      List.nil_append, List.append_nil]
    exact (missing_cons node c.text _).symm

theorem missesText?_branchesProblems {isFirst : Bool} {seen : List Text} {bs : List Branch} {q : Problem}
    (hq : q ∈ branchesProblems node isFirst seen bs) : q.missesText? = none := by
  induction bs generalizing isFirst seen with
  | nil => cases hq
  | cons b bs ih =>
    simp only [branchesProblems, List.mem_append] at hq
    rcases hq with ((((hq | hq) | hq) | hq) | hq) | hq
    · exact missesText?_idProblems rfl hq
    · unfold placeProblems at hq
      split at hq
      · cases hq
      · rw [List.mem_singleton.1 hq]; rfl
      · rw [List.mem_singleton.1 hq]; rfl
      · exact missesText?_demand rfl hq
      · cases hq
    · unfold guardProblems at hq
      split at hq
      · rw [List.mem_singleton.1 hq]; rfl
      · cases hq
      · rw [List.mem_singleton.1 hq]; rfl
      · rw [List.mem_singleton.1 hq]; rfl
      · cases hq
    · obtain ⟨s, -, hq⟩ := List.mem_flatMap.1 hq
      exact missesText?_demand rfl hq
    · obtain ⟨c, -, hq⟩ := List.mem_flatMap.1 hq
      exact missesText?_conditionProblems hq
    · exact ih hq

theorem filterMap_storyletProblems (s : Storylet) :
    (storyletProblems node s).filterMap Problem.missesText? = missing node [s.template] := by
  have hentry : (s.entryNode.toList.flatMap fun e =>
      demand (Text.isNodeId e) (.badName node .entryNode e)).filterMap Problem.missesText? = [] :=
    filterMap_flatMap_eq_nil fun _ _ => missesText?_demand rfl
  unfold storyletProblems
  rw [List.filterMap_append, List.filterMap_append, List.filterMap_append, List.filterMap_append,
    filterMap_demand_text rfl, filterMap_demand rfl, hentry, filterMap_demand rfl, filterMap_attributeProblems]
  simp only [List.append_nil]

theorem filterMap_memberProblems (selection : Selection) (ms : List PoolMember) :
    (ms.flatMap (memberProblems node selection)).filterMap Problem.missesText? =
      missing node (ms.map (·.template)) := by
  induction ms with
  | nil => rfl
  | cons m ms ih =>
    rw [List.flatMap_cons, List.filterMap_append, ih, memberProblems, List.filterMap_append, filterMap_demand_text rfl,
      filterMap_demand rfl, List.append_nil]
    exact (missing_cons node m.template _).symm

theorem filterMap_poolProblems (p : Pool) :
    (poolProblems node p).filterMap Problem.missesText? = missing node (p.pool :: p.members.map (·.template)) := by
  unfold poolProblems
  rw [List.filterMap_append, List.filterMap_append, List.filterMap_append, filterMap_demand_text rfl,
    filterMap_demand rfl, filterMap_memberProblems, filterMap_attributeProblems, List.append_nil, List.append_nil]
  exact (missing_cons node p.pool _).symm

theorem filterMap_payloadProblems (p : Payload) :
    (payloadProblems node p).filterMap Problem.missesText? = missing node p.neededTexts := by
  cases p with
  | speech s =>
    have hflags : (s.setFlags.flatMap (flagProblems node)).filterMap Problem.missesText? = [] :=
      filterMap_flatMap_eq_nil fun _ _ => missesText?_demand rfl
    rw [payloadProblems, List.filterMap_append, hflags, speakerProblems, filterMap_demand rfl]
    rfl
  | menu m =>
    rw [payloadProblems, List.filterMap_append, filterMap_demand rfl, filterMap_choicesProblems]
    rfl
  | branching c =>
    have hbranches : (branchesProblems node true [] c.branches).filterMap Problem.missesText? = [] :=
      List.filterMap_eq_nil_iff.2 fun _ => missesText?_branchesProblems
    rw [payloadProblems, List.filterMap_append, filterMap_demand rfl, hbranches]
    rfl
  | storylet s => exact filterMap_storyletProblems s
  | pool p => exact filterMap_poolProblems p

end Check

/-! ## Graphs -/

namespace Graph
open Check

variable {g : Graph}

theorem filterMap_nodeProblems (key : Text) (n : Node) :
    (g.nodeProblems key n).filterMap Problem.missesText? = missing n.id n.payload.neededTexts := by
  have hreferences : (n.references.flatMap (g.referenceProblems n.id)).filterMap Problem.missesText? = [] := by
    refine filterMap_flatMap_eq_nil fun r q hq => ?_
    rcases mem_referenceProblems hq with ⟨rfl, -⟩ | ⟨rfl, -⟩ <;> rfl
  unfold nodeProblems
  rw [List.filterMap_append, List.filterMap_append, List.filterMap_append, filterMap_demand rfl, filterMap_demand rfl,
    hreferences, filterMap_payloadProblems]
  rfl

/-- A check finds a text missing for each text that a node needs and that is blank, node by node and in order. -/
theorem missedTexts_eq (g : Graph) (schema : Option Schema) :
    (g.check schema).missedTexts = g.nodes.nodes.flatMap fun n => missing n.id n.payload.neededTexts := by
  have hstart : g.startProblems.filterMap Problem.missesText? = [] := by
    refine List.filterMap_eq_nil_iff.2 fun q hq => ?_
    rcases mem_startProblems hq with rfl | ⟨rfl, -⟩ <;> rfl
  have hends : (g.ends.flatMap g.endProblems).filterMap Problem.missesText? = [] := by
    refine filterMap_flatMap_eq_nil fun e q hq => ?_
    rcases mem_endProblems hq with rfl | ⟨rfl, -⟩ <;> rfl
  have hedges : (g.edges.flatMap g.edgeProblems).filterMap Problem.missesText? = [] := by
    refine filterMap_flatMap_eq_nil fun e q hq => ?_
    obtain ⟨node, -, rfl, -⟩ := mem_edgeProblems hq
    rfl
  show g.problems.filterMap Problem.missesText? = _
  unfold problems
  rw [List.filterMap_append, List.filterMap_append, List.filterMap_append, hstart, hends, hedges, NodeTable.nodes,
    List.filterMap_flatMap, List.flatMap_map]
  simp only [filterMap_nodeProblems]
  rfl

end Graph
end DialogueScript
