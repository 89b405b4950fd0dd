import DialogueScript.Check.Payload
import DialogueScript.Graph.Reference
import DialogueScript.Proofs.Node.Dispatch
/-!
# Payloads that pass a check, and payloads that were read

A check finds nothing wrong with a part of a payload exactly when the part is well formed, so a payload
without problems and without infinite numbers is sound: it can be written and is read back. The other way
round, a payload that was read is sound, which leaves few problems that a check can still find in it.

Results:
* `sound_of_payloadProblems`: a payload without problems is sound.
* `Problem.isOfPayload`, `isOfPayload_payloadProblems`: what a check can find in a payload, all of which keeps the
  graph from being written.
* `Problem.isPrevented`, `not_prevented_payloadProblems`: the problems that a sound payload cannot have.
-/
namespace DialogueScript

/-! ## Finite numbers -/

/-- The literal of the condition is no infinite or undefined number. -/
def Condition.isFinite (c : Condition) : Bool := c.literal?.all Literal.isFinite

/-- No condition in the payload compares with an infinite or undefined number. -/
def Payload.isFinite : Payload → Bool
  | menu m => m.choices.all fun c => c.conditions.all Condition.isFinite
  | branching b => b.branches.all fun r => r.conditions.all Condition.isFinite
  | speech _ | storylet _ | pool _ => true

theorem Condition.isFinite_iff {c : Condition} : c.isFinite ↔ ∀ l ∈ c.literal?, l.isFinite := by
  unfold Condition.isFinite
  cases c.literal? <;> simp

namespace Check

/-! ## Parts without problems -/

theorem demand_eq_nil {ok : Bool} {p : Problem} : demand ok p = [] ↔ ok := by
  cases ok <;> simp [demand]

theorem conditionProblems_eq_nil {node : Text} {c : Condition} :
    conditionProblems node c = [] ↔ Text.isFlag c.flag ∧ c.isWellFormed := by
  unfold conditionProblems
  split
  · next h => simp [demand_eq_nil, h]
  · next h => simp [h]

theorem flagProblems_eq_nil {node flag : Text} : flagProblems node flag = [] ↔ Text.isFlag flag := demand_eq_nil

theorem speakerProblems_eq_nil {node speaker : Text} : speakerProblems node speaker = [] ↔ Text.isSpeaker speaker :=
  demand_eq_nil

theorem idProblems_eq_nil {node id : Text} {role : Role} {repeated : Defect} {seen : List Text} :
    idProblems node role repeated seen id = [] ↔ Text.isNodeId id ∧ id ∉ seen := by
  unfold idProblems
  split
  · next h => simp at h; simp [h]
  · next h => simp at h; simp [demand_eq_nil, h]

theorem choiceTextProblems_eq_nil {node : Text} {c : Choice} :
    choiceTextProblems node c = [] ↔ Text.trim c.text ≠ [] ∧ '\n' ∉ c.text := by
  unfold choiceTextProblems
  split
  · next h => simp at h; simp [h]
  · next h => simp at h; simp [demand_eq_nil, h]

theorem attributeProblems_eq_nil {node : Text} {reserved : List Text} {attributes : Dictionary Text} :
    attributeProblems node reserved attributes = [] ↔ Directive.Carried reserved attributes := by
  unfold attributeProblems Directive.Carried
  simp [List.flatMap_eq_nil_iff, demand_eq_nil]

theorem guardProblems_eq_nil {node : Text} {b : Branch} : guardProblems node b = [] ↔
    b.kind = .orElse ∧ b.condition = none ∨ b.kind ≠ .orElse ∧ ∃ cs, b.condition = some cs ∧ cs ≠ [] := by
  unfold guardProblems
  cases b.kind <;> rcases b.condition with _ | _ | ⟨c, cs⟩ <;> simp

/-- Conditions without problems and without infinite numbers can be written. -/
theorem writable_of_conditionProblems {node : Text} {cs : List Condition}
    (h : cs.flatMap (conditionProblems node) = []) (hfin : cs.all Condition.isFinite) : ∀ c ∈ cs, c.Writable := by
  intro c hc
  obtain ⟨hflag, hform⟩ := conditionProblems_eq_nil.1 (List.flatMap_eq_nil_iff.1 h c hc)
  exact ⟨hflag, hform, Condition.isFinite_iff.1 (List.all_eq_true.1 hfin c hc)⟩

theorem conditionProblems_of_writable {node : Text} {cs : List Condition} (h : ∀ c ∈ cs, c.Writable) :
    cs.flatMap (conditionProblems node) = [] :=
  List.flatMap_eq_nil_iff.2 fun c hc => conditionProblems_eq_nil.2 ⟨(h c hc).isFlag, (h c hc).isWellFormed⟩

theorem flagProblems_flatMap_eq_nil {node : Text} {flags : List Text} :
    flags.flatMap (flagProblems node) = [] ↔ ∀ f ∈ flags, Text.isFlag f := by
  simp [List.flatMap_eq_nil_iff, flagProblems_eq_nil]

/-! ## Payloads without problems -/

theorem sound_of_choicesProblems {node : Text} {seen : List Text} {cs : List Choice}
    (h : choicesProblems node seen cs = []) (hfin : cs.all fun c => c.conditions.all Condition.isFinite)
    (hnext : ∀ c ∈ cs, ∀ t ∈ c.next, Text.isNodeId t) : ∀ c ∈ cs, c.Sound := by
  induction cs generalizing seen with
  | nil => simp
  | cons d cs ih =>
    simp only [choicesProblems, List.append_eq_nil_iff] at h
    obtain ⟨⟨⟨⟨hid, htext⟩, hconditions⟩, hflags⟩, hrest⟩ := h
    simp only [List.all_cons, Bool.and_eq_true] at hfin
    intro c hc
    rcases List.mem_cons.1 hc with rfl | hc
    · obtain ⟨ht, hsingle⟩ := choiceTextProblems_eq_nil.1 htext
      exact ⟨Text.isWord_of_isNodeId (idProblems_eq_nil.1 hid).1, by rintro he; rw [he] at ht; exact ht rfl, hsingle,
        writable_of_conditionProblems hconditions hfin.1, flagProblems_flatMap_eq_nil.1 hflags, hnext c (by simp)⟩
    · exact ih hrest hfin.2 (fun e he => hnext e (by simp [he])) c hc

theorem sound_of_branchesProblems {node : Text} {isFirst : Bool} {seen : List Text} {bs : List Branch}
    (h : branchesProblems node isFirst seen bs = []) (hfin : bs.all fun r => r.conditions.all Condition.isFinite)
    (hnext : ∀ r ∈ bs, ∀ t ∈ r.next, Text.isNodeId t) : ∀ r ∈ bs, r.Sound := by
  induction bs generalizing seen isFirst with
  | nil => simp
  | cons b bs ih =>
    simp only [branchesProblems, List.append_eq_nil_iff] at h
    obtain ⟨⟨⟨⟨⟨hid, -⟩, hguard⟩, hspeaker⟩, hconditions⟩, hrest⟩ := h
    simp only [List.all_cons, Bool.and_eq_true] at hfin
    intro r hr
    rcases List.mem_cons.1 hr with rfl | hr
    · refine ⟨Text.ne_nil_of_shaped (idProblems_eq_nil.1 hid).1, ?_, ?_, hnext r (by simp)⟩
      · have hw := writable_of_conditionProblems hconditions hfin.1
        refine (guardProblems_eq_nil.1 hguard).imp_right fun ⟨hk, cs, hcs, hne⟩ => ⟨hk, cs, hcs, hne, ?_⟩
        simpa [Branch.conditions, hcs] using hw
      · intro s hs
        exact speakerProblems_eq_nil.1 (List.flatMap_eq_nil_iff.1 hspeaker s (Option.mem_toList.2 hs))
    · exact ih hrest hfin.2 (fun e he => hnext e (by simp [he])) r hr

theorem isTail_of_branchesProblems {node : Text} {seen : List Text} {bs : List Branch}
    (h : branchesProblems node false seen bs = []) : BranchKind.isTail (bs.map (·.kind)) := by
  induction bs generalizing seen with
  | nil => exact True.intro
  | cons b bs ih =>
    simp only [branchesProblems, List.append_eq_nil_iff] at h
    obtain ⟨⟨⟨⟨⟨-, hplace⟩, -⟩, -⟩, -⟩, hrest⟩ := h
    unfold placeProblems at hplace
    rw [List.map_cons]
    cases hk : b.kind with
    | ifThen => rw [hk] at hplace; cases hplace
    | elseIf => exact ih hrest
    | orElse =>
      rw [hk] at hplace
      rw [List.isEmpty_iff.1 (demand_eq_nil.1 hplace)]
      exact rfl

theorem isChain_of_branchesProblems {node : Text} {bs : List Branch} (hne : bs ≠ [])
    (h : branchesProblems node true [] bs = []) : BranchKind.isChain (bs.map (·.kind)) := by
  cases bs with
  | nil => exact absurd rfl hne
  | cons b bs =>
    simp only [branchesProblems, List.append_eq_nil_iff] at h
    obtain ⟨⟨⟨⟨⟨-, hplace⟩, -⟩, -⟩, -⟩, hrest⟩ := h
    unfold placeProblems at hplace
    rw [List.map_cons]
    cases hk : b.kind with
    | ifThen => exact isTail_of_branchesProblems hrest
    | elseIf => rw [hk] at hplace; cases hplace
    | orElse => rw [hk] at hplace; cases hplace

theorem ne_nil_of_trim {s : Text} (h : (Text.trim s).isEmpty = false) : s ≠ [] := by
  rintro rfl; cases h

theorem sound_of_payloadProblems {node : Text} {p : Payload} (h : payloadProblems node p = []) (hfin : p.isFinite)
    (href : ∀ r ∈ p.references, Text.isNodeId r.target) : p.Sound := by
  cases p with
  | speech s =>
    obtain ⟨hspeaker, hflags⟩ := List.append_eq_nil_iff.1 h
    refine ⟨speakerProblems_eq_nil.1 hspeaker, flagProblems_flatMap_eq_nil.1 hflags, ?_⟩
    intro t ht
    exact href (.next t) (by simpa [Payload.references] using ⟨t, ht, rfl⟩)
  | menu m =>
    obtain ⟨hne, hchoices⟩ := List.append_eq_nil_iff.1 h
    refine ⟨by simpa using demand_eq_nil.1 hne, sound_of_choicesProblems hchoices hfin ?_⟩
    intro c hc t ht
    exact href ⟨.choice, c.id, t, some c.text⟩
      (List.mem_filterMap.2 ⟨c, hc, by rw [Choice.reference?, show c.next = some t from ht]; rfl⟩)
  | branching b =>
    obtain ⟨hne, hbranches⟩ := List.append_eq_nil_iff.1 h
    refine ⟨isChain_of_branchesProblems (by simpa using demand_eq_nil.1 hne) hbranches,
      sound_of_branchesProblems hbranches hfin fun r hr t ht => ?_⟩
    exact href ⟨.branch, r.id, t, some r.kind.keyword⟩
      (List.mem_filterMap.2 ⟨r, hr, by rw [Branch.reference?, show r.next = some t from ht]; rfl⟩)
  | storylet s =>
    simp only [payloadProblems, storyletProblems, List.append_eq_nil_iff, demand_eq_nil, Bool.not_eq_true'] at h
    exact ⟨ne_nil_of_trim h.1.1.1.1, attributeProblems_eq_nil.1 h.2⟩
  | pool p =>
    simp only [payloadProblems, poolProblems, List.append_eq_nil_iff, demand_eq_nil, Bool.not_eq_true'] at h
    obtain ⟨⟨⟨hpool, -⟩, hmembers⟩, hattributes⟩ := h
    refine ⟨ne_nil_of_trim hpool, ?_, ?_, attributeProblems_eq_nil.1 hattributes⟩
    · intro m hm
      have := List.flatMap_eq_nil_iff.1 hmembers m hm
      simp only [memberProblems, List.append_eq_nil_iff, demand_eq_nil, Bool.not_eq_true'] at this
      exact ne_nil_of_trim this.1
    · intro t ht
      exact href (.next t) (by simpa [Payload.references] using ⟨t, ht, rfl⟩)

/-! ## Speakers without problems -/

theorem speakers_of_branchesProblems {node : Text} {isFirst : Bool} {seen : List Text} {bs : List Branch}
    (h : branchesProblems node isFirst seen bs = []) : ∀ b ∈ bs, ∀ w ∈ b.speaker, Text.isSpeaker w := by
  induction bs generalizing seen isFirst with
  | nil => simp
  | cons b bs ih =>
    simp only [branchesProblems, List.append_eq_nil_iff] at h
    obtain ⟨⟨⟨-, hspeaker⟩, -⟩, hrest⟩ := h
    intro c hc w hw
    rcases List.mem_cons.1 hc with rfl | hc
    · exact speakerProblems_eq_nil.1 (List.flatMap_eq_nil_iff.1 hspeaker w (Option.mem_toList.2 hw))
    · exact ih hrest c hc w hw

/-- Every speaker that a payload without problems names can be written, whatever numbers it holds. -/
theorem speakers_of_payloadProblems {node : Text} {p : Payload} (h : payloadProblems node p = []) :
    ∀ w ∈ p.speakers, Text.isSpeaker w := by
  intro w hw
  cases p with
  | speech s =>
    rw [List.mem_singleton.1 hw]
    exact speakerProblems_eq_nil.1 (List.append_eq_nil_iff.1 h).1
  | branching b =>
    obtain ⟨r, hr, hs⟩ := List.mem_filterMap.1 hw
    exact speakers_of_branchesProblems (List.append_eq_nil_iff.1 h).2 r hr w hs
  | menu m => cases hw
  | storylet s => cases hw
  | pool p => cases hw

/-! ## What a check can find in a payload -/

/-- The name stands in the payload of a node. -/
def Role.isOfPayload : Role → Bool
  | speaker | choice | branch | entryNode | attributeKey | flag => true
  | start | ending | node | target => false

/-- What is wrong is a name in the payload of a node, or a defect of a node. -/
def Problem.isOfPayload : Problem → Bool
  | badName _ role _ => role.isOfPayload
  | defect .. => true
  | missingStart _ | missingEnd _ | danglingEdge .. | danglingReference .. | repeatedNode _ => false

theorem Problem.isStructural_of_isOfPayload {q : Problem} (h : q.isOfPayload) : q.isStructural := by
  cases q <;> first | rfl | cases h


theorem mem_demand_iff {ok : Bool} {p q : Problem} : q ∈ demand ok p ↔ ok = false ∧ q = p := by
  cases ok <;> simp [demand]

theorem mem_demand {ok : Bool} {p q : Problem} (h : q ∈ demand ok p) : q = p := (mem_demand_iff.1 h).2

section OfPayload

variable {node : Text} {q : Problem}

theorem isOfPayload_demand {ok : Bool} {p : Problem} (hp : p.isOfPayload) (h : q ∈ demand ok p) : q.isOfPayload := by
  rw [mem_demand h]; exact hp

theorem isOfPayload_conditionProblems {c : Condition} (h : q ∈ conditionProblems node c) : q.isOfPayload := by
  unfold conditionProblems at h
  split at h
  · exact isOfPayload_demand rfl h
  · rw [List.mem_singleton.1 h]; rfl

theorem isOfPayload_idProblems {id : Text} {role : Role} {repeated : Defect} {seen : List Text}
    (hrole : role.isOfPayload) (h : q ∈ idProblems node role repeated seen id) : q.isOfPayload := by
  unfold idProblems at h
  split at h
  · rw [List.mem_singleton.1 h]; exact hrole
  · exact isOfPayload_demand rfl h

theorem isOfPayload_choiceTextProblems {c : Choice} (h : q ∈ choiceTextProblems node c) : q.isOfPayload := by
  unfold choiceTextProblems at h
  split at h
  · rw [List.mem_singleton.1 h]; rfl
  · exact isOfPayload_demand rfl h

theorem isOfPayload_placeProblems {isFirst isLast : Bool} {b : Branch}
    (h : q ∈ placeProblems node isFirst isLast b) : q.isOfPayload := by
  unfold placeProblems at h
  split at h
  · cases h
  · rw [List.mem_singleton.1 h]; rfl
  · rw [List.mem_singleton.1 h]; rfl
  · exact isOfPayload_demand rfl h
  · cases h

theorem isOfPayload_guardProblems {b : Branch} (h : q ∈ guardProblems node b) : q.isOfPayload := by
  unfold guardProblems at h
  split at h
  · rw [List.mem_singleton.1 h]; rfl
  · cases h
  · rw [List.mem_singleton.1 h]; rfl
  · rw [List.mem_singleton.1 h]; rfl
  · cases h

theorem isOfPayload_attributeProblems {reserved : List Text} {attributes : Dictionary Text}
    (h : q ∈ attributeProblems node reserved attributes) : q.isOfPayload := by
  obtain ⟨k, -, h⟩ := List.mem_flatMap.1 h
  exact isOfPayload_demand rfl h

theorem isOfPayload_choicesProblems {seen : List Text} {cs : List Choice} (h : q ∈ choicesProblems node seen cs) :
    q.isOfPayload := by
  induction cs generalizing seen with
  | nil => cases h
  | cons c cs ih =>
    simp only [choicesProblems, List.mem_append, List.mem_flatMap] at h
    rcases h with (((h | h) | ⟨d, -, h⟩) | ⟨f, -, h⟩) | h
    · exact isOfPayload_idProblems rfl h
    · exact isOfPayload_choiceTextProblems h
    · exact isOfPayload_conditionProblems h
    · exact isOfPayload_demand rfl h
    · exact ih h

theorem isOfPayload_branchesProblems {isFirst : Bool} {seen : List Text} {bs : List Branch}
    (h : q ∈ branchesProblems node isFirst seen bs) : q.isOfPayload := by
  induction bs generalizing seen isFirst with
  | nil => cases h
  | cons b bs ih =>
    simp only [branchesProblems, List.mem_append, List.mem_flatMap] at h
    rcases h with ((((h | h) | h) | ⟨s, -, h⟩) | ⟨c, -, h⟩) | h
    · exact isOfPayload_idProblems rfl h
    · exact isOfPayload_placeProblems h
    · exact isOfPayload_guardProblems h
    · exact isOfPayload_demand rfl h
    · exact isOfPayload_conditionProblems h
    · exact ih h

theorem isOfPayload_payloadProblems {p : Payload} (h : q ∈ payloadProblems node p) : q.isOfPayload := by
  cases p with
  | speech s =>
    simp only [payloadProblems, List.mem_append, List.mem_flatMap] at h
    rcases h with h | ⟨f, -, h⟩ <;> exact isOfPayload_demand rfl h
  | menu m => exact (List.mem_append.1 h).elim (isOfPayload_demand rfl) isOfPayload_choicesProblems
  | branching b => exact (List.mem_append.1 h).elim (isOfPayload_demand rfl) isOfPayload_branchesProblems
  | storylet s =>
    simp only [payloadProblems, storyletProblems, List.mem_append, List.mem_flatMap] at h
    rcases h with (((h | h) | ⟨e, -, h⟩) | h) | h
    · exact isOfPayload_demand rfl h
    · exact isOfPayload_demand rfl h
    · exact isOfPayload_demand rfl h
    · exact isOfPayload_demand rfl h
    · exact isOfPayload_attributeProblems h
  | pool p =>
    simp only [payloadProblems, poolProblems, memberProblems, List.mem_append, List.mem_flatMap] at h
    rcases h with ((h | h) | ⟨m, -, h | h⟩) | h
    · exact isOfPayload_demand rfl h
    · exact isOfPayload_demand rfl h
    · exact isOfPayload_demand rfl h
    · exact isOfPayload_demand rfl h
    · exact isOfPayload_attributeProblems h

end OfPayload

/-! ## Problems that reading prevents -/

/-- Reading a script makes sure of all names of this role. -/
def Role.isPrevented : Role → Bool
  | node | ending | speaker | flag | attributeKey => true
  | start | target | choice | branch | entryNode => false

/-- No node that was read has such a defect. -/
def Defect.isPrevented : Defect → Bool
  | wrongKey .. | noChoices | longChoice _ | illFormed _ => true
  | noBranches | notIfFirst _ | secondIf _ | elseNotLast _ => true
  | conditionOnElse _ | noCondition _ | emptyCondition _ => true
  | repeatedChoice _ | emptyChoice _ | repeatedBranch _ => false
  | noTemplate | noEntryNode | noExitNode | noPool | noMembers | noMemberTemplate | zeroWeight _ => false

/-- No graph that was read has such a problem. -/
def Problem.isPrevented : Problem → Bool
  | danglingEdge .. | repeatedNode _ => true
  | badName _ role _ => role.isPrevented
  | defect _ d => d.isPrevented
  | missingStart _ | missingEnd _ | danglingReference .. => false

section Prevented

variable {node : Text} {q : Problem}

theorem not_prevented_demand {ok : Bool} {p : Problem} (hp : p.isPrevented = false) (h : q ∈ demand ok p) :
    q.isPrevented = false := by
  rw [mem_demand h]; exact hp

theorem not_prevented_idProblems {id : Text} {role : Role} {repeated : Defect} {seen : List Text}
    (hrole : role.isPrevented = false) (hrepeated : repeated.isPrevented = false)
    (h : q ∈ idProblems node role repeated seen id) : q.isPrevented = false := by
  unfold idProblems at h
  split at h
  · rw [List.mem_singleton.1 h]; exact hrole
  · exact not_prevented_demand (p := .defect node repeated) hrepeated h

theorem not_prevented_choiceTextProblems {c : Choice} (hsingle : '\n' ∉ c.text) (h : q ∈ choiceTextProblems node c) :
    q.isPrevented = false := by
  unfold choiceTextProblems at h
  split at h
  · rw [List.mem_singleton.1 h]; rfl
  · rw [demand_eq_nil.2 (by simpa using hsingle)] at h
    cases h

theorem not_prevented_choicesProblems {seen : List Text} {cs : List Choice} (hcs : ∀ c ∈ cs, c.Sound)
    (h : q ∈ choicesProblems node seen cs) : q.isPrevented = false := by
  induction cs generalizing seen with
  | nil => cases h
  | cons c cs ih =>
    have hc := hcs c (by simp)
    rw [choicesProblems, conditionProblems_of_writable hc.conditions, flagProblems_flatMap_eq_nil.2 hc.setFlags] at h
    simp only [List.append_nil, List.mem_append] at h
    rcases h with (h | h) | h
    · exact not_prevented_idProblems rfl rfl h
    · exact not_prevented_choiceTextProblems hc.single h
    · exact ih (fun d hd => hcs d (by simp [hd])) h

theorem placeProblems_of_isChain {b : Branch} {bs : List Branch} (h : BranchKind.isChain ((b :: bs).map (·.kind))) :
    placeProblems node true bs.isEmpty b = [] := by
  rw [List.map_cons] at h
  unfold placeProblems
  cases hk : b.kind with
  | ifThen => rfl
  | elseIf => rw [hk] at h; cases h
  | orElse => rw [hk] at h; cases h

theorem placeProblems_of_isTail {b : Branch} {bs : List Branch} (h : BranchKind.isTail ((b :: bs).map (·.kind))) :
    placeProblems node false bs.isEmpty b = [] := by
  rw [List.map_cons] at h
  unfold placeProblems
  cases hk : b.kind with
  | ifThen => rw [hk] at h; cases h
  | elseIf => rfl
  | orElse =>
    rw [hk] at h
    have hnil : bs = [] := List.map_eq_nil_iff.1 h
    rw [hnil]; rfl

/-- Of the parts of a sound branch, only its id can be a problem. -/
theorem not_prevented_branch {b : Branch} (hb : b.Sound) {seen : List Text}
    (h : q ∈ idProblems node .branch (.repeatedBranch b.id) seen b.id ++ [] ++ guardProblems node b ++
      b.speaker.toList.flatMap (speakerProblems node) ++ b.conditions.flatMap (conditionProblems node)) :
    q.isPrevented = false := by
  have hguard : guardProblems node b = [] :=
    guardProblems_eq_nil.2 (hb.guard.imp_right fun ⟨hk, cs, hcs, hne, _⟩ => ⟨hk, cs, hcs, hne⟩)
  have hspeaker : b.speaker.toList.flatMap (speakerProblems node) = [] :=
    List.flatMap_eq_nil_iff.2 fun s hs => speakerProblems_eq_nil.2 (hb.speaker s (Option.mem_toList.1 hs))
  rw [hguard, hspeaker, conditionProblems_of_writable (Branch.writable_conditions hb)] at h
  simp only [List.append_nil] at h
  exact not_prevented_idProblems rfl rfl h

theorem not_prevented_tail {seen : List Text} {bs : List Branch} (hbs : ∀ b ∈ bs, b.Sound)
    (htail : BranchKind.isTail (bs.map (·.kind))) (h : q ∈ branchesProblems node false seen bs) :
    q.isPrevented = false := by
  induction bs generalizing seen with
  | nil => cases h
  | cons b bs ih =>
    rw [branchesProblems, placeProblems_of_isTail htail] at h
    rcases List.mem_append.1 h with h | h
    · exact not_prevented_branch (hbs b (by simp)) h
    · exact ih (fun c hc => hbs c (by simp [hc])) (BranchKind.isTail_of_isTail_cons htail) h

theorem not_prevented_chain {bs : List Branch} (hbs : ∀ b ∈ bs, b.Sound)
    (hchain : BranchKind.isChain (bs.map (·.kind))) (h : q ∈ branchesProblems node true [] bs) :
    q.isPrevented = false := by
  cases bs with
  | nil => cases h
  | cons b bs =>
    rw [branchesProblems, placeProblems_of_isChain hchain] at h
    rcases List.mem_append.1 h with h | h
    · exact not_prevented_branch (hbs b (by simp)) h
    · exact not_prevented_tail (fun c hc => hbs c (by simp [hc])) (BranchKind.isTail_of_isChain_cons hchain) h

/-- What a check can still find in a payload that was read. -/
theorem not_prevented_payloadProblems {p : Payload} (hp : p.Sound) (h : q ∈ payloadProblems node p) :
    q.isPrevented = false := by
  cases p with
  | speech s =>
    have hspeaker : speakerProblems node s.speaker = [] := speakerProblems_eq_nil.2 hp.speaker
    rw [payloadProblems, hspeaker, flagProblems_flatMap_eq_nil.2 hp.setFlags] at h
    cases h
  | menu m =>
    rw [payloadProblems, demand_eq_nil.2 (by simpa using Menu.Sound.choices hp)] at h
    exact not_prevented_choicesProblems (Menu.Sound.sound hp) h
  | branching b =>
    rw [payloadProblems, demand_eq_nil.2 (by simpa using Branching.branches_ne_nil hp)] at h
    exact not_prevented_chain (Branching.Sound.sound hp) (Branching.Sound.chain hp) h
  | storylet s =>
    rw [payloadProblems, storyletProblems, attributeProblems_eq_nil.2 (Storylet.Sound.attributes hp)] at h
    simp only [List.append_nil, List.mem_append, List.mem_flatMap] at h
    rcases h with ((h | h) | ⟨e, -, h⟩) | h <;> exact not_prevented_demand rfl h
  | pool p =>
    rw [payloadProblems, poolProblems, attributeProblems_eq_nil.2 (Pool.Sound.attributes hp)] at h
    simp only [memberProblems, List.append_nil, List.mem_append, List.mem_flatMap] at h
    rcases h with (h | h) | ⟨m, -, h | h⟩ <;> exact not_prevented_demand rfl h

end Prevented
end Check

/-! ## Sound payloads -/

/-- The conditions of a sound payload compare with finite numbers. -/
theorem Payload.isFinite_of_sound {p : Payload} (hp : p.Sound) : p.isFinite := by
  have hfinite : ∀ {cs : List Condition}, (∀ c ∈ cs, c.Writable) → cs.all Condition.isFinite := fun hcs =>
    List.all_eq_true.2 fun c hc => Condition.isFinite_iff.2 (hcs c hc).isFinite
  cases p with
  | speech s => rfl
  | menu m => exact List.all_eq_true.2 fun c hc => hfinite (Menu.Sound.sound hp c hc).conditions
  | branching b =>
    exact List.all_eq_true.2 fun r hr => hfinite (Branch.writable_conditions (Branching.Sound.sound hp r hr))
  | storylet s => rfl
  | pool p => rfl

/-- Only a storylet can refer to something that is no id of a node. -/
theorem Payload.isNodeId_of_mem_references {p : Payload} (hp : p.Sound) (hk : p.kind ≠ .storylet) :
    ∀ r ∈ p.references, Text.isNodeId r.target := by
  intro r hr
  cases p with
  | speech s =>
    obtain ⟨t, ht, rfl⟩ := Option.map_eq_some_iff.1 (Option.mem_toList.1 hr)
    exact Speech.Sound.next hp t ht
  | menu m =>
    obtain ⟨c, hc, hr⟩ := List.mem_filterMap.1 hr
    obtain ⟨t, ht, rfl⟩ := Option.map_eq_some_iff.1 hr
    exact (Menu.Sound.sound hp c hc).next t ht
  | branching b =>
    obtain ⟨c, hc, hr⟩ := List.mem_filterMap.1 hr
    obtain ⟨t, ht, rfl⟩ := Option.map_eq_some_iff.1 hr
    exact (Branching.Sound.sound hp c hc).next t ht
  | storylet s => exact absurd rfl hk
  | pool p =>
    obtain ⟨t, ht, rfl⟩ := Option.map_eq_some_iff.1 (Option.mem_toList.1 hr)
    exact Pool.Sound.next hp t ht

end DialogueScript
