import DialogueScript.Proofs.Node.Menu
/-!
# The grammar of menus

The events of a menu are a row of items. An item is a group on its own, or a bracket around groups: `ifThen` with at
least one condition, the groups, `endIf`. A group is a choice with a text and behind it, in any order, flags that are
set and at most one jump.

A row of events that was taken so far is a row of items, groups of a bracket that is still open if there is one, and
a group that can still grow. Each event makes the last group longer, begins the next group, or opens or closes a
bracket, so that what was taken stays of this form.

Results:
* `Taken.step`: what an event does to the part that was taken.
* `run_items`: items are taken, and each of their groups makes its choice.
* `run_eq_ok_iff`: which rows of events are taken, and what choices they make.
-/
namespace DialogueScript.Menu

/-! ## Groups, items and their choices -/

/-- What can stand behind a choice: a flag that it sets, or the node at which it goes on. -/
inductive Extra
  | set (flag : Text)
  | jump (target : Text)
  deriving DecidableEq, Repr

namespace Extra

def event : Extra → Event
  | set flag => .set flag
  | jump target => .jump target

def flag? : Extra → Option Text
  | set flag => some flag
  | jump _ => none

def target? : Extra → Option Text
  | set _ => none
  | jump target => some target

end Extra

/-- A choice and what stands behind it. -/
structure Group where
  text : Text
  id : Option Text
  extras : List Extra
  deriving DecidableEq, Repr

namespace Group

def events (g : Group) : List Event := .choice g.text g.id :: g.extras.map Extra.event

def flags (g : Group) : List Text := g.extras.filterMap Extra.flag?

def targets (g : Group) : List Text := g.extras.filterMap Extra.target?

/-- The choice has a text, and one jump at most. -/
structure WellFormed (g : Group) : Prop where
  text : g.text ≠ []
  targets : g.targets.length ≤ 1

/-- The choice of a group that stands behind `count` others, with the conditions of the bracket around it. -/
def choice (node : Text) (count : Nat) (guard : Option (List Condition)) (g : Group) : Choice where
  id := g.id.getD (node ++ "-choice-".toList ++ Decimal.digits (count + 1))
  text := g.text
  next := g.targets.head?
  conditions := guard.getD []
  setFlags := g.flags

/-- The group with one more extra. -/
def add (g : Group) (x : Extra) : Group := { g with extras := g.extras ++ [x] }

theorem events_add (g : Group) (x : Extra) : (g.add x).events = g.events ++ [x.event] := by simp [events, add]

theorem flags_add (g : Group) (x : Extra) : (g.add x).flags = g.flags ++ x.flag?.toList := by
  cases h : x.flag? <;> simp [flags, add, h]

theorem targets_add (g : Group) (x : Extra) : (g.add x).targets = g.targets ++ x.target?.toList := by
  cases h : x.target? <;> simp [targets, add, h]

theorem choice_add (node : Text) (count : Nat) (guard : Option (List Condition)) (g : Group) (x : Extra) :
    (g.add x).choice node count guard = { g.choice node count guard with
      next := (g.targets ++ x.target?.toList).head?
      setFlags := g.flags ++ x.flag?.toList } := by
  unfold choice
  rw [targets_add, flags_add]
  rfl

end Group

/-- A group on its own, or a bracket around groups. -/
inductive Item
  | single (group : Group)
  | bracket (conditions : List Condition) (groups : List Group)
  deriving DecidableEq, Repr

namespace Item

def events : Item → List Event
  | single g => g.events
  | bracket cs gs => .ifThen cs :: (gs.flatMap Group.events ++ [.endIf])

def WellFormed : Item → Prop
  | single g => g.WellFormed
  | bracket cs gs => cs ≠ [] ∧ ∀ g ∈ gs, g.WellFormed

/-- The groups of an item, each with the conditions of the bracket around it. -/
def groups : Item → List (Option (List Condition) × Group)
  | single g => [(none, g)]
  | bracket cs gs => gs.map (some cs, ·)

end Item

/-- The choices of groups, one for each in their order. -/
def choicesOf (node : Text) (gs : List (Option (List Condition) × Group)) : List Choice :=
  gs.mapIdx fun count (guard, g) => g.choice node count guard

theorem length_choicesOf (node : Text) (gs : List (Option (List Condition) × Group)) :
    (choicesOf node gs).length = gs.length := List.length_mapIdx

theorem choicesOf_concat (node : Text) (gs : List (Option (List Condition) × Group)) (guard : Option (List Condition))
    (g : Group) : choicesOf node (gs ++ [(guard, g)]) = choicesOf node gs ++ [g.choice node gs.length guard] :=
  List.mapIdx_concat

/-- A bracket has conditions. -/
theorem Item.guard_of_mem_groups {i : Item} (h : i.WellFormed) {guard : List Condition} {g : Group}
    (hg : (some guard, g) ∈ i.groups) : guard ≠ [] := by
  cases i with
  | single g' => simp [groups] at hg
  | bracket cs gs =>
    obtain ⟨g', -, he⟩ := List.mem_map.1 hg
    cases he
    exact h.1

/-! ## What was taken -/

variable {node : Text}

/-- Events are items, the opening of a bracket if `guard` has its conditions, and groups inside of it; the choices are
those of all these groups. -/
structure Rests (node : Text) (es : List Event) (guard : Option (List Condition)) (cs : List Choice)
    (items : List Item) (gs : List Group) : Prop where
  wellFormedItems : ∀ i ∈ items, i.WellFormed
  wellFormedGroups : ∀ g ∈ gs, g.WellFormed
  outside : guard = none → gs = []
  guarded : guard ≠ some []
  events : es = items.flatMap Item.events ++ (guard.toList.map .ifThen ++ gs.flatMap Group.events)
  choices : cs = choicesOf node (items.flatMap Item.groups ++ gs.map (guard, ·))

/-- What the events that were taken have made. -/
inductive Taken (node : Text) : List Event → Progress → Prop
  /-- No choice is open. -/
  | rests {es guard cs items gs} (h : Rests node es guard cs items gs) : Taken node es ⟨cs, none, guard⟩
  /-- The choice of the last group is open. -/
  | grows {es guard cs items gs} {g : Group} (h : Rests node es guard cs items gs) (hg : g.WellFormed) :
    Taken node (es ++ g.events) ⟨cs, some (g.choice node cs.length guard), guard⟩

theorem Rests.nil : Rests node [] none [] [] [] := ⟨by simp, by simp, fun _ => rfl, by simp, rfl, rfl⟩

/-- A bracket begins where none is open. -/
theorem Rests.opens {es : List Event} {cs : List Choice} {items : List Item} {gs : List Group}
    (h : Rests node es none cs items gs) {conditions : List Condition} (hne : conditions ≠ []) :
    Rests node (es ++ [.ifThen conditions]) (some conditions) cs items [] := by
  obtain rfl := h.outside rfl
  refine ⟨h.wellFormedItems, by simp, nofun, by simpa using hne, ?_, ?_⟩
  · rw [h.events]; simp
  · rw [h.choices]; simp

/-- A bracket that ends is an item. -/
theorem Rests.ends {es : List Event} {conditions : List Condition} {cs : List Choice} {items : List Item}
    {gs : List Group} (h : Rests node es (some conditions) cs items gs) :
    Rests node (es ++ [.endIf]) none cs (items ++ [.bracket conditions gs]) [] := by
  have hbracket : Item.WellFormed (.bracket conditions gs) := ⟨by simpa using h.guarded, h.wellFormedGroups⟩
  refine ⟨?_, by simp, fun _ => rfl, by simp, ?_, ?_⟩
  · exact List.forall_mem_append.2 ⟨h.wellFormedItems, by simpa using hbracket⟩
  · rw [h.events]; simp [Item.events]
  · rw [h.choices]; simp [Item.groups]

/-- A group can be added to what was taken. -/
theorem Rests.add {es : List Event} {guard : Option (List Condition)} {cs : List Choice} {items : List Item}
    {gs : List Group} (h : Rests node es guard cs items gs) {g : Group} (hg : g.WellFormed) :
    ∃ items' gs', Rests node (es ++ g.events) guard (cs ++ [g.choice node cs.length guard]) items' gs' := by
  obtain rfl := h.choices
  cases guard with
  | none =>
    obtain rfl := h.outside rfl
    refine ⟨items ++ [.single g], [], ⟨?_, by simp, fun _ => rfl, by simp, ?_, ?_⟩⟩
    · intro i hi
      rcases List.mem_append.1 hi with hi | hi
      · exact h.wellFormedItems i hi
      · rw [List.mem_singleton.1 hi]; exact hg
    · rw [h.events]; simp [Item.events]
    · rw [length_choicesOf, ← choicesOf_concat]; simp [Item.groups]
  | some conditions =>
    refine ⟨items, gs ++ [g], ⟨h.wellFormedItems, ?_, nofun, h.guarded, ?_, ?_⟩⟩
    · exact List.forall_mem_append.2 ⟨h.wellFormedGroups, by simpa using hg⟩
    · rw [h.events]; simp
    · rw [length_choicesOf, ← choicesOf_concat]; simp

/-- All that was taken, whether or not its last group could grow. -/
theorem Taken.exists_rests {es : List Event} {p : Progress} (h : Taken node es p) :
    ∃ items gs, Rests node es p.guard p.choices items gs := by
  cases h with
  | rests h => exact ⟨_, _, by simpa [Progress.choices] using h⟩
  | grows h hg => exact h.add hg

/-- An extra can be added to the last group as long as that has no second jump then. -/
theorem Taken.add {es : List Event} {guard : Option (List Condition)} {cs : List Choice} {items : List Item}
    {gs : List Group} (h : Rests node es guard cs items gs) {g : Group} (hg : g.WellFormed) {x : Extra}
    (hx : (g.targets ++ x.target?.toList).length ≤ 1) :
    Taken node (es ++ g.events ++ [x.event]) ⟨cs, some ((g.add x).choice node cs.length guard), guard⟩ := by
  rw [List.append_assoc, ← Group.events_add]
  exact .grows h ⟨hg.text, by rwa [Group.targets_add]⟩

/-- What an event does to the part that was taken. -/
theorem Taken.step {es : List Event} {p q : Progress} {e : Event} (h : Taken node es p)
    (hstep : p.step node e = .ok q) : Taken node (es ++ [e]) q := by
  obtain ⟨items, gs, hr⟩ := h.exists_rests
  cases Progress.step_cases hstep with
  | @choice text id htext => exact .grows (g := ⟨text, id, []⟩) hr ⟨htext, Nat.zero_le 1⟩
  | @jump target c hc hnext =>
    cases h with
    | rests h => cases hc
    | @grows es guard cs items gs g h hg =>
      cases hc
      have htargets : g.targets = [] := by simpa [Group.choice] using hnext
      have hadd := Taken.add h hg (x := .jump target) (by simp [htargets, Extra.target?])
      have hflags : g.flags ++ (Extra.jump target).flag?.toList = g.flags := List.append_nil _
      rw [Group.choice_add, htargets, hflags] at hadd
      exact hadd
  | @set flag c hc =>
    cases h with
    | rests h => cases hc
    | @grows es guard cs items gs g h hg =>
      cases hc
      have hadd := Taken.add h hg (x := .set flag) (by simpa [Extra.target?] using hg.targets)
      have htargets : g.targets ++ (Extra.set flag).target?.toList = g.targets := List.append_nil _
      rw [Group.choice_add, htargets] at hadd
      exact hadd
  | ifThen hguard hne =>
    rw [hguard] at hr
    exact .rests (hr.opens hne)
  | endIf hguard =>
    rw [hguard] at hr
    exact .rests hr.ends

theorem taken_of_run {es : List Event} {p : Progress} (h : es.foldlM (Progress.step node) .start = .ok p) :
    Taken node es p :=
  except_foldlM_history (fun _ _ _ _ _ ht hstep => ht.step hstep)
    (.rests Rests.nil) h

/-! ## What is taken -/

theorem run_cons {e : Event} {es : List Event} {p q : Progress} (h : p.step node e = .ok q) :
    (e :: es).foldlM (Progress.step node) p = es.foldlM (Progress.step node) q := by
  rw [List.foldlM_cons, h]; rfl

theorem run_append {es fs : List Event} {p q : Progress} (h : es.foldlM (Progress.step node) p = .ok q) :
    (es ++ fs).foldlM (Progress.step node) p = fs.foldlM (Progress.step node) q := by
  rw [List.foldlM_append, h]; rfl

theorem run_extras {xs : List Extra} {c : Choice} (h : (c.next.toList ++ xs.filterMap Extra.target?).length ≤ 1)
    (closed : List Choice) (guard : Option (List Condition)) :
    (xs.map Extra.event).foldlM (Progress.step node) ⟨closed, some c, guard⟩ =
      .ok ⟨closed, some { c with
        next := (c.next.toList ++ xs.filterMap Extra.target?).head?
        setFlags := c.setFlags ++ xs.filterMap Extra.flag? }, guard⟩ := by
  induction xs generalizing c with
  | nil =>
    obtain ⟨id, text, next, conditions, flags⟩ := c
    cases next <;> simp <;> rfl
  | cons x xs ih =>
    cases x with
    | set flag =>
      have hrest := ih (c := { c with setFlags := c.setFlags ++ [flag] }) h
      rw [List.append_assoc] at hrest
      exact hrest
    | jump target =>
      have hnext : c.next = none := by
        cases hn : c.next with
        | none => rfl
        | some t => simp [hn, Extra.target?] at h
      rw [hnext] at h ⊢
      have hrest := ih (c := { c with next := some target }) h
      have hstep : Progress.step node ⟨closed, some c, guard⟩ (.jump target) =
          .ok ⟨closed, some { c with next := some target }, guard⟩ := by
        simp [Progress.step, hnext]
      exact (run_cons hstep).trans hrest

/-- A group is taken, and makes one choice. -/
theorem run_group (node : Text) {g : Group} (h : g.WellFormed) (p : Progress) :
    g.events.foldlM (Progress.step node) p =
      .ok ⟨p.choices, some (g.choice node p.choices.length p.guard), p.guard⟩ := by
  have htext : g.text.isEmpty = false := by simpa using h.text
  let opened : Choice := ⟨g.id.getD (p.defaultId node), g.text, none, p.guard.getD [], []⟩
  have hopens : p.step node (.choice g.text g.id) = .ok ⟨p.choices, some opened, p.guard⟩ := by
    simp [Progress.step, Progress.openChoice, htext, opened]
  exact (run_cons hopens).trans (run_extras (c := opened) h.targets p.choices p.guard)

/-- Groups are taken, and the choices that were there stay in front of theirs. -/
theorem run_groups {gs : List Group} (h : ∀ g ∈ gs, g.WellFormed) {p : Progress}
    {before : List (Option (List Condition) × Group)} (hp : p.choices = choicesOf node before) :
    ∃ q, (gs.flatMap Group.events).foldlM (Progress.step node) p = .ok q ∧ q.guard = p.guard ∧
      q.choices = choicesOf node (before ++ gs.map (p.guard, ·)) := by
  induction gs generalizing p before with
  | nil => exact ⟨p, rfl, rfl, by simpa using hp⟩
  | cons g gs ih =>
    have hgroup := run_group node (h g (by simp)) p
    have hchoices : p.choices ++ [g.choice node p.choices.length p.guard] =
        choicesOf node (before ++ [(p.guard, g)]) := by
      rw [choicesOf_concat, ← length_choicesOf node before, hp]
    obtain ⟨q, hrun, hguard, hq⟩ := ih (fun x hx => h x (by simp [hx]))
      (p := ⟨p.choices, some (g.choice node p.choices.length p.guard), p.guard⟩) hchoices
    exact ⟨q, (run_append hgroup).trans hrun, hguard, by simpa using hq⟩

/-- An item is taken outside of brackets, and leads outside of brackets. -/
theorem run_item {i : Item} (h : i.WellFormed) {p : Progress} (hguard : p.guard = none)
    {before : List (Option (List Condition) × Group)} (hp : p.choices = choicesOf node before) :
    ∃ q, i.events.foldlM (Progress.step node) p = .ok q ∧ q.guard = none ∧
      q.choices = choicesOf node (before ++ i.groups) := by
  cases i with
  | single g =>
    obtain ⟨q, hrun, hq, hchoices⟩ := run_groups (List.forall_mem_singleton.2 h) hp
    rw [hguard] at hq hchoices
    exact ⟨q, by simpa [Item.events] using hrun, hq, hchoices⟩
  | bracket cs gs =>
    have hne : cs.isEmpty = false := by simpa using h.1
    obtain ⟨q, hrun, hq, hchoices⟩ := run_groups h.2 (p := ⟨p.choices, none, some cs⟩)
      (by simpa [Progress.choices] using hp)
    refine ⟨⟨q.choices, none, none⟩, ?_, rfl, by simpa [Progress.choices, Item.groups] using hchoices⟩
    have hopens : p.step node (.ifThen cs) = .ok ⟨p.choices, none, some cs⟩ := by
      simp [Progress.step, hguard, hne]
    have hcloses : q.step node .endIf = .ok ⟨q.choices, none, none⟩ := by simp only [Progress.step, hq]
    exact (run_cons hopens).trans ((run_append hrun).trans (run_cons hcloses))

theorem run_items {items : List Item} (h : ∀ i ∈ items, i.WellFormed) {p : Progress} (hguard : p.guard = none)
    {before : List (Option (List Condition) × Group)} (hp : p.choices = choicesOf node before) :
    ∃ q, (items.flatMap Item.events).foldlM (Progress.step node) p = .ok q ∧ q.guard = none ∧
      q.choices = choicesOf node (before ++ items.flatMap Item.groups) := by
  induction items generalizing p before with
  | nil => exact ⟨p, rfl, hguard, by simpa using hp⟩
  | cons i items ih =>
    obtain ⟨q, hrun, hq, hchoices⟩ := run_item (h i (by simp)) hguard hp
    obtain ⟨q', hrun', hq', hchoices'⟩ := ih (fun x hx => h x (by simp [hx])) hq hchoices
    exact ⟨q', (run_append hrun).trans hrun', hq', by simpa using hchoices'⟩

/-- A row of events is taken and ends outside of brackets exactly when it is a row of well-formed items. Then there is
one choice for each group in order: it has the id that was given or the one for its number, the text, the target of
the jump, the conditions of the bracket around it and the flags of its group, and a choice inside of a bracket has
conditions. -/
theorem run_eq_ok_iff (node : Text) (es : List Event) (cs : List Choice) :
    (∃ p, es.foldlM (Progress.step node) .start = .ok p ∧ p.guard = none ∧ p.choices = cs) ↔
      ∃ items : List Item, (∀ i ∈ items, i.WellFormed) ∧ es = items.flatMap Item.events ∧
        cs = choicesOf node (items.flatMap Item.groups) ∧
        ∀ guard g, (some guard, g) ∈ items.flatMap Item.groups →
          ∀ count, (g.choice node count (some guard)).conditions ≠ [] := by
  constructor
  · rintro ⟨p, hrun, hguard, rfl⟩
    obtain ⟨items, gs, hr⟩ := (taken_of_run hrun).exists_rests
    rw [hguard] at hr
    obtain rfl := hr.outside rfl
    refine ⟨items, hr.wellFormedItems, by simpa using hr.events, by simpa using hr.choices, ?_⟩
    intro guard g hg count
    obtain ⟨i, hi, hg⟩ := List.mem_flatMap.1 hg
    exact Item.guard_of_mem_groups (hr.wellFormedItems i hi) hg
  · rintro ⟨items, hitems, rfl, rfl, -⟩
    have hstart : Progress.start.choices = choicesOf node [] := rfl
    obtain ⟨p, hrun, hguard, hchoices⟩ := run_items hitems rfl hstart
    exact ⟨p, hrun, hguard, hchoices⟩

end DialogueScript.Menu
