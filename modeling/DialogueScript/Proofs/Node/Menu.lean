import DialogueScript.Node.Menu
import DialogueScript.Proofs.Node.Speech
/-!
# Menus are read back

A choice without conditions is read into the choice that is open; one with conditions is read between its
brackets and closed by the second one. Either way the choices read so far grow by that choice, and no bracket
is open behind it.

Results:
* `Menu.Sound`: what every menu that was read is like, and all that a menu has to be like to be read back.
* `read_lines`: a sound menu is read back.
* `event_cases`, `Progress.step_cases`: what the event of a line is, and what events do.
* `sound_of_read`: a menu that was read is sound.
-/
namespace DialogueScript

theorem Node.readConditions_joined (ctx : Node.Context) (n : Nat) {cs : List Condition} (h : ∀ c ∈ cs, c.Writable) :
    Node.readConditions ctx n (Condition.joined cs) = .ok cs := by
  unfold Node.readConditions
  rw [Condition.read_of_dropped_nil ctx.strict (Condition.dropped_joined h), Condition.kept_joined h]
  rfl

theorem Node.writable_of_readConditions {ctx : Node.Context} {n : Nat} {t : Text} {cs : List Condition}
    (h : (Node.readConditions ctx n t).result = .ok cs) : ∀ c ∈ cs, c.Writable := by
  unfold Node.readConditions at h
  split at h
  · next hr => cases h; exact Condition.writable_of_read hr
  · cases h

/-- The ids that are made up for the parts of a node are words. -/
theorem Text.isWord_numbered {node middle : Text} (h : Text.isNodeId node)
    (hm : ∀ c ∈ middle, Text.isBlank c = false) (n : Nat) :
    Text.isWord (node ++ middle ++ Decimal.digits n) := by
  refine ⟨by simp [Text.ne_nil_of_shaped h], ?_⟩
  intro c hc
  rcases List.mem_append.1 hc with hc | hc
  · rcases List.mem_append.1 hc with hc | hc
    · exact (Text.isWord_of_isNodeId h).2 c hc
    · exact hm c hc
  · have := Text.val_of_isAlphanum (c := c) (by simp [Char.isAlphanum, Decimal.isDigit_of_mem_digits hc])
    exact Text.isBlank_of_val (by omega)

/-- A text on one line, an id that is a word, and well-formed names. -/
structure Choice.Sound (c : Choice) : Prop where
  id : Text.isWord c.id
  text : c.text ≠ []
  single : '\n' ∉ c.text
  conditions : ∀ d ∈ c.conditions, d.Writable
  setFlags : ∀ f ∈ c.setFlags, Text.isFlag f
  next : ∀ t ∈ c.next, Text.isNodeId t

namespace Menu

/-- There are choices, and all are sound. -/
structure Sound (m : Menu) : Prop where
  choices : m.choices ≠ []
  sound : ∀ c ∈ m.choices, c.Sound

/-! ## Written lines -/

/-- The lines of a choice without indentation. -/
def plainLines (c : Choice) : List Text :=
  Line.choice c.text c.id :: (Layout.setLines c.setFlags ++ Layout.jumpLines c.next)

/-- The lines of a choice and of the brackets around it without indentation. -/
def trimmedLines (c : Choice) : List Text :=
  match c.conditions with
  | [] => plainLines c
  | cs => Layout.guardLine "if".toList cs :: (plainLines c ++ [Layout.endIfLine])

theorem map_trim_plainChoiceLines {c : Choice} (h : c.Sound) :
    (Layout.plainChoiceLines c).map Text.trim = plainLines c := by
  rw [Layout.plainChoiceLines, List.map_cons, Layout.map_trim_indented, List.map_append, Layout.map_trim_setLines,
    Layout.map_trim_jumpLines, Line.trim_choice h.id]
  rfl

theorem map_trim_choiceLines {c : Choice} (h : c.Sound) : (Layout.choiceLines c).map Text.trim = trimmedLines c := by
  unfold Layout.choiceLines trimmedLines
  cases c.conditions with
  | nil => exact map_trim_plainChoiceLines h
  | cons d ds =>
    show List.map Text.trim (_ :: (_ ++ _)) = _
    rw [List.map_cons, List.map_append, Layout.map_trim_indented, map_trim_plainChoiceLines h, Layout.trim_guardLine]
    rfl

theorem map_trim_lines {m : Menu} (h : m.Sound) : m.lines.map Text.trim = m.choices.flatMap trimmedLines := by
  rw [lines, List.map_flatMap, List.flatMap_def, List.flatMap_def,
    List.map_congr_left fun c hc => map_trim_choiceLines (h.sound c hc)]

theorem isBodyLine_plainChoiceLines {c : Choice} (h : c.Sound) :
    ∀ l ∈ Layout.plainChoiceLines c, Layout.isBodyLine l := by
  intro l hl
  rcases List.mem_cons.1 hl with rfl | hl
  · exact Layout.isBodyLine_choice h.single h.id
  · refine Layout.isBodyLine_indented ?_ l hl
    intro k hk
    rcases List.mem_append.1 hk with hk | hk
    · exact Layout.isBodyLine_setLines h.setFlags k hk
    · exact Layout.isBodyLine_jumpLines h.next k hk

theorem isBodyLine_lines {m : Menu} (h : m.Sound) : ∀ l ∈ m.lines, Layout.isBodyLine l := by
  intro l hl
  obtain ⟨c, hc, hl⟩ := List.mem_flatMap.1 hl
  have hs := h.sound c hc
  unfold Layout.choiceLines at hl
  split at hl
  · exact isBodyLine_plainChoiceLines hs l hl
  · rcases List.mem_cons.1 hl with rfl | hl
    · exact Layout.isBodyLine_guardLine (Text.not_blank_of_all (by decide)) hs.conditions
    rcases List.mem_append.1 hl with hl | hl
    · exact Layout.isBodyLine_indented (isBodyLine_plainChoiceLines hs) l hl
    · rw [List.mem_singleton.1 hl]; exact Layout.isBodyLine_endIf

/-- No line of a menu starts like a comment. -/
theorem head_trimmedLines {c : Choice} : ∀ l ∈ trimmedLines c, ∃ d r, l = d :: r ∧ d ≠ '/' := by
  have hplain : ∀ l ∈ plainLines c, ∃ d r, l = d :: r ∧ d ≠ '/' := by
    intro l hl
    rcases List.mem_cons.1 hl with rfl | hl
    · exact ⟨'-', _, Line.choice_eq _ _, by decide⟩
    rcases List.mem_append.1 hl with hl | hl
    · obtain ⟨f, -, rfl⟩ := List.mem_map.1 hl
      exact ⟨'<', _, Line.set_eq f, by decide⟩
    · obtain ⟨t, -, rfl⟩ := Layout.mem_jumpLines hl
      exact ⟨'<', _, Line.jump_eq t, by decide⟩
  intro l hl
  unfold trimmedLines at hl
  split at hl
  · exact hplain l hl
  · rcases List.mem_cons.1 hl with rfl | hl
    · exact ⟨'<', _, Layout.guardLine_eq _ _, by decide⟩
    rcases List.mem_append.1 hl with hl | hl
    · exact hplain l hl
    · rw [List.mem_singleton.1 hl]; exact ⟨'<', _, rfl, by decide⟩

/-! ## Reading lines -/

variable {ctx : Node.Context}

theorem readLine_of_event {l : SourceLine} (hc : Line.isComment l.text = false) {s : Progress × Nat} {e : Event}
    {n : Nat} (he : event ctx s.2 l = .ok (e, n)) {p : Progress} (hp : s.1.step ctx.node e = .ok p) :
    readLine ctx s l = .ok (p, n) := by
  unfold readLine
  rw [hc, he]
  simp only [Bool.false_eq_true, if_false, Reading.ok_andThen, hp]
  rfl

theorem event_choice {text id : Text} (h : Text.isWord id) (k n : Nat) :
    event ctx k ⟨n, Line.choice text id⟩ = .ok (.choice text (some id), k) := by
  simp only [event, Line.choice?_choice h]

theorem event_of_command {l : Text} {c : Line.Command} (hl : ∃ r, l = '<' :: r) (h : Line.command? l = some c)
    (k n : Nat) : event ctx k ⟨n, l⟩ =
      match c with
      | .jump target => .ofExcept ((Node.readTarget n target).map fun t => (.jump t, k))
      | .set flag value => .ofExcept ((Node.readFlag n flag value).map fun f => (.set f, k))
      | .ifThen condition => (Node.readConditions ctx n condition).andThen fun cs => .ok (.ifThen cs, n)
      | .endIf => .ok (.endIf, k)
      | _ => .fail ⟨n, .menuLine l⟩ := by
  obtain ⟨r, rfl⟩ := hl
  unfold event
  simp only [Line.choice?_of_ne (show '<' ≠ '-' by decide), h]
  cases c <;> rfl

theorem takes_setLines {flags : List Text} (h : ∀ f ∈ flags, Text.isFlag f) (closed : List Choice) (c : Choice)
    (g : Option (List Condition)) : Takes (readLine ctx) (·.1 = ⟨closed, some c, g⟩) (Layout.setLines flags)
      (·.1 = ⟨closed, some { c with setFlags := c.setFlags ++ flags }, g⟩) := by
  induction flags generalizing c with
  | nil => exact Takes.nil fun s hs => by rw [hs, List.append_nil]
  | cons f flags ih =>
    have hrest := ih (fun u hu => h u (by simp [hu])) { c with setFlags := c.setFlags ++ [f] }
    rw [List.append_assoc, List.singleton_append] at hrest
    refine Takes.cons ?_ hrest
    intro s n hs
    have hcmd := Line.command?_set (h f (by simp))
    refine ⟨(⟨closed, some { c with setFlags := c.setFlags ++ [f] }, g⟩, s.2),
      readLine_of_event (e := .set f) ?_ ?_ ?_, rfl⟩
    · rw [Line.set_eq]; exact Line.isComment_of_ne (by decide) _
    · rw [event_of_command ⟨_, Line.set_eq f⟩ hcmd]; simp only [Node.readFlag_true]; rfl
    · rw [hs]; rfl

theorem takes_jumpLines {target : Option Text} (h : ∀ t ∈ target, Text.isNodeId t) (closed : List Choice) {c : Choice}
    (hc : c.next = none) (g : Option (List Condition)) : Takes (readLine ctx) (·.1 = ⟨closed, some c, g⟩)
      (Layout.jumpLines target) (·.1 = ⟨closed, some { c with next := target }, g⟩) := by
  cases target with
  | none => exact Takes.nil fun s hs => by rw [hs, ← hc]
  | some t =>
    apply Takes.line
    intro s n hs
    have hcmd := Line.command?_jump (h t rfl)
    refine ⟨(⟨closed, some { c with next := some t }, g⟩, s.2), readLine_of_event (e := .jump t) ?_ ?_ ?_, rfl⟩
    · rw [Line.jump_eq]; exact Line.isComment_of_ne (by decide) _
    · rw [event_of_command ⟨_, Line.jump_eq t⟩ hcmd]; simp only [Node.readTarget_of_isNodeId (h t rfl)]; rfl
    · rw [hs]; simp only [Progress.step, hc]; rfl

theorem takes_plainLines {c : Choice} (h : c.Sound) (p : Progress) (hg : p.guard.getD [] = c.conditions) :
    Takes (readLine ctx) (·.1 = p) (plainLines c) (·.1 = ⟨p.choices, some c, p.guard⟩) := by
  have hset := @takes_setLines ctx c.setFlags h.setFlags p.choices ⟨c.id, c.text, none, p.guard.getD [], []⟩ p.guard
  have hjump := @takes_jumpLines ctx c.next h.next p.choices
    ⟨c.id, c.text, none, p.guard.getD [], c.setFlags⟩ rfl p.guard
  rw [List.nil_append] at hset
  rw [hg] at hset hjump
  refine Takes.cons ?_ (hset.append hjump)
  intro s n hs
  have htext : c.text.isEmpty = false := by simpa using h.text
  refine ⟨(⟨p.choices, some ⟨c.id, c.text, none, c.conditions, []⟩, p.guard⟩, s.2),
    readLine_of_event (e := .choice c.text (some c.id)) ?_ ?_ ?_, rfl⟩
  · rw [Line.choice_eq]; rfl
  · exact event_choice h.id s.2 n
  · rw [hs]; simp [Progress.step, Progress.openChoice, htext, hg]

/-- The choices read so far grow by a choice, and no bracket is open before or behind it. -/
theorem takes_choice {c : Choice} (h : c.Sound) (cs : List Choice) :
    Takes (readLine ctx) (fun s => s.1.choices = cs ∧ s.1.guard = none) (trimmedLines c)
      (fun s => s.1.choices = cs ++ [c] ∧ s.1.guard = none) := by
  unfold trimmedLines
  split
  · next hnil =>
    intro s ls hs hls
    obtain ⟨s', hfold, hs'⟩ := takes_plainLines h s.1 (by rw [hs.2, hnil]; rfl) s ls rfl hls
    refine ⟨s', hfold, ?_⟩
    show s'.1.choices = cs ++ [c] ∧ s'.1.guard = none
    rw [hs', hs.1, hs.2]
    exact ⟨rfl, rfl⟩
  · next hne =>
    have hcmd := Layout.command?_guardLine "if".toList (by decide) (Text.not_blank_of_all (by decide)) hne h.conditions
    refine Takes.cons (Q := (·.1 = ⟨cs, none, some c.conditions⟩)) (fun s n hs => ?_)
      (Takes.append (takes_plainLines h ⟨cs, none, some c.conditions⟩ rfl) (Takes.line fun s n hs => ?_))
    · refine ⟨(⟨cs, none, some c.conditions⟩, n), readLine_of_event (e := .ifThen c.conditions) ?_ ?_ ?_, rfl⟩
      · rw [Layout.guardLine_eq]; exact Line.isComment_of_ne (by decide) _
      · rw [event_of_command ⟨_, Layout.guardLine_eq _ _⟩ hcmd]
        show (Node.readConditions ctx n (Condition.joined c.conditions)).andThen _ = _
        rw [Node.readConditions_joined ctx n h.conditions]
        rfl
      · have hempty : c.conditions.isEmpty = false := by simpa using hne
        simp only [Progress.step, hs.1, hs.2, hempty, Bool.false_eq_true, if_false]
    · have hevent := @event_of_command ctx _ _ Layout.head_endIf Layout.command?_endIf s.2 n
      refine ⟨(⟨cs ++ [c], none, none⟩, s.2), readLine_of_event rfl hevent ?_, by simp [Progress.choices]⟩
      rw [hs]
      simp [Progress.step, Progress.choices]

theorem takes_choices {ds : List Choice} (h : ∀ c ∈ ds, c.Sound) (cs : List Choice) :
    Takes (readLine ctx) (fun s => s.1.choices = cs ∧ s.1.guard = none) (ds.flatMap trimmedLines)
      (fun s => s.1.choices = cs ++ ds ∧ s.1.guard = none) := by
  induction ds generalizing cs with
  | nil => exact Takes.nil fun s hs => by rw [List.append_nil]; exact hs
  | cons d ds ih =>
    have hrest := ih (fun c hc => h c (by simp [hc])) (cs ++ [d])
    rw [List.append_assoc, List.singleton_append] at hrest
    exact (takes_choice (h d (by simp)) cs).append hrest

theorem meaningful_eq {m : Menu} {b : Block} (hb : b.body.map (·.text) = m.choices.flatMap trimmedLines) :
    b.meaningful = b.body :=
  Block.meaningful_eq hb fun l hl => by
    obtain ⟨c, -, hl⟩ := List.mem_flatMap.1 hl
    obtain ⟨d, r, rfl, hd⟩ := head_trimmedLines l hl
    exact .inl (Line.isComment_of_ne hd r)

theorem read_lines {m : Menu} (h : m.Sound) {b : Block} (hb : b.body.map (·.text) = m.choices.flatMap trimmedLines) :
    read ctx b = .ok m := by
  obtain ⟨s, hfold, hs, hg⟩ := @takes_choices ctx m.choices h.sound [] (.start, b.titleLine) b.body ⟨rfl, rfl⟩ hb
  have hne : m.choices.isEmpty = false := by simpa using h.choices
  rw [List.nil_append] at hs
  unfold read
  rw [meaningful_eq hb, hfold]
  show (Reading.ok s).andThen _ = _
  rw [Reading.ok_andThen, finish, hg, hs, hne]
  rfl

/-! ## What lines and events do -/

/-- The event of a line that is no comment. -/
inductive Event.OfLine (ctx : Node.Context) (l : SourceLine) : Event → Prop
  | choice {text : Text} {id : Option Text} (h : Line.choice? l.text = some (text, id)) : OfLine ctx l (.choice text id)
  | jump {target : Text} (h : Line.command? l.text = some (.jump target)) (ht : Text.isNodeId target) :
    OfLine ctx l (.jump target)
  | set {flag : Text} (h : Line.command? l.text = some (.set flag "true".toList)) : OfLine ctx l (.set flag)
  | ifThen {text : Text} {cs : List Condition} (h : Line.command? l.text = some (.ifThen text))
    (hcs : (Node.readConditions ctx l.number text).result = .ok cs) : OfLine ctx l (.ifThen cs)
  | endIf (h : Line.command? l.text = some .endIf) : OfLine ctx l .endIf

theorem event_cases {k n : Nat} {l : SourceLine} {e : Event} (h : (event ctx k l).result = .ok (e, n)) :
    e.OfLine ctx l := by
  unfold event at h
  split at h
  · next hc => cases h; exact .choice hc
  · split at h
    · next hc =>
      obtain ⟨t, ht, he⟩ := except_map_eq_ok h
      cases he
      obtain ⟨rfl, ht⟩ := Node.readTarget_eq_ok_iff.1 ht
      exact .jump hc ht
    · next hc =>
      obtain ⟨f, hf, he⟩ := except_map_eq_ok h
      cases he
      obtain ⟨rfl, rfl⟩ := Node.readFlag_eq_ok_iff.1 hf
      exact .set hc
    · next hc =>
      obtain ⟨cs, hcs, he⟩ := Reading.andThen_eq_ok h
      cases he
      exact .ifThen hc hcs
    · next hc => cases h; exact .endIf hc
    · cases h

/-- What an event that is taken does: it opens a choice, gives the open choice its jump or one more flag, or opens or
closes a bracket. -/
inductive Progress.Step (node : Text) (p : Progress) : Event → Progress → Prop
  | choice {text : Text} {id : Option Text} (htext : text ≠ []) : Step node p (.choice text id)
    ⟨p.choices, some ⟨id.getD (p.defaultId node), text, none, p.guard.getD [], []⟩, p.guard⟩
  | jump {target : Text} {c : Choice} (hc : p.current = some c) (hnext : c.next = none) :
    Step node p (.jump target) { p with current := some { c with next := some target } }
  | set {flag : Text} {c : Choice} (hc : p.current = some c) :
    Step node p (.set flag) { p with current := some { c with setFlags := c.setFlags ++ [flag] } }
  | ifThen {cs : List Condition} (hguard : p.guard = none) (hne : cs ≠ []) :
    Step node p (.ifThen cs) ⟨p.choices, none, some cs⟩
  | endIf {cs : List Condition} (hguard : p.guard = some cs) : Step node p .endIf ⟨p.choices, none, none⟩

theorem Progress.step_cases {node : Text} {p q : Progress} {e : Event} (h : p.step node e = .ok q) :
    p.Step node e q := by
  cases e with
  | choice text id =>
    simp only [step, openChoice] at h
    split at h
    · cases h
    · next htext => cases h; exact .choice (by simpa using htext)
  | jump target =>
    simp only [step] at h
    split at h
    · cases h
    · next c hc =>
      split at h
      · cases h
      · next hnext => cases h; exact .jump hc (by simpa using hnext)
  | set flag =>
    simp only [step] at h
    split at h
    · cases h
    · next c hc => cases h; exact .set hc
  | ifThen cs =>
    simp only [step] at h
    split at h
    · cases h
    · next hguard =>
      split at h
      · cases h
      · next hne => cases h; exact .ifThen hguard (by simpa using hne)
  | endIf =>
    simp only [step] at h
    split at h
    · next cs hguard => cases h; exact .endIf hguard
    · cases h

theorem readLine_cases {s s' : Progress × Nat} {l : SourceLine} (h : (readLine ctx s l).result = .ok s') :
    (Line.isComment l.text ∧ s' = s) ∨ ∃ e, e.OfLine ctx l ∧ s.1.Step ctx.node e s'.1 := by
  unfold readLine at h
  split at h
  · next hl => cases h; exact .inl ⟨hl, rfl⟩
  · obtain ⟨⟨e, n⟩, he, h⟩ := Reading.andThen_eq_ok h
    obtain ⟨p, hp, rfl⟩ := except_map_eq_ok h
    exact .inr ⟨e, event_cases he, Progress.step_cases (except_mapError_eq_ok hp)⟩

/-- A menu is the choices that were read of its lines, and there are some. -/
theorem run_of_read {b : Block} {m : Menu} (h : (read ctx b).result = .ok m) :
    ∃ s, (b.meaningful.foldlM (readLine ctx) (.start, b.titleLine)).result = .ok s ∧ m.choices = s.1.choices ∧
      m.choices ≠ [] := by
  obtain ⟨s, hfold, hf⟩ := Reading.andThen_eq_ok h
  simp only [Reading.ofExcept, finish] at hf
  split at hf
  · cases hf
  · split at hf
    · cases hf
    · next hne => cases hf; exact ⟨s, hfold, rfl, by simpa using hne⟩

/-! ## What was read -/

/-- What an event brings into a menu is sound. -/
def Event.Sound : Event → Prop
  | .choice text id => '\n' ∉ text ∧ ∀ i ∈ id, Text.isWord i
  | .jump target => Text.isNodeId target
  | .set flag => Text.isFlag flag
  | .ifThen cs => ∀ c ∈ cs, c.Writable
  | .endIf => True

/-- All choices are sound, and so are the conditions of the bracket around the next ones. -/
structure Progress.Sound (p : Progress) : Prop where
  choices : ∀ c ∈ p.choices, c.Sound
  guard : ∀ cs ∈ p.guard, ∀ c ∈ cs, c.Writable

theorem Progress.sound_openChoice {p : Progress} {text : Text} {id : Option Text} (hp : p.Sound)
    (hnode : Text.isNodeId ctx.node) (he : (Event.choice text id).Sound) (htext : text ≠ []) :
    Progress.Sound
      ⟨p.choices, some ⟨id.getD (p.defaultId ctx.node), text, none, p.guard.getD [], []⟩, p.guard⟩ := by
  refine ⟨?_, hp.guard⟩
  intro c hc
  rcases List.mem_append.1 hc with hc | hc
  · exact hp.choices c hc
  · rw [List.mem_singleton.1 hc]
    refine ⟨?_, htext, he.1, ?_, by simp, by simp⟩
    · cases id with
      | some i => exact he.2 i rfl
      | none => exact Text.isWord_numbered hnode (Text.not_blank_of_all (by decide)) _
    · cases hg : p.guard with
      | none => simp
      | some cs => exact hp.guard cs hg

/-- Exchanging the choice that is open for a sound one keeps the choices sound. -/
theorem Progress.sound_current {p : Progress} (hp : p.Sound) {c : Choice} (hc : c.Sound) :
    Progress.Sound { p with current := some c } := by
  refine ⟨?_, hp.guard⟩
  intro d hd
  rcases List.mem_append.1 hd with hd | hd
  · exact hp.choices d (List.mem_append_left _ hd)
  · rw [List.mem_singleton.1 hd]; exact hc

theorem Progress.sound_of_current {p : Progress} (hp : p.Sound) {c : Choice} (hc : p.current = some c) : c.Sound :=
  hp.choices c (by simp [Progress.choices, hc])

theorem Progress.sound_jump {p : Progress} (hp : p.Sound) {c : Choice} (hc : p.current = some c) {target : Text}
    (ht : Text.isNodeId target) : Progress.Sound { p with current := some { c with next := some target } } := by
  have hs := sound_of_current hp hc
  exact sound_current hp ⟨hs.id, hs.text, hs.single, hs.conditions, hs.setFlags, by rintro t ⟨⟩; exact ht⟩

theorem Progress.sound_set {p : Progress} (hp : p.Sound) {c : Choice} (hc : p.current = some c) {flag : Text}
    (hf : Text.isFlag flag) :
    Progress.Sound { p with current := some { c with setFlags := c.setFlags ++ [flag] } } := by
  have hs := sound_of_current hp hc
  refine sound_current hp ⟨hs.id, hs.text, hs.single, hs.conditions, ?_, hs.next⟩
  intro f hm
  rcases List.mem_append.1 hm with hm | hm
  · exact hs.setFlags f hm
  · rw [List.mem_singleton.1 hm]; exact hf

theorem Progress.sound_step {p q : Progress} {e : Event} (hp : p.Sound) (hnode : Text.isNodeId ctx.node) (he : e.Sound)
    (h : p.Step ctx.node e q) : q.Sound := by
  cases h with
  | choice htext => exact sound_openChoice hp hnode he htext
  | jump hc => exact sound_jump hp hc he
  | set hc => exact sound_set hp hc he
  | ifThen => exact ⟨fun c hc => hp.choices c (by simpa [choices] using hc), by rintro ds ⟨⟩; exact he⟩
  | endIf => exact ⟨fun c hc => hp.choices c (by simpa [choices] using hc), by simp⟩

theorem Event.sound_of_line {l : SourceLine} {e : Event} (hl : '\n' ∉ l.text) (h : e.OfLine ctx l) : e.Sound := by
  cases h with
  | choice hc => exact ⟨Line.newline_not_mem_of_choice? hc hl, by rintro i rfl; exact Line.isWord_of_choice? hc⟩
  | jump _ ht => exact ht
  | set hc => exact Line.isFlag_of_command? hc
  | ifThen _ hcs => exact Node.writable_of_readConditions hcs
  | endIf => exact True.intro

theorem sound_readLine {s s' : Progress × Nat} {l : SourceLine} (hs : s.1.Sound) (hnode : Text.isNodeId ctx.node)
    (hl : '\n' ∉ l.text) (h : (readLine ctx s l).result = .ok s') : s'.1.Sound := by
  obtain ⟨-, rfl⟩ | ⟨e, he, hstep⟩ := readLine_cases h
  · exact hs
  · exact Progress.sound_step hs hnode (Event.sound_of_line hl he) hstep

theorem sound_of_read {b : Block} {m : Menu} (hnode : Text.isNodeId ctx.node) (hl : ∀ l ∈ b.body, '\n' ∉ l.text)
    (h : (read ctx b).result = .ok m) : m.Sound := by
  obtain ⟨s, hfold, hm, hne⟩ := run_of_read h
  have hs : s.1.Sound := Reading.foldlM_invariant (I := fun s : Progress × Nat => s.1.Sound)
    (fun l hm t t' ht hstep => sound_readLine ht hnode (hl l (List.mem_filter.1 hm).1) hstep)
    ⟨by simp [Progress.start, Progress.choices], by simp [Progress.start]⟩ hfold
  exact ⟨hne, hm ▸ hs.choices⟩

end Menu
end DialogueScript
