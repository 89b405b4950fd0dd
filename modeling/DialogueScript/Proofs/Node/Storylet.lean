import DialogueScript.Node.Storylet
import DialogueScript.Proofs.Node.Speech
/-!
# Storylet calls and pools are read back

The directive of a call or a pool has its own attributes in front and the ones that are carried along behind
them. The latter have other keys, so each attribute is found where it was put, and what is left over is what
was carried along.

Results:
* `Storylet.Sound`, `Pool.Sound`: what was read is like this, and this is all that is needed to be read back.
* `Storylet.read_lines`, `Pool.read_lines`: sound calls and pools are read back.
* `Storylet.step_cases`, `Pool.Progress.step_cases`: what a line of a call or a pool can be.
* `Storylet.sound_of_read`, `Pool.sound_of_read`: what was read is sound.
-/
namespace DialogueScript

/-- Attributes under well-formed keys, none of which is reserved. -/
def Directive.Carried (reserved : List Text) (attributes : Dictionary Text) : Prop :=
  ∀ k ∈ attributes.keys, Text.isAttributeKey k ∧ k ∉ reserved

namespace Directive

variable {reserved : List Text} {attributes : Dictionary Text}

theorem carried_entries (h : Carried reserved attributes) {a : Text × Text} (ha : a ∈ attributes.entries) :
    Text.isAttributeKey a.1 ∧ a.1 ∉ reserved := h a.1 (List.mem_map_of_mem ha)

/-- An attribute under a reserved key is found in front of those that are carried along, or not at all. -/
theorem get?_withAttributes (h : Carried reserved attributes) (d : Directive) {key : Text} (hkey : key ∈ reserved) :
    (d.withAttributes attributes).get? key = d.get? key := by
  have hnone : attributes.entries.find? (·.1 == key) = none := by
    rw [List.find?_eq_none]
    intro a ha he
    rw [← show a.1 = key by simpa using he] at hkey
    exact (carried_entries h ha).2 hkey
  simp only [get?, withAttributes, List.find?_append, hnone, Option.or_none]

/-- What is left over of a directive is what it carries along. -/
theorem extraAttributes_withAttributes (h : Carried reserved attributes) {d : Directive}
    (hd : ∀ k ∈ d.attributes.map (·.1), k ∈ reserved) :
    (d.withAttributes attributes).extraAttributes reserved = attributes := by
  have h1 : d.attributes.filter (fun a => !reserved.contains a.1) = [] := by
    rw [List.filter_eq_nil_iff]
    intro a ha
    simp [hd a.1 (List.mem_map_of_mem ha)]
  have h2 : attributes.entries.filter (fun a => !reserved.contains a.1) = attributes.entries := by
    rw [List.filter_eq_self]
    intro a ha
    simp [(carried_entries h ha).2]
  show Dictionary.ofList ((d.attributes ++ attributes.entries).filter fun a => !reserved.contains a.1) = _
  rw [List.filter_append, h1, h2, List.nil_append, Dictionary.ofList_entries]

theorem isWritable_of_keys {d : Directive} (hn : Text.isAttributeKey d.name)
    (hk : ∀ k ∈ d.attributes.map (·.1), Text.isAttributeKey k) : d.isWritable :=
  isWritable_iff.2 ⟨hn, fun _ ha => hk _ (List.mem_map_of_mem ha)⟩

theorem isWritable_withAttributes (h : Carried reserved attributes) {d : Directive} (hd : d.isWritable) :
    (d.withAttributes attributes).isWritable := by
  rw [isWritable_iff] at hd ⊢
  refine ⟨hd.1, ?_⟩
  intro a ha
  rcases List.mem_append.1 ha with ha | ha
  · exact hd.2 a ha
  · exact (carried_entries h ha).1

/-- Attributes that were read and are not known are carried along. -/
theorem carried_extraAttributes {l : Text} {d : Directive} (h : Line.directive? l = some (.ok d))
    (reserved : List Text) :
    Carried reserved (d.extraAttributes reserved) := by
  intro k hk
  obtain ⟨a, ha, rfl⟩ := List.mem_map.1 hk
  obtain ⟨ha, hr⟩ := List.mem_filter.1 (Dictionary.mem_of_mem_ofList ha)
  exact ⟨isAttributeKey_of_directive? h a ha, by simpa using hr⟩

theorem required_eq_ok {d : Directive} {n : Nat} {key v : Text} (h : d.required n key = .ok v) : v ≠ [] := by
  unfold required at h
  split at h
  · cases h; simp
  · cases h

theorem get?_of_required {d : Directive} {n : Nat} {key v : Text} (h : d.required n key = .ok v) :
    d.get? key = some v := by
  unfold required at h
  split at h
  · next hget => cases h; exact hget
  · cases h

theorem required_of_get? {d : Directive} {key v : Text} (hv : v ≠ []) (h : d.get? key = some v) (n : Nat) :
    d.required n key = .ok v := by
  cases v with
  | nil => exact absurd rfl hv
  | cons c r => simp only [required, h]

theorem policy_of_get? {α : Type} {d : Directive} {key name : Text} {ofName? : Text → Option α} {a : α}
    (h : d.get? key = some name) (ha : ofName? name = some a) (n : Nat) (default : α) :
    d.policy n key ofName? default = .ok a := by
  simp only [policy, h, ha]

end Directive

/-! ## Storylet calls -/

namespace Storylet

/-- A template, and attributes that can be carried along. -/
structure Sound (s : Storylet) : Prop where
  template : s.template ≠ []
  attributes : Directive.Carried Check.storyletKeys s.attributes

theorem ofName?_entry (e : Entry) : Entry.ofName? e.name = some e := by cases e <;> decide

theorem ofName?_exit (e : Exit) : Exit.ofName? e.name = some e := by cases e <;> decide

/-- The directive of a call without what is carried along. -/
def ownDirective (s : Storylet) : Directive :=
  ((Directive.withOptional ⟨directiveName, [("template".toList, s.template), ("entry".toList, s.entry.name)]⟩
    "entry_node".toList s.entryNode).withOptional "return".toList (some s.exit.name)).withOptional
    "return_node".toList s.exitNode

theorem directive_eq (s : Storylet) : s.directive = s.ownDirective.withAttributes s.attributes := rfl

theorem keys_ownDirective (s : Storylet) : ∀ k ∈ s.ownDirective.attributes.map (·.1), k ∈ Check.storyletKeys := by
  unfold ownDirective
  cases s.entryNode <;> cases s.exitNode <;>
    simp only [Directive.withOptional, List.cons_append, List.nil_append, List.map_cons, List.map_nil] <;> decide

theorem get?_ownDirective (s : Storylet) :
    s.ownDirective.get? "template".toList = some s.template ∧ s.ownDirective.get? "entry".toList = some s.entry.name ∧
      s.ownDirective.get? "entry_node".toList = s.entryNode ∧
      s.ownDirective.get? "return".toList = some s.exit.name ∧
      s.ownDirective.get? "return_node".toList = s.exitNode := by
  obtain ⟨template, entry, entryNode, exit, exitNode, attributes⟩ := s
  cases entryNode <;> cases exitNode <;> exact ⟨rfl, rfl, rfl, rfl, rfl⟩

theorem isAttributeKey_storyletKeys : ∀ k ∈ Check.storyletKeys, Text.isAttributeKey k := by decide

theorem isWritable_directive {s : Storylet} (h : s.Sound) : s.directive.isWritable := by
  rw [directive_eq]
  refine Directive.isWritable_withAttributes h.attributes (Directive.isWritable_of_keys ?_ ?_)
  · have hname : s.ownDirective.name = directiveName := by
      unfold ownDirective
      cases s.entryNode <;> cases s.exitNode <;> rfl
    rw [hname]
    decide
  · intro k hk
    exact isAttributeKey_storyletKeys k (keys_ownDirective s k hk)

theorem isBodyLine_lines {s : Storylet} (h : s.Sound) : ∀ l ∈ s.lines, Layout.isBodyLine l := by
  intro l hl
  rw [List.mem_singleton.1 hl]
  exact Layout.isBodyLine_directive (isWritable_directive h)

theorem map_trim_lines {s : Storylet} (h : s.Sound) : s.lines.map Text.trim = s.lines := by
  rw [lines, List.map_singleton, Directive.trim_line (isWritable_directive h)]

theorem ofDirective_directive {s : Storylet} (h : s.Sound) (n : Nat) : ofDirective n s.directive = .ok s := by
  have hget : ∀ key ∈ Check.storyletKeys, s.directive.get? key = s.ownDirective.get? key :=
    fun key hkey => Directive.get?_withAttributes h.attributes s.ownDirective hkey
  obtain ⟨htemplate, hentry, hentryNode, hexit, hexitNode⟩ := get?_ownDirective s
  rw [← hget _ (by decide)] at htemplate hentry hentryNode hexit hexitNode
  have hextra : s.directive.extraAttributes Check.storyletKeys = s.attributes :=
    Directive.extraAttributes_withAttributes h.attributes (keys_ownDirective s)
  unfold ofDirective
  rw [Directive.required_of_get? h.template htemplate, Directive.policy_of_get? hentry (ofName?_entry s.entry),
    Directive.policy_of_get? hexit (ofName?_exit s.exit), hentryNode, hexitNode, hextra]
  rfl

theorem name_directive (s : Storylet) : s.directive.name = directiveName := by
  rw [directive_eq]
  unfold ownDirective
  cases s.entryNode <;> cases s.exitNode <;> rfl

theorem step_directive {s : Storylet} (h : s.Sound) (n : Nat) : step none ⟨n, s.directive.line⟩ = .ok (some s) := by
  simp only [step, Directive.directive?_line (isWritable_directive h), name_directive, if_true, Option.isSome_none,
    Bool.false_eq_true, if_false, ofDirective_directive h]
  rfl

theorem meaningful_eq {s : Storylet} (h : s.Sound) {b : Block} (hb : b.body.map (·.text) = s.lines) :
    b.meaningful = b.body :=
  Block.meaningful_eq hb fun l hl => by
    rw [List.mem_singleton.1 hl, Directive.directive?_line (isWritable_directive h)]
    exact .inr rfl

theorem read_lines {s : Storylet} (h : s.Sound) {b : Block} (hb : b.body.map (·.text) = s.lines) : read b = .ok s := by
  have htakes : Takes step (· = none) s.lines (· = some s) :=
    Takes.line fun f n hf => by rw [hf]; exact ⟨some s, step_directive h n, rfl⟩
  obtain ⟨f, hfold, rfl⟩ := htakes none b.body rfl hb
  unfold read
  rw [meaningful_eq h hb, hfold]
  rfl

/-- A call has the template that its directive requires, and carries along what the directive has beyond that. -/
theorem required_of_ofDirective {d : Directive} {n : Nat} {s : Storylet} (h : ofDirective n d = .ok s) :
    d.required n "template".toList = .ok s.template ∧ s.attributes = d.extraAttributes Check.storyletKeys := by
  obtain ⟨template, ht, h⟩ := except_bind_eq_ok h
  obtain ⟨entry, -, h⟩ := except_bind_eq_ok h
  obtain ⟨exit, -, h⟩ := except_bind_eq_ok h
  cases h
  exact ⟨ht, rfl⟩

/-- A line of a call is the directive that states it, and nothing has stated it before. -/
theorem step_cases {found found' : Option Storylet} {l : SourceLine} (h : step found l = .ok found') :
    found = none ∧ ∃ d s, Line.directive? l.text = some (.ok d) ∧ d.name = directiveName ∧
      ofDirective l.number d = .ok s ∧ found' = some s := by
  unfold step at h
  split at h
  · cases h
  · next d hd =>
    split at h
    · next hname =>
      split at h
      · cases h
      · next hnone =>
        obtain ⟨s, hs, rfl⟩ := except_map_eq_ok h
        exact ⟨by simpa using hnone, d, s, hd, hname, hs, rfl⟩
    · cases h
  · cases h

theorem sound_ofDirective {l : Text} {d : Directive} (hl : Line.directive? l = some (.ok d)) {n : Nat} {s : Storylet}
    (h : ofDirective n d = .ok s) : s.Sound := by
  obtain ⟨htemplate, hattributes⟩ := required_of_ofDirective h
  refine ⟨Directive.required_eq_ok htemplate, ?_⟩
  rw [hattributes]
  exact Directive.carried_extraAttributes hl Check.storyletKeys

theorem sound_step {found found' : Option Storylet} {l : SourceLine} (h : step found l = .ok found') :
    ∀ s ∈ found', s.Sound := by
  obtain ⟨-, d, s, hd, -, hs, rfl⟩ := step_cases h
  rintro _ ⟨⟩
  exact sound_ofDirective hd hs

theorem sound_of_read {b : Block} {s : Storylet} (h : read b = .ok s) : s.Sound := by
  obtain ⟨found, hfold, h⟩ := except_bind_eq_ok h
  have hs := except_foldlM_invariant (I := fun found : Option Storylet => ∀ s ∈ found, s.Sound)
    (fun l _ f f' _ hstep => sound_step hstep) (by simp) hfold
  cases found with
  | some t => cases h; exact hs _ rfl
  | none => cases h

end Storylet

/-! ## Storylet pools -/

namespace Pool

/-- A name, members with templates, a node to go on at, and attributes that can be carried along. -/
structure Sound (p : Pool) : Prop where
  pool : p.pool ≠ []
  members : ∀ m ∈ p.members, m.template ≠ []
  next : ∀ t ∈ p.next, Text.isNodeId t
  attributes : Directive.Carried Check.poolKeys p.attributes

theorem ofName?_selection (s : Selection) : Selection.ofName? s.name = some s := by cases s <;> decide

/-- The directive of a pool without what is carried along. -/
def ownDirective (p : Pool) : Directive :=
  ⟨directiveName, [("pool".toList, p.pool), ("selection".toList, p.selection.name)]⟩

theorem keys_ownDirective (p : Pool) : ∀ k ∈ p.ownDirective.attributes.map (·.1), k ∈ Check.poolKeys := by
  simp only [ownDirective, List.map_cons, List.map_nil]
  decide

theorem isWritable_directive {p : Pool} (h : p.Sound) : p.directive.isWritable := by
  refine Directive.isWritable_withAttributes h.attributes (d := p.ownDirective)
    (Directive.isWritable_of_keys (by decide : Text.isAttributeKey directiveName) fun k hk => ?_)
  exact (by decide : ∀ k ∈ Check.poolKeys, Text.isAttributeKey k) k (keys_ownDirective p k hk)

theorem isWritable_memberDirective (m : PoolMember) : (memberDirective m).isWritable := by
  apply Directive.isWritable_of_keys (by decide : Text.isAttributeKey memberName)
  simp only [memberDirective, List.map_cons, List.map_nil]
  decide

theorem isBodyLine_lines {p : Pool} (h : p.Sound) : ∀ l ∈ p.lines, Layout.isBodyLine l := by
  intro l hl
  rcases List.mem_cons.1 hl with rfl | hl
  · exact Layout.isBodyLine_directive (isWritable_directive h)
  rcases List.mem_append.1 hl with hl | hl
  · obtain ⟨m, -, rfl⟩ := List.mem_map.1 hl
    exact Layout.isBodyLine_directive (isWritable_memberDirective m)
  · exact Layout.isBodyLine_jumpLines h.next l hl

theorem map_trim_lines {p : Pool} (h : p.Sound) : p.lines.map Text.trim = p.lines := by
  have hmembers : (p.members.map fun m => (memberDirective m).line).map Text.trim =
      p.members.map fun m => (memberDirective m).line := by
    rw [List.map_map]
    exact List.map_congr_left fun m _ => Directive.trim_line (isWritable_memberDirective m)
  show List.map Text.trim (_ :: (_ ++ _)) = _
  rw [List.map_cons, List.map_append, Layout.map_trim_jumpLines, Directive.trim_line (isWritable_directive h), hmembers]
  rfl

theorem ofDirective_directive {p : Pool} (h : p.Sound) (n : Nat) :
    ofDirective n p.directive = .ok { p with members := [], next := none } := by
  have hget : ∀ key ∈ Check.poolKeys, p.directive.get? key = p.ownDirective.get? key :=
    fun key hkey => Directive.get?_withAttributes h.attributes p.ownDirective hkey
  have hpool : p.directive.get? "pool".toList = some p.pool := by rw [hget _ (by decide)]; rfl
  have hselection : p.directive.get? "selection".toList = some p.selection.name := by rw [hget _ (by decide)]; rfl
  have hextra : p.directive.extraAttributes Check.poolKeys = p.attributes :=
    Directive.extraAttributes_withAttributes h.attributes (keys_ownDirective p)
  unfold ofDirective
  rw [Directive.required_of_get? h.pool hpool, Directive.policy_of_get? hselection (ofName?_selection p.selection),
    hextra]
  rfl

theorem wholeNumber?_digits (n : Nat) : Decimal.wholeNumber? (Decimal.digits n) = some n := by
  have hall : ∀ c ∈ Decimal.digits n, c.isDigit := fun c => Decimal.isDigit_of_mem_digits
  have hne : (Decimal.digits n).isEmpty = false := by simpa using Decimal.digits_ne_nil n
  unfold Decimal.wholeNumber?
  split
  · next r hd =>
    rw [hd] at hall
    cases hall '+' (by simp)
  · simp only [hne, List.all_eq_true.2 hall, Bool.not_false, Bool.and_self, if_true, Decimal.ofDigits_digits]

theorem weight?_digits (w : UInt32) : weight? (Decimal.digits w.toNat) = some w := by
  rw [weight?, wholeNumber?_digits, Option.bind_some, if_pos (UInt32.toNat_lt w), UInt32.ofNat_toNat]

theorem memberOfDirective_memberDirective {m : PoolMember} (h : m.template ≠ []) (n : Nat) :
    memberOfDirective n (memberDirective m) = .ok m := by
  have hextra : (memberDirective m).extra ["template".toList, "weight".toList] = [] := rfl
  have hweight : memberWeight n (memberDirective m) = .ok m.weight := by
    have hget : (memberDirective m).get? "weight".toList = some (Decimal.digits m.weight.toNat) := rfl
    simp only [memberWeight, hget, weight?_digits]
  have htemplate : (memberDirective m).get? "template".toList = some m.template := rfl
  unfold memberOfDirective
  rw [hextra]
  simp only [hweight, Directive.required_of_get? h htemplate]
  rfl

namespace Progress

theorem step_directive {d : Directive} (h : d.isWritable) {p : Progress} (hp : p.next = none) (n : Nat) :
    p.step ⟨n, d.line⟩ = p.readDirective n d := by
  have hc : Line.command? d.line = none := by
    rw [Directive.line_eq]; exact Line.command?_of_ne (by decide) _
  simp only [step, hc, hp, Option.isSome_none, Bool.false_eq_true, if_false, Directive.directive?_line h]

theorem takes_members {ms : List PoolMember} (h : ∀ m ∈ ms, m.template ≠ []) (q : Option Pool) (ns : List PoolMember) :
    Takes step (· = ⟨q, ns, none⟩) (ms.map fun m => (memberDirective m).line) (· = ⟨q, ns ++ ms, none⟩) := by
  induction ms generalizing ns with
  | nil => exact Takes.nil fun p hp => by rw [hp, List.append_nil]
  | cons m ms ih =>
    have hrest := ih (fun x hx => h x (by simp [hx])) (ns ++ [m])
    rw [List.append_assoc, List.singleton_append] at hrest
    refine Takes.cons ?_ hrest
    rintro p n rfl
    refine ⟨_, ?_, rfl⟩
    rw [step_directive (isWritable_memberDirective m) rfl]
    have hname : (memberDirective m).name = memberName := rfl
    have hne : memberName ≠ directiveName := by decide
    simp only [readDirective, hname, hne, if_true, if_false, memberOfDirective_memberDirective (h m (by simp))]
    rfl

theorem takes_jumpLines {target : Option Text} (h : ∀ t ∈ target, Text.isNodeId t) (q : Option Pool)
    (ms : List PoolMember) :
    Takes step (· = ⟨q, ms, none⟩) (Layout.jumpLines target) (· = ⟨q, ms, target⟩) := by
  cases target with
  | none => exact Takes.nil fun p hp => hp
  | some t =>
    apply Takes.line
    rintro p n rfl
    refine ⟨_, ?_, rfl⟩
    simp only [step, Line.command?_jump (h t rfl), Node.readTarget_of_isNodeId (h t rfl), Option.isSome_none,
      Bool.false_eq_true, if_false]
    rfl

end Progress

theorem takes_lines {p : Pool} (h : p.Sound) : Takes Progress.step (· = .start) p.lines
    (· = ⟨some { p with members := [], next := none }, p.members, p.next⟩) := by
  refine Takes.cons (Q := (· = ⟨some { p with members := [], next := none }, [], none⟩)) ?_
    ((Progress.takes_members h.members _ []).append (Progress.takes_jumpLines h.next _ _))
  rintro q n rfl
  refine ⟨_, ?_, rfl⟩
  rw [Progress.step_directive (isWritable_directive h) rfl]
  have hname : p.directive.name = directiveName := rfl
  simp only [Progress.readDirective, hname, if_true, ofDirective_directive h]
  rfl

theorem meaningful_eq {p : Pool} (h : p.Sound) {b : Block} (hb : b.body.map (·.text) = p.lines) :
    b.meaningful = b.body :=
  Block.meaningful_eq hb fun l hl => by
    rcases List.mem_cons.1 hl with rfl | hl
    · rw [Directive.directive?_line (isWritable_directive h)]; exact .inr rfl
    rcases List.mem_append.1 hl with hl | hl
    · obtain ⟨m, -, rfl⟩ := List.mem_map.1 hl
      rw [Directive.directive?_line (isWritable_memberDirective m)]; exact .inr rfl
    · obtain ⟨t, -, rfl⟩ := Layout.mem_jumpLines hl
      rw [Line.jump_eq]; exact .inl rfl

theorem read_lines {p : Pool} (h : p.Sound) {b : Block} (hb : b.body.map (·.text) = p.lines) : read b = .ok p := by
  obtain ⟨q, hfold, rfl⟩ := takes_lines h .start b.body rfl hb
  unfold read
  rw [meaningful_eq h hb, hfold]
  rfl

/-- A pool has the name that its directive requires, and carries along what the directive has beyond that. -/
theorem required_of_ofDirective {d : Directive} {n : Nat} {r : Pool} (h : ofDirective n d = .ok r) :
    d.required n "pool".toList = .ok r.pool ∧ r.members = [] ∧ r.next = none ∧
      r.attributes = d.extraAttributes Check.poolKeys := by
  obtain ⟨pool, hpool, h⟩ := except_bind_eq_ok h
  obtain ⟨selection, -, h⟩ := except_bind_eq_ok h
  cases h
  exact ⟨hpool, rfl, rfl, rfl⟩

theorem required_of_memberOfDirective {d : Directive} {n : Nat} {m : PoolMember} (h : memberOfDirective n d = .ok m) :
    d.required n "template".toList = .ok m.template := by
  unfold memberOfDirective at h
  split at h
  · cases h
  · obtain ⟨weight, -, h⟩ := except_bind_eq_ok h
    obtain ⟨template, ht, h⟩ := except_bind_eq_ok h
    cases h
    exact ht

namespace Progress

variable {p q : Progress} {l : SourceLine}

/-- A directive states the pool, which nothing has stated before, or one more member. -/
theorem readDirective_cases {n : Nat} {d : Directive} (h : p.readDirective n d = .ok q) :
    (d.name = directiveName ∧ p.pool = none ∧ ∃ r, ofDirective n d = .ok r ∧ q = { p with pool := some r }) ∨
      (d.name = memberName ∧ ∃ m, memberOfDirective n d = .ok m ∧ q = { p with members := p.members ++ [m] }) := by
  unfold readDirective at h
  split at h
  · next hname =>
    split at h
    · cases h
    · next hnone =>
      obtain ⟨r, hr, rfl⟩ := except_map_eq_ok h
      exact .inl ⟨hname, by simpa using hnone, r, hr, rfl⟩
  · split at h
    · next hname =>
      obtain ⟨m, hm, rfl⟩ := except_map_eq_ok h
      exact .inr ⟨hname, m, hm, rfl⟩
    · cases h

/-- A line of a pool is a jump or a directive, and nothing is behind a jump. -/
theorem step_cases (h : p.step l = .ok q) : p.next = none ∧
    ((∃ target, Line.command? l.text = some (.jump target) ∧ Text.isNodeId target ∧
        q = { p with next := some target }) ∨
      ∃ d, Line.directive? l.text = some (.ok d) ∧ p.readDirective l.number d = .ok q) := by
  unfold step at h
  split at h
  · next target hc =>
    split at h
    · cases h
    · next hnext =>
      obtain ⟨t, ht, rfl⟩ := except_map_eq_ok h
      obtain ⟨rfl, ht⟩ := Node.readTarget_eq_ok_iff.1 ht
      exact ⟨by simpa using hnext, .inl ⟨t, hc, ht, rfl⟩⟩
  · split at h
    · cases h
    · next hnext =>
      split at h
      · next d hd => exact ⟨by simpa using hnext, .inr ⟨d, hd, h⟩⟩
      · cases h
      · cases h

structure Sound (p : Progress) : Prop where
  pool : ∀ q ∈ p.pool, q.pool ≠ [] ∧ Directive.Carried Check.poolKeys q.attributes
  members : ∀ m ∈ p.members, m.template ≠ []
  next : ∀ t ∈ p.next, Text.isNodeId t

theorem sound_readDirective (hp : p.Sound) {text : Text} {d : Directive} (hl : Line.directive? text = some (.ok d))
    {n : Nat} (h : p.readDirective n d = .ok q) : q.Sound := by
  obtain ⟨-, -, r, hr, rfl⟩ | ⟨-, m, hm, rfl⟩ := readDirective_cases h
  · obtain ⟨hpool, -, -, hattributes⟩ := required_of_ofDirective hr
    refine ⟨?_, hp.members, hp.next⟩
    rintro _ ⟨⟩
    rw [hattributes]
    exact ⟨Directive.required_eq_ok hpool, Directive.carried_extraAttributes hl Check.poolKeys⟩
  · have htemplate := Directive.required_eq_ok (required_of_memberOfDirective hm)
    exact ⟨hp.pool, List.forall_mem_append.2 ⟨hp.members, by simpa using htemplate⟩, hp.next⟩

theorem sound_step (hp : p.Sound) (h : p.step l = .ok q) : q.Sound := by
  obtain ⟨-, ⟨target, -, ht, rfl⟩ | ⟨d, hd, hread⟩⟩ := step_cases h
  · exact ⟨hp.pool, hp.members, by rintro u ⟨⟩; exact ht⟩
  · exact sound_readDirective hp hd hread

end Progress

/-- A pool is what its directive says, with the members and the jump that were read. -/
theorem run_of_read {b : Block} {p : Pool} (h : read b = .ok p) :
    ∃ q r, b.meaningful.foldlM Progress.step .start = .ok q ∧ q.pool = some r ∧
      p = { r with members := q.members, next := q.next } := by
  obtain ⟨q, hq, hf⟩ := except_bind_eq_ok h
  unfold Progress.finish at hf
  split at hf
  · next r hr => cases hf; exact ⟨q, r, hq, hr, rfl⟩
  · cases hf

theorem sound_of_read {b : Block} {p : Pool} (h : read b = .ok p) : p.Sound := by
  obtain ⟨q, r, hq, hr, rfl⟩ := run_of_read h
  have hsound : q.Sound := except_foldlM_invariant (fun l _ q q' hq hstep => Progress.sound_step hq hstep)
    ⟨by simp [Progress.start], by simp [Progress.start], by simp [Progress.start]⟩ hq
  exact ⟨(hsound.pool r hr).1, hsound.members, hsound.next, (hsound.pool r hr).2⟩

end Pool
end DialogueScript
