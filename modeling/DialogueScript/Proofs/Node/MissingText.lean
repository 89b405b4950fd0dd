import DialogueScript.Proofs.Check.MissingText
import DialogueScript.Proofs.Node.Ids
/-!
# Texts that are blank

Reading asks of a text that is needed only that it is not empty. On a line, blank characters at its ends are dropped, so
a blank text would be an empty one; but a choice may have a backslash in front of a blank character, and the value of an
attribute may stand in quotes. Both keep their blank characters, and so a text gets through that is blank.

Results:
* `Directive.quotes_of_directive?`: a value with a blank character stands in quotes.
* `Line.shields_of_choice?`: a choice whose text is blank begins with a backslash and a blank character.
* `Block.GivesTexts`, `Block.givesTexts_of_payload`: the texts that a node needs are those that its lines give, and
  only a line that shields it gives one that is blank.
-/
namespace DialogueScript

/-! ## Values in quotes -/

theorem Text.suffix_of_quoted? {s t r : Text} (h : quoted? s = some (t, r)) : r <:+ s := by
  fun_induction quoted? s generalizing t r with
  | case1 => cases h
  | case2 s => cases h; exact List.suffix_cons _ _
  | case3 => cases h
  | case4 c s ih =>
    obtain ⟨⟨u, v⟩, hu, he⟩ := Option.map_eq_some_iff.1 h
    cases he
    exact (ih hu).trans ((List.suffix_cons c s).trans (List.suffix_cons _ _))
  | case5 c s _ _ _ ih =>
    obtain ⟨⟨u, v⟩, hu, he⟩ := Option.map_eq_some_iff.1 h
    cases he
    exact (ih hu).trans (List.suffix_cons _ _)

namespace Directive

variable {key v : Text}

/-- The value of a key stands in quotes on a line. -/
def Quotes (line key v : Text) : Prop :=
  ∃ front rest after, line = front ++ (key ++ '=' :: '"' :: rest) ∧ Text.quoted? rest = some (v, after)

theorem Quotes.of_suffix {s line : Text} (h : Quotes s key v) (hs : s <:+ line) : Quotes line key v := by
  obtain ⟨front, rest, after, rfl, hrest⟩ := h
  obtain ⟨p, rfl⟩ := hs
  exact ⟨p ++ front, rest, after, (List.append_assoc _ _ _).symm, hrest⟩

theorem suffix_of_readValue {s rest : Text} (h : readValue key s = .ok (v, rest)) : rest <:+ s := by
  unfold readValue at h
  split at h
  · split at h
    · next hq => cases h; exact (Text.suffix_of_quoted? hq).trans (List.suffix_cons _ _)
    · cases h
  · cases h; exact List.dropWhile_suffix _

theorem readAttribute_eq_ok {name s rest : Text} (h : readAttribute name s = .ok ((key, v), rest)) :
    ∃ r, s = key ++ '=' :: r ∧ readValue key r = .ok (v, rest) := by
  unfold readAttribute at h
  split at h
  · next r hd =>
    dsimp only at h
    split at h
    · obtain ⟨⟨v', rest'⟩, hv, he⟩ := except_map_eq_ok h
      cases he
      exact ⟨r, by rw [← hd, List.takeWhile_append_dropWhile], hv⟩
    · cases h
  · cases h

/-- Without quotes a value ends where the first blank character is. -/
theorem quotes_of_readAttribute {name s rest : Text} (h : readAttribute name s = .ok ((key, v), rest))
    (hv : ∃ c ∈ v, Text.isBlank c) : Quotes s key v := by
  obtain ⟨r, rfl, hr⟩ := readAttribute_eq_ok h
  unfold readValue at hr
  split at hr
  · next q =>
    split at hr
    · next hq => cases hr; exact ⟨[], q, rest, rfl, hq⟩
    · cases hr
  · cases hr
    obtain ⟨c, hc, hblank⟩ := hv
    have hsolid := List.all_eq_true.1 List.all_takeWhile c hc
    rw [hblank] at hsolid
    cases hsolid

theorem suffix_of_readAttribute {name s rest : Text} (h : readAttribute name s = .ok ((key, v), rest)) :
    rest <:+ s := by
  obtain ⟨r, rfl, hr⟩ := readAttribute_eq_ok h
  exact (suffix_of_readValue hr).trans ((List.suffix_cons _ _).trans (List.suffix_append _ _))

theorem quotes_of_attributesOf {name s : Text} {as : List (Text × Text)} (h : attributesOf name s = .ok as)
    (ha : (key, v) ∈ as) (hv : ∃ c ∈ v, Text.isBlank c) : Quotes s key v := by
  induction hn : s.length using Nat.strongRecOn generalizing s as with
  | ind n ih =>
    rw [attributesOf_eq] at h
    have htrim : Text.trimStart s <:+ s := List.dropWhile_suffix _
    split at h
    · cases h; cases ha
    · next c r hs =>
      rw [hs] at htrim
      split at h
      · cases h
      · next a rest hr =>
        obtain ⟨bs, hbs, rfl⟩ := except_map_eq_ok h
        rcases List.mem_cons.1 ha with rfl | ha
        · exact (quotes_of_readAttribute hr hv).of_suffix htrim
        · have hlt : rest.length < n := by
            have := readAttribute_length_lt hr
            have := htrim.length_le
            omega
          exact (ih rest.length hlt hbs ha rfl).of_suffix ((suffix_of_readAttribute hr).trans htrim)

/-- A value with a blank character stands in quotes. -/
theorem quotes_of_directive? {l : Text} {d : Directive} (h : Line.directive? l = some (.ok d))
    (hget : d.get? key = some v) (hv : ∃ c ∈ v, Text.isBlank c) : Quotes l key v := by
  obtain ⟨⟨k, w⟩, ha, rfl⟩ := Option.map_eq_some_iff.1 hget
  obtain rfl : k = key := beq_iff_eq.1 (List.find?_some ha :)
  have hmem := List.mem_of_find?_eq_some ha
  unfold Line.directive? at h
  split at h
  · next body hbody =>
    obtain ⟨r, hr, hbody⟩ := Option.map_eq_some_iff.1 hbody
    have hsuffix : body <:+ l := by
      rw [Text.eq_append_of_after? hr]
      have hr' : '@' :: body <:+ r := hbody ▸ List.dropWhile_suffix _
      exact (List.suffix_cons _ _).trans (hr'.trans (List.suffix_append _ _))
    simp only [Option.some.injEq, ofBody] at h
    split at h
    · obtain ⟨as, has, rfl⟩ := except_map_eq_ok h
      exact (quotes_of_attributesOf has hmem hv).of_suffix ((List.dropWhile_suffix _).trans hsuffix)
    · cases h
  · cases h

end Directive

/-! ## Lines that spell a blank text -/

theorem Text.exists_blank {s : Text} (hne : s ≠ []) (h : isBlankText s) : ∃ c ∈ s, isBlank c := by
  obtain ⟨c, r, rfl⟩ := List.exists_cons_of_ne_nil hne
  exact ⟨c, by simp, List.all_eq_true.1 h c (by simp)⟩

/-- How a line keeps a text from being empty that is blank. -/
inductive Line.Shields (line t : Text) : Prop
  /-- The text of a choice begins with a backslash and the blank character that it keeps. -/
  | escaped {rest r : Text} {c : Char} (h : Text.after? ['-', '>'] line = some rest)
      (hraw : Text.trim (cutTags rest).1 = '\\' :: c :: r) (hc : Text.isBlank c) (ht : t = c :: Text.unescape r)
  /-- The value of an attribute stands in quotes. -/
  | quoted {key : Text} (h : Directive.Quotes line key t)

theorem Line.shields_of_choice? {line t : Text} {id : Option Text} (h : choice? line = some (t, id)) (hne : t ≠ [])
    (hblank : Text.isBlankText t) : Shields line t := by
  obtain ⟨rest, hrest, he⟩ := Option.map_eq_some_iff.1 h
  have ht : Text.unescape (Text.trim (cutTags rest).1) = t := (Prod.mk.inj he).1
  -- the raw text is trimmed, so its first character is not blank; only a backslash is dropped
  match hraw : Text.trim (cutTags rest).1 with
  | [] =>
    rw [hraw] at ht
    exact absurd ht.symm hne
  | d :: raw =>
    have hsolid := Text.startsSolid_trim (s := (cutTags rest).1) (by simp [hraw])
    rw [hraw] at ht hsolid
    by_cases hd : d = '\\'
    · subst hd
      cases raw with
      | nil => exact absurd ht.symm hne
      | cons c r =>
        have ht : t = c :: Text.unescape r := ht.symm
        have hc : Text.isBlank c := List.all_eq_true.1 hblank c (by simp [ht])
        exact .escaped hrest hraw hc ht
    · rw [Text.unescape_cons_of_ne hd] at ht
      have hd' : Text.isBlank d := List.all_eq_true.1 hblank d (by simp [← ht])
      simp [hd'] at hsolid

/-- The text that a line of a node of a kind gives, where such a node needs one. -/
def SourceLine.neededText? (l : SourceLine) : Kind → Option Text
  | .speech | .branching => none
  | .menu => (Line.choice? l.text).map (·.1)
  | .storylet => l.directive?.bind (·.get? "template".toList)
  | .pool => l.directive?.bind fun d =>
    d.get? (if d.name = Pool.directiveName then "pool".toList else "template".toList)

theorem SourceLine.directive?_eq_some {l : SourceLine} {d : Directive} (h : l.directive? = some d) :
    Line.directive? l.text = some (.ok d) := by
  unfold directive? at h
  split at h
  · next d' hd => cases h; exact hd
  · cases h

theorem SourceLine.shields_of_neededText? {l : SourceLine} {k : Kind} {t : Text} (h : l.neededText? k = some t)
    (hne : t ≠ []) (hblank : Text.isBlankText t) : Line.Shields l.text t := by
  cases k with
  | speech | branching => cases h
  | menu =>
    obtain ⟨⟨t, id⟩, hc, rfl⟩ := Option.map_eq_some_iff.1 h
    exact Line.shields_of_choice? hc hne hblank
  | storylet | pool =>
    obtain ⟨d, hd, hget⟩ := Option.bind_eq_some_iff.1 h
    exact .quoted (Directive.quotes_of_directive? (directive?_eq_some hd) hget (Text.exists_blank hne hblank))

/-! ## The texts that are read -/

namespace Menu

/-- The choices of a menu have the texts that its lines give. -/
theorem texts_of_read {ctx : Node.Context} {b : Block} {m : Menu} (h : (read ctx b).result = .ok m) :
    m.choices.map (·.text) = b.meaningful.filterMap (·.neededText? .menu) := by
  obtain ⟨s, hfold, hm, -⟩ := run_of_read h
  have hstep (l : SourceLine) (t t' : Progress × Nat) (h : (readLine ctx t l).result = .ok t') :
      t'.1.choices.map (·.text) = t.1.choices.map (·.text) ++ (l.neededText? .menu).toList :=
    (grows_of_readLine h).texts
  rw [hm]
  exact Reading.foldlM_collects hstep hfold

end Menu

theorem Storylet.template_step {found found' : Option Storylet} {l : SourceLine} (h : step found l = .ok found') :
    found'.toList.map (·.template) = found.toList.map (·.template) ++ (l.neededText? .storylet).toList := by
  obtain ⟨rfl, d, s, hd, -, hs, rfl⟩ := step_cases h
  have hneeded : l.neededText? .storylet = some s.template := by
    simp only [SourceLine.neededText?, SourceLine.directive?, hd, Option.bind_some]
    exact Directive.get?_of_required (required_of_ofDirective hs).1
  rw [hneeded]
  rfl

/-- A storylet has the template that its line gives. -/
theorem Storylet.template_of_read {b : Block} {s : Storylet} (h : read b = .ok s) :
    [s.template] = b.meaningful.filterMap (·.neededText? .storylet) := by
  obtain ⟨found, hfound, hf⟩ := except_bind_eq_ok h
  have htexts : found.toList.map (·.template) = [] ++ b.meaningful.filterMap (·.neededText? .storylet) :=
    except_foldlM_collects (fun l found found' hstep => template_step hstep) hfound
  cases found with
  | some s' => cases hf; exact htexts
  | none => cases hf

namespace Pool

/-- The texts of a pool that is being read. -/
def Progress.texts (p : Progress) : List Text := p.pool.toList.map (·.pool) ++ p.members.map (·.template)

theorem Progress.texts_readDirective {p q : Progress} {n : Nat} {d : Directive} (h : p.readDirective n d = .ok q) :
    q.texts.Perm
      (p.texts ++ (d.get? (if d.name = directiveName then "pool".toList else "template".toList)).toList) := by
  obtain ⟨hname, hnone, r, hr, rfl⟩ | ⟨hname, m, hm, rfl⟩ := readDirective_cases h
  · rw [if_pos hname, Directive.get?_of_required (required_of_ofDirective hr).1, texts, texts, hnone]
    exact (List.perm_append_singleton r.pool (p.members.map (·.template))).symm
  · have hne : d.name ≠ directiveName := by
      rw [hname]
      decide
    rw [if_neg hne, Directive.get?_of_required (required_of_memberOfDirective hm), texts, texts, List.map_append,
      List.append_assoc]
    exact .rfl

theorem Progress.texts_step {p q : Progress} {l : SourceLine} (h : p.step l = .ok q) :
    q.texts.Perm (p.texts ++ (l.neededText? .pool).toList) := by
  obtain ⟨-, ⟨target, hc, -, rfl⟩ | ⟨d, hd, hread⟩⟩ := step_cases h
  · have hneeded : l.neededText? .pool = none := by
      simp only [SourceLine.neededText?, SourceLine.directive?, Line.directive?_of_command? hc, Option.bind_none]
    rw [hneeded]
    exact .of_eq (List.append_nil _).symm
  · have hneeded : l.neededText? .pool =
        d.get? (if d.name = directiveName then "pool".toList else "template".toList) := by
      simp only [SourceLine.neededText?, SourceLine.directive?, hd, Option.bind_some]
    rw [hneeded]
    exact texts_readDirective hread

/-- A pool has the texts that its lines give; its own directive need not be the first one. -/
theorem texts_of_read {b : Block} {p : Pool} (h : read b = .ok p) :
    (p.pool :: p.members.map (·.template)).Perm (b.meaningful.filterMap (·.neededText? .pool)) := by
  obtain ⟨q, r, hq, hr, rfl⟩ := run_of_read h
  have htexts := except_foldlM_history
    (I := fun (seen : List SourceLine) (q : Progress) =>
      q.texts.Perm (seen.filterMap fun l : SourceLine => l.neededText? .pool))
    (fun l _ seen q q' hseen hstep => by
      have hlast : [l].filterMap (·.neededText? .pool) = (l.neededText? .pool).toList := by
        cases hl : l.neededText? .pool <;> simp [hl]
      rw [List.filterMap_append, hlast]
      exact (Progress.texts_step hstep).trans (hseen.append_right _))
    (s := .start) .nil hq
  simpa [Progress.texts, hr] using htexts

end Pool

/-! ## Nodes -/

theorem Payload.ne_nil_of_mem_neededTexts {p : Payload} (h : p.Sound) : ∀ t ∈ p.neededTexts, t ≠ [] := by
  intro t ht
  cases p with
  | speech | branching => cases ht
  | menu m =>
    obtain ⟨c, hc, rfl⟩ := List.mem_map.1 ht
    exact (Menu.Sound.sound h c hc).text
  | storylet s =>
    rw [List.mem_singleton.1 ht]
    exact Storylet.Sound.template h
  | pool p =>
    rcases List.mem_cons.1 ht with rfl | ht
    · exact Pool.Sound.pool h
    · obtain ⟨m, hm, rfl⟩ := List.mem_map.1 ht
      exact Pool.Sound.members h m hm

/-- A node needs the texts that its lines give. -/
theorem Block.neededTexts_of_payload {b : Block} {ctx : Node.Context} {k : Kind} {p : Payload}
    (h : (b.payload ctx k).result = .ok p) : p.neededTexts.Perm (b.meaningful.filterMap (·.neededText? k)) := by
  cases k with
  | speech =>
    obtain ⟨s, -, rfl⟩ := except_map_eq_ok h
    simp [Payload.neededTexts, SourceLine.neededText?]
  | menu =>
    obtain ⟨m, hm, h⟩ := Reading.andThen_eq_ok h
    cases h
    exact .of_eq (Menu.texts_of_read hm)
  | branching =>
    obtain ⟨c, -, h⟩ := Reading.andThen_eq_ok h
    cases h
    simp [Payload.neededTexts, SourceLine.neededText?]
  | storylet =>
    obtain ⟨s, hs, rfl⟩ := except_map_eq_ok h
    exact .of_eq (Storylet.template_of_read hs)
  | pool =>
    obtain ⟨q, hq, rfl⟩ := except_map_eq_ok h
    exact Pool.texts_of_read hq

/-- The lines of a block give its node the texts that it needs, in some order. -/
structure Block.GivesTexts (b : Block) (n : Node) : Prop where
  texts : n.payload.neededTexts.Perm (b.meaningful.filterMap (·.neededText? n.payload.kind))
  nonempty : ∀ t ∈ n.payload.neededTexts, t ≠ []
  shielded : ∀ l ∈ b.meaningful, ∀ t, l.neededText? n.payload.kind = some t → Text.isBlankText t →
    Line.Shields l.text t

theorem Block.givesTexts_of_payload {b : Block} {ctx : Node.Context} {n : Node} (hn : n.Sound)
    (h : (b.payload ctx n.payload.kind).result = .ok n.payload) : b.GivesTexts n := by
  have hperm := Block.neededTexts_of_payload h
  have hne := Payload.ne_nil_of_mem_neededTexts hn.payload
  refine ⟨hperm, hne, fun l hl t ht hblank => ?_⟩
  have hmem : t ∈ n.payload.neededTexts := hperm.mem_iff.2 (List.mem_filterMap.2 ⟨l, hl, ht⟩)
  exact SourceLine.shields_of_neededText? ht (hne t hmem) hblank

end DialogueScript
