import DialogueScript.Json.Record
import DialogueScript.Proofs.Graph.Table
/-!
# Records are read back in any order

A record is laid out field by field: each field that is there has one member, under the name of the field. The
canonical form has the members in another order, but as the names differ, each field is found under its name.

Results:
* `fields?_ofFields`: the fields of a record are found in its canonical form.
* `Restores`: a value can be read, and what is read from its canonical form.
* `restores_list`, `restores_dictionary`: lists and dictionaries, from their parts.
-/
namespace DialogueScript.Json

/-! ## Canonical forms -/

theorem canonicalItems_eq (js : List Json) : canonicalItems js = js.map canonical := by
  induction js with
  | nil => rfl
  | cons j js ih => rw [canonicalItems, ih, List.map_cons]

theorem canonicalMembers_eq (ms : List (Text × Json)) : canonicalMembers ms = ms.map fun m => (m.1, canonical m.2) := by
  induction ms with
  | nil => rfl
  | cons m ms ih => rw [canonicalMembers, ih, List.map_cons]

theorem canonical_array (js : List Json) : (Json.array js).canonical = .array (js.map canonical) := by
  rw [canonical, canonicalItems_eq]

theorem canonical_object (ms : List (Text × Json)) :
    (Json.object ms).canonical = .object (Dictionary.ofList (ms.map fun m => (m.1, canonical m.2))).entries := by
  rw [canonical, canonicalMembers_eq]

/-! ## Readable values -/

theorem areReadable_iff {js : List Json} : areReadable js ↔ ∀ j ∈ js, j.isReadable := by
  induction js with
  | nil => simp [areReadable]
  | cons j js ih => simp [areReadable, ih]

theorem haveReadable_iff {ms : List (Text × Json)} : haveReadable ms ↔ ∀ m ∈ ms, m.2.isReadable := by
  induction ms with
  | nil => simp [haveReadable]
  | cons m ms ih => simp [haveReadable, ih]

mutual

/-- What can be read can be read in its canonical form. -/
theorem isReadable_canonical : ∀ {j : Json}, j.isReadable → j.canonical.isReadable
  | .array items, h => by
    rw [canonical_array]
    exact (areReadable_canonical h : areReadable (items.map canonical))
  | .object members, h => by
    rw [canonical_object, isReadable, haveReadable_iff]
    intro m hm
    have hmembers : haveReadable members := h
    exact haveReadable_canonical hmembers m (Dictionary.mem_of_mem_ofList hm)
  | .null, h | .bool _, h | .int _, h | .float _, h | .string _, h => h

theorem areReadable_canonical : ∀ {js : List Json}, areReadable js → areReadable (js.map canonical)
  | [], h => h
  | j :: js, h => by
    simp only [areReadable, Bool.and_eq_true] at h
    simp only [List.map_cons, areReadable, Bool.and_eq_true]
    exact ⟨isReadable_canonical h.1, areReadable_canonical h.2⟩

theorem haveReadable_canonical : ∀ {ms : List (Text × Json)}, haveReadable ms →
    ∀ m ∈ ms.map (fun m => (m.1, canonical m.2)), m.2.isReadable
  | [], _, _, hm => absurd hm List.not_mem_nil
  | (k, j) :: ms, h, m, hm => by
    simp only [haveReadable, Bool.and_eq_true] at h
    rcases List.mem_cons.1 hm with rfl | hm
    · exact isReadable_canonical h.1
    · exact haveReadable_canonical h.2 m hm

end

/-! ## Fields -/

/-- The members of a field: one when it is there. -/
def field (name : String) : Option Json → List (Text × Json)
  | some j => always name j
  | none => []

/-- The record whose fields have these names and values. -/
def ofFields (names : List String) (values : List (Option Json)) : Json := record (List.zipWith field names values)

theorem field?_entries (d : Dictionary Json) (name : Text) : field? d.entries name = some (d.get? name) := by
  unfold field? Dictionary.get?
  cases hf : d.entries.find? (·.1 == name) with
  | none =>
    have hnil : d.entries.filter (·.1 == name) = [] := by
      rw [List.filter_eq_nil_iff]
      exact List.find?_eq_none.1 hf
    rw [hnil]
    rfl
  | some e =>
    obtain rfl : e.1 = name := by simpa using List.find?_some hf
    rw [filter_key d.nodup_keys (List.mem_of_find?_eq_some hf)]
    rfl

theorem fields?_canonical_object (names : List String) {ms : List (Text × Json)} (hd : (ms.map (·.1)).Nodup) :
    fields? names (Json.object ms).canonical =
      some (names.map fun n => ((Json.object ms).member? n.toList).map canonical) := by
  have hd' : ((ms.map fun m => (m.1, canonical m.2)).map (·.1)).Nodup := by simpa [List.map_map, Function.comp_def] using hd
  have hfield : ∀ n : String, field? (Dictionary.ofList (ms.map fun m => (m.1, canonical m.2))).entries n.toList =
      some (((Json.object ms).member? n.toList).map canonical) := by
    intro n
    rw [field?_entries, Dictionary.get?_ofList hd', List.find?_map, member?, Option.map_map, Option.map_map]
    rfl
  rw [canonical_object, fields?]
  simp only [hfield]
  exact List.mapM_pure

theorem keys_ofFields_sublist (names : List String) (values : List (Option Json)) :
    ((List.zipWith field names values).flatten.map (·.1)).Sublist (names.map String.toList) := by
  induction names generalizing values with
  | nil => simp
  | cons n ns ih =>
    cases values with
    | nil => simp
    | cons v vs =>
      rw [List.zipWith_cons_cons, List.flatten_cons, List.map_append, List.map_cons]
      cases v with
      | none => exact (ih vs).cons _
      | some j => exact (ih vs).cons_cons _

theorem member?_ofFields {names : List String} {values : List (Option Json)} (hd : (names.map String.toList).Nodup)
    (hl : names.length = values.length) :
    (names.map fun n => (ofFields names values).member? n.toList) = values := by
  induction names generalizing values with
  | nil => exact (List.length_eq_zero_iff.1 hl.symm).symm
  | cons n ns ih =>
    cases values with
    | nil => cases hl
    | cons v vs =>
      obtain ⟨hnew, hd⟩ := List.nodup_cons.1 hd
      have hrest : ∀ m ∈ ns, (ofFields (n :: ns) (v :: vs)).member? m.toList = (ofFields ns vs).member? m.toList := by
        intro m hm
        have hne : n.toList ≠ m.toList := fun he => hnew (he ▸ List.mem_map_of_mem hm)
        cases v <;> simp [ofFields, record, member?, field, always, hne]
      have hfirst : (ofFields (n :: ns) (v :: vs)).member? n.toList = v := by
        cases v with
        | none =>
          have hnone : (List.zipWith field ns vs).flatten.find? (·.1 == n.toList) = none := by
            rw [List.find?_eq_none]
            intro e he hen
            have hmem := (keys_ofFields_sublist ns vs).subset (List.mem_map_of_mem he)
            rw [beq_iff_eq.1 hen] at hmem
            exact hnew hmem
          simp [ofFields, record, member?, field, hnone]
        | some j => simp [ofFields, record, member?, field, always]
      rw [List.map_cons, hfirst, List.map_congr_left hrest, ih hd (by simpa using hl)]

/-- Each field is found again under its name. -/
theorem fields?_ofFields {names : List String} {values : List (Option Json)} (hd : (names.map String.toList).Nodup)
    (hl : names.length = values.length) :
    fields? names (ofFields names values).canonical = some (values.map (Option.map canonical)) := by
  have hvalues := congrArg (List.map (Option.map canonical)) (member?_ofFields hd hl)
  rw [List.map_map] at hvalues
  rw [← hvalues]
  exact fields?_canonical_object names (hd.sublist (keys_ofFields_sublist names values))

theorem isReadable_ofFields (names : List String) {values : List (Option Json)}
    (h : ∀ v ∈ values, ∀ j ∈ v, j.isReadable) : (ofFields names values).isReadable := by
  show haveReadable _ = true
  rw [haveReadable_iff]
  induction names generalizing values with
  | nil => simp
  | cons n ns ih =>
    cases values with
    | nil => simp
    | cons v vs =>
      intro m hm
      rw [List.zipWith_cons_cons, List.flatten_cons] at hm
      rcases List.mem_append.1 hm with hm | hm
      · cases v with
        | none => cases hm
        | some j =>
          obtain rfl := List.mem_singleton.1 hm
          exact h (some j) (by simp) j rfl
      · exact ih (fun u hu => h u (by simp [hu])) m hm

theorem fields?_cons_eq_some {n : String} {ns : List String} {ms : List (Text × Json)} {v : Option Json}
    {vs : List (Option Json)} (h : fields? (n :: ns) (.object ms) = some (v :: vs)) :
    field? ms n.toList = some v ∧ fields? ns (.object ms) = some vs := by
  rw [fields?, List.mapM_cons] at h
  obtain ⟨w, hw, h⟩ := Option.bind_eq_some_iff.1 h
  obtain ⟨ws, hws, h⟩ := Option.bind_eq_some_iff.1 h
  cases h
  exact ⟨hw, hws⟩

/-! ## Values that are read back -/

section Restores

variable {α : Type} {decode : Json → Option α} {encode : α → Json} {j : Json} {a : α}

/-- The value can be read, and its canonical form is read as `a`. -/
structure Restores (decode : Json → Option α) (j : Json) (a : α) : Prop where
  isReadable : j.isReadable
  decode_canonical : decode j.canonical = some a

theorem restores_string (t : Text) : Restores string? (.string t) t := ⟨rfl, rfl⟩

theorem restores_named (place : Place) {ofName? : Text → Option α} {name : Text} (h : ofName? name = some a) :
    Restores (named? place ofName?) (.string name) a := ⟨rfl, h⟩

theorem mapM_map_eq_some {β γ : Type} {f : β → γ} {g : γ → Option β} (as : List β) (h : ∀ a ∈ as, g (f a) = some a) :
    (as.map f).mapM g = some as := by
  induction as with
  | nil => rfl
  | cons a as ih =>
    rw [List.map_cons, List.mapM_cons, h a (by simp), ih fun b hb => h b (by simp [hb])]
    rfl

theorem restores_list (as : List α) (h : ∀ a ∈ as, Restores decode (encode a) a) :
    Restores (list? decode) (ofList encode as) as := by
  refine ⟨areReadable_iff.2 ?_, ?_⟩
  · intro j hj
    obtain ⟨a, ha, rfl⟩ := List.mem_map.1 hj
    exact (h a ha).isReadable
  · rw [ofList, canonical_array, List.map_map]
    exact mapM_map_eq_some as fun a ha => (h a ha).decode_canonical

theorem restores_dictionary (d : Dictionary Text) : Restores (dictionary? string?) (ofDictionary .string d) d := by
  refine ⟨haveReadable_iff.2 ?_, ?_⟩
  · intro m hm
    obtain ⟨e, -, rfl⟩ := List.mem_map.1 hm
    rfl
  · have hincreasing : (d.entries.map fun e => (e.1, Json.string e.2)).Pairwise fun a b => a.1 < b.1 :=
      List.pairwise_map.2 d.increasing
    have hmembers : ((d.entries.map fun e => (e.1, Json.string e.2)).map fun m => (m.1, canonical m.2)) =
        d.entries.map fun e => (e.1, Json.string e.2) := by
      rw [List.map_map]
      rfl
    have hread := mapM_map_eq_some (f := fun e : Text × Text => (e.1, Json.string e.2))
      (g := fun m => (string? m.2).map (m.1, ·)) d.entries fun e _ => rfl
    rw [ofDictionary, canonical_object, hmembers, Dictionary.entries_ofList hincreasing, dictionary?, hread,
      Option.map_some, Dictionary.ofList_entries]

/-! ## Fields that are read back -/

/-- The value of the field can be read, if there is one, and the canonical form of the field is read as `a`. -/
structure RestoresField (read : Option Json → Option α) (v : Option Json) (a : α) : Prop where
  isReadable : ∀ j ∈ v, j.isReadable
  read_canonical : read (v.map canonical) = some a

theorem Restores.required (h : Restores decode j a) : RestoresField (required decode) (some j) a :=
  ⟨fun _ hj => Option.some.inj hj ▸ h.isReadable, h.decode_canonical⟩

theorem Restores.withDefault (h : Restores decode j a) (default : α) :
    RestoresField (withDefault default decode) (some j) a :=
  ⟨fun _ hj => Option.some.inj hj ▸ h.isReadable, h.decode_canonical⟩

theorem restores_optional {o : Option α} (hnull : decode .null = none) (h : ∀ a ∈ o, Restores decode (encode a) a) :
    RestoresField (optional decode) (o.map encode) o := by
  cases o with
  | none => exact ⟨nofun, rfl⟩
  | some a =>
    obtain ⟨hreadable, hdecode⟩ := h a rfl
    refine ⟨fun _ hj => Option.some.inj hj ▸ hreadable, ?_⟩
    rw [Option.map_some, Option.map_some]
    unfold optional
    split
    · next he => cases he
    · next he => rw [Option.some.inj he, hnull] at hdecode; cases hdecode
    · next he => rw [← Option.some.inj he, hdecode]; rfl

/-- The field of a list that is left out when it is empty. -/
def listed (encode : α → Json) : List α → Option Json
  | [] => none
  | as => some (ofList encode as)

theorem restores_listed (as : List α) (h : ∀ a ∈ as, Restores decode (encode a) a) :
    RestoresField (withDefault [] (list? decode)) (listed encode as) as := by
  cases as with
  | nil => exact ⟨nofun, rfl⟩
  | cons a as => exact (restores_list (a :: as) h).withDefault []

/-- A record is read back when its fields can be read and, put in order again, are read as `a`. -/
theorem restores_ofFields {names : List String} {values : List (Option Json)} (hd : (names.map String.toList).Nodup)
    (hl : names.length = values.length) (hreadable : ∀ v ∈ values, ∀ j ∈ v, j.isReadable)
    (hdecode : ∀ j, fields? names j = some (values.map (Option.map canonical)) → decode j = some a) :
    Restores decode (ofFields names values) a :=
  ⟨isReadable_ofFields names hreadable, hdecode _ (fields?_ofFields hd hl)⟩

theorem whenSome_eq (name : String) (encode : α → Json) (o : Option α) :
    whenSome name encode o = field name (o.map encode) := by cases o <;> rfl

theorem whenFull_eq (name : String) (encode : α → Json) (as : List α) :
    whenFull name encode as = field name (listed encode as) := by cases as <;> rfl

end Restores

/-! ## What was read -/

section Read

variable {α : Type} {decode : Json → Option α}

theorem exists_of_mapM_eq_some {β γ : Type} {g : γ → Option β} {cs : List γ} {bs : List β} (h : cs.mapM g = some bs) :
    ∀ b ∈ bs, ∃ c, g c = some b := by
  induction cs generalizing bs with
  | nil => cases h; simp
  | cons c cs ih =>
    rw [List.mapM_cons] at h
    obtain ⟨b, hb, h⟩ := Option.bind_eq_some_iff.1 h
    obtain ⟨bs', hbs, h⟩ := Option.bind_eq_some_iff.1 h
    cases h
    intro b' hb'
    rcases List.mem_cons.1 hb' with rfl | hb'
    · exact ⟨c, hb⟩
    · exact ih hbs b' hb'

theorem exists_of_list? {j : Json} {as : List α} (h : list? decode j = some as) : ∀ a ∈ as, ∃ j, decode j = some a := by
  obtain ⟨js, -, h⟩ := Option.bind_eq_some_iff.1 h
  exact exists_of_mapM_eq_some h

theorem exists_of_listField {v : Option Json} {as : List α} (h : withDefault [] (list? decode) v = some as) :
    ∀ a ∈ as, ∃ j, decode j = some a := by
  cases v with
  | none => cases h; simp
  | some j => exact exists_of_list? h

theorem exists_of_optional {v : Option Json} {a : α} (h : optional decode v = some (some a)) : ∃ j, decode j = some a := by
  unfold optional at h
  split at h
  · cases h
  · cases h
  · next j _ =>
    obtain ⟨b, hb, he⟩ := Option.map_eq_some_iff.1 h
    cases he
    exact ⟨j, hb⟩

end Read

end DialogueScript.Json
