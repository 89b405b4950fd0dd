import DialogueScript.Graph.Reference
/-!
# Tables of nodes

A table is the list of its entries: nodes under distinct keys that are put in one after another stand in the
table in that order, and each is found under its key.

Results:
* `NodeTable.get?_of_mem`: an entry is found under its key.
* `NodeTable.entries_ofList`: the entries of a list with distinct keys are that list.
-/
namespace DialogueScript

/-- Among elements with distinct keys, only one has its key. -/
theorem filter_key {α : Type} {key : α → Text} {as : List α} (hd : (as.map key).Nodup) {a : α} (ha : a ∈ as) :
    as.filter (key · == key a) = [a] := by
  induction as with
  | nil => cases ha
  | cons b as ih =>
    obtain ⟨hnew, hd'⟩ := List.nodup_cons.1 hd
    rcases List.mem_cons.1 ha with rfl | ha
    · rw [List.filter_cons_of_pos (by simp), List.filter_eq_nil_iff.2]
      intro c hc he
      exact hnew (List.mem_map.2 ⟨c, hc, beq_iff_eq.1 he⟩)
    · have hne : key b ≠ key a := fun he => hnew (List.mem_map.2 ⟨a, ha, he.symm⟩)
      rw [List.filter_cons_of_neg (by simpa using hne)]
      exact ih hd' ha

namespace NodeTable

theorem ext {s t : NodeTable} (h : s.entries = t.entries) : s = t := by
  cases s
  cases t
  cases h
  rfl

theorem find?_of_mem {es : List (Text × Node)} (hd : (es.map (·.1)).Nodup) {e : Text × Node} (he : e ∈ es) :
    es.find? (·.1 == e.1) = some e := by
  rw [← List.head?_filter, filter_key hd he]
  rfl

theorem get?_of_mem {t : NodeTable} {key : Text} {n : Node} (h : (key, n) ∈ t.entries) : t.get? key = some n := by
  unfold get?
  rw [find?_of_mem t.distinct h]
  rfl

theorem contains_of_mem {t : NodeTable} {key : Text} {n : Node} (h : (key, n) ∈ t.entries) : t.contains key := by
  simpa [contains, keys] using ⟨n, h⟩

theorem insertEntry_new {es : List (Text × Node)} {key : Text} (h : key ∉ es.map (·.1)) (n : Node) :
    insertEntry key n es = es ++ [(key, n)] := by
  induction es with
  | nil => rfl
  | cons e es ih =>
    rw [List.map_cons, List.mem_cons, not_or] at h
    rw [insertEntry, if_neg (Ne.symm h.1), ih h.2]
    rfl

theorem entries_foldl_insert {es : List (Text × Node)} {t : NodeTable} (h : ((t.entries ++ es).map (·.1)).Nodup) :
    (es.foldl (fun t (k, n) => t.insert k n) t).entries = t.entries ++ es := by
  induction es generalizing t with
  | nil => rw [List.append_nil]; rfl
  | cons e es ih =>
    obtain ⟨key, n⟩ := e
    have hnew : key ∉ t.entries.map (·.1) := by
      intro hm
      rw [List.map_append] at h
      exact (List.nodup_append.1 h).2.2 key hm key (by simp) rfl
    have hentries : (t.insert key n).entries = t.entries ++ [(key, n)] := insertEntry_new hnew n
    have hsplit : (t.insert key n).entries ++ es = t.entries ++ (key, n) :: es := by
      rw [hentries, List.append_assoc]
      rfl
    rw [List.foldl_cons, ih (by rw [hsplit]; exact h), hsplit]

theorem entries_ofList {es : List (Text × Node)} (h : (es.map (·.1)).Nodup) : (ofList es).entries = es :=
  entries_foldl_insert (t := empty) h

end NodeTable
end DialogueScript
