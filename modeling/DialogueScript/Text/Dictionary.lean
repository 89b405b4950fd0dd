import DialogueScript.Text.Blank
/-!
# Dictionaries

Values under texts, in increasing order of the texts and each text once, so that two dictionaries are equal
when they hold the same values. Texts are ordered by the code points of their characters.

Results:
* `get?_insert`: an insertion is seen at its own key only.
* `get?_ofList`: a value of a list with distinct keys is found under its key.
* `ofList_entries`: a dictionary is rebuilt from its entries.
-/
namespace DialogueScript

structure Dictionary (β : Type) where
  entries : List (Text × β)
  increasing : entries.Pairwise fun a b => a.1 < b.1
  deriving DecidableEq

namespace Dictionary

variable {β : Type}

instance [Repr β] : Repr (Dictionary β) := ⟨fun d n => reprPrec d.entries n⟩

def empty : Dictionary β := ⟨[], .nil⟩

instance : Inhabited (Dictionary β) := ⟨empty⟩

def isEmpty (d : Dictionary β) : Bool := d.entries.isEmpty

def size (d : Dictionary β) : Nat := d.entries.length

def keys (d : Dictionary β) : List Text := d.entries.map (·.1)

def get? (d : Dictionary β) (key : Text) : Option β := (d.entries.find? (·.1 == key)).map (·.2)

/-- Puts a value in its place among increasing keys, over the value that is there. -/
def insertEntry (key : Text) (value : β) : List (Text × β) → List (Text × β)
  | [] => [(key, value)]
  | (k, v) :: r =>
    if key < k then (key, value) :: (k, v) :: r
    else if key = k then (key, value) :: r
    else (k, v) :: insertEntry key value r

theorem mem_insertEntry {key : Text} {value : β} {es : List (Text × β)} {e : Text × β}
    (h : e ∈ insertEntry key value es) : e = (key, value) ∨ e ∈ es := by
  induction es with
  | nil => exact Or.inl (List.mem_singleton.1 h)
  | cons f r ih =>
    obtain ⟨k, v⟩ := f
    simp only [insertEntry] at h
    split at h
    · rcases List.mem_cons.1 h with h | h
      · exact Or.inl h
      · exact Or.inr h
    · split at h
      · rcases List.mem_cons.1 h with h | h
        · exact Or.inl h
        · exact Or.inr (List.mem_cons_of_mem _ h)
      · rcases List.mem_cons.1 h with h | h
        · exact Or.inr (by rw [h]; exact List.mem_cons_self)
        · rcases ih h with h | h
          · exact Or.inl h
          · exact Or.inr (List.mem_cons_of_mem _ h)

theorem increasing_insertEntry (key : Text) (value : β) {es : List (Text × β)}
    (h : es.Pairwise fun a b => a.1 < b.1) : (insertEntry key value es).Pairwise fun a b => a.1 < b.1 := by
  induction es with
  | nil => simp [insertEntry]
  | cons f r ih =>
    obtain ⟨k, v⟩ := f
    obtain ⟨hk, hr⟩ := List.pairwise_cons.1 h
    simp only [insertEntry]
    split
    · next hlt =>
      refine List.pairwise_cons.2 ⟨fun e he => ?_, h⟩
      rcases List.mem_cons.1 he with he | he
      · rw [he]; exact hlt
      · exact List.lt_trans hlt (hk e he)
    · next hlt =>
      split
      · next heq => subst heq; exact List.pairwise_cons.2 ⟨hk, hr⟩
      · next hne =>
        have hkk : k < key := by
          rcases Std.lt_trichotomy key k with h1 | h1 | h1
          · exact absurd h1 hlt
          · exact absurd h1 hne
          · exact h1
        refine List.pairwise_cons.2 ⟨fun e he => ?_, ih hr⟩
        rcases mem_insertEntry he with he | he
        · rw [he]; exact hkk
        · exact hk e he

def insert (d : Dictionary β) (key : Text) (value : β) : Dictionary β :=
  ⟨insertEntry key value d.entries, increasing_insertEntry key value d.increasing⟩

/-- The values of a list of pairs; of two values under one key the later one. -/
def ofList (es : List (Text × β)) : Dictionary β := es.foldl (fun d (k, v) => d.insert k v) empty

/-! ## Laws -/

theorem find?_insertEntry (key other : Text) (value : β) (es : List (Text × β)) :
    ((insertEntry key value es).find? (·.1 == other)).map (·.2) =
      if key = other then some value else (es.find? (·.1 == other)).map (·.2) := by
  induction es with
  | nil => by_cases h : key = other <;> simp [insertEntry, h]
  | cons f r ih =>
    obtain ⟨k, v⟩ := f
    simp only [insertEntry]
    split
    · by_cases h : key = other <;> simp [List.find?_cons, h]
    · split
      · next heq =>
        subst heq
        by_cases h : key = other <;> simp [h]
      · next hne =>
        by_cases h : k = other
        · subst h; simp [hne]
        · have hb : (k == other) = false := by simpa using h
          simp only [List.find?_cons, hb]; exact ih

theorem get?_insert (d : Dictionary β) (key other : Text) (value : β) :
    (d.insert key value).get? other = if key = other then some value else d.get? other :=
  find?_insertEntry key other value d.entries

theorem insertEntry_append {es : List (Text × β)} {key : Text} (value : β) (h : ∀ e ∈ es, e.1 < key) :
    insertEntry key value es = es ++ [(key, value)] := by
  induction es with
  | nil => rfl
  | cons f r ih =>
    obtain ⟨k, v⟩ := f
    have hk : k < key := h (k, v) List.mem_cons_self
    have h1 : ¬ key < k := fun h' => absurd (List.lt_trans hk h') (List.lt_irrefl k)
    have h2 : key ≠ k := fun h' => absurd (h' ▸ hk) (List.lt_irrefl k)
    rw [insertEntry, if_neg h1, if_neg h2, ih fun e he => h e (List.mem_cons_of_mem _ he)]; rfl

theorem foldl_insert_entries {d : Dictionary β} {es : List (Text × β)}
    (h : (d.entries ++ es).Pairwise fun a b => a.1 < b.1) :
    (es.foldl (fun d (k, v) => d.insert k v) d).entries = d.entries ++ es := by
  induction es generalizing d with
  | nil => simp
  | cons e r ih =>
    have he : (d.insert e.1 e.2).entries = d.entries ++ [e] :=
      insertEntry_append e.2 fun f hf => (List.pairwise_append.1 h).2.2 f hf e List.mem_cons_self
    rw [List.foldl_cons, ih (by rw [he, List.append_assoc]; exact h), he, List.append_assoc]; rfl

theorem nodup_keys (d : Dictionary β) : d.keys.Nodup := by
  have hne : d.entries.Pairwise fun a b => a.1 ≠ b.1 := by
    apply d.increasing.imp
    intro a b hlt he
    rw [he] at hlt
    exact List.lt_irrefl b.1 hlt
  exact List.pairwise_map.2 hne

theorem entries_ofList {es : List (Text × β)} (h : es.Pairwise fun a b => a.1 < b.1) : (ofList es).entries = es :=
  foldl_insert_entries (d := empty) h

theorem ofList_entries (d : Dictionary β) : ofList d.entries = d := by
  have h : (ofList d.entries).entries = d.entries := entries_ofList d.increasing
  cases hd : ofList d.entries with
  | mk es hes => cases d with
    | mk fs hfs => rw [hd] at h; cases h; rfl

theorem mem_foldl_insert {es : List (Text × β)} {d : Dictionary β} {e : Text × β}
    (h : e ∈ (es.foldl (fun d (k, v) => d.insert k v) d).entries) : e ∈ d.entries ∨ e ∈ es := by
  induction es generalizing d with
  | nil => exact Or.inl h
  | cons f r ih =>
    rcases ih h with h | h
    · rcases mem_insertEntry h with h | h
      · exact Or.inr (by rw [h]; exact List.mem_cons_self)
      · exact Or.inl h
    · exact Or.inr (List.mem_cons_of_mem _ h)

theorem mem_of_mem_ofList {es : List (Text × β)} {e : Text × β} (h : e ∈ (ofList es).entries) : e ∈ es :=
  (mem_foldl_insert h).resolve_left List.not_mem_nil

theorem get?_foldl_insert {es : List (Text × β)} (h : (es.map (·.1)).Nodup) (d : Dictionary β) (key : Text) :
    (es.foldl (fun d (k, v) => d.insert k v) d).get? key = ((es.find? (·.1 == key)).map (·.2)).or (d.get? key) := by
  induction es generalizing d with
  | nil => rfl
  | cons e r ih =>
    obtain ⟨k, v⟩ := e
    obtain ⟨hnew, hr⟩ := List.nodup_cons.1 h
    rw [List.foldl_cons, ih hr, get?_insert]
    by_cases hk : k = key
    · subst hk
      have hnone : r.find? (·.1 == k) = none := by
        rw [List.find?_eq_none]
        intro e he hek
        exact hnew (List.mem_map.2 ⟨e, he, by simpa using hek⟩)
      simp [hnone]
    · simp [hk]

theorem get?_ofList {es : List (Text × β)} (h : (es.map (·.1)).Nodup) (key : Text) :
    (ofList es).get? key = (es.find? (·.1 == key)).map (·.2) := by
  rw [ofList, get?_foldl_insert h]
  exact Option.or_none

end Dictionary
end DialogueScript
