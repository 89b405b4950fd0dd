import DialogueScript.Text.Name
import DialogueScript.Text.Quoted
/-!
# Directives

A directive is a comment that carries data: `// @name key=value …`. A value is quoted when it is empty or
has a blank character, a quote or a backslash, so a written directive is one line whose words are its
attributes.

* `Directive.line`: the written form.
* `directive?`: `none` when a line is no directive at all, an error when it is a malformed one.

Results:
* `readAttribute_length_lt`: reading an attribute leaves less to read, so a line has finitely many.
-/
namespace DialogueScript

/-- A name with attributes in order; a key may repeat, and the first one counts. -/
structure Directive where
  name : Text
  attributes : List (Text × Text)
  deriving DecidableEq, Repr

namespace Directive

/-- Why a line that starts as a directive is not one. -/
inductive Fault
  /-- The name is no attribute key. -/
  | invalidName (name : Text)
  /-- Something behind the name is not `key=value`. -/
  | notAttribute (name : Text)
  /-- No quote closes the value of a key. -/
  | unterminated (key : Text)
  deriving DecidableEq, Repr

def Fault.message : Fault → String
  | .invalidName name => "invalid directive name '" ++ String.ofList name ++ "'"
  | .notAttribute name => "expected key=value in @" ++ String.ofList name ++ " directive"
  | .unterminated key => "unterminated quoted value for '" ++ String.ofList key ++ "'"

/-- The value of the first attribute with a key. -/
def get? (d : Directive) (key : Text) : Option Text := (d.attributes.find? (·.1 == key)).map (·.2)

/-- The attributes whose keys are not known. -/
def extra (d : Directive) (known : List Text) : List (Text × Text) :=
  d.attributes.filter fun (key, _) => !known.contains key

/-- The directive with an attribute added when there is a value for it. -/
def withOptional (d : Directive) (key : Text) : Option Text → Directive
  | some value => { d with attributes := d.attributes ++ [(key, value)] }
  | none => d

/-- A value that would not be read back as it is has to be quoted. -/
def needsQuotes (value : Text) : Bool :=
  value.isEmpty || value.any fun c => Text.isBlank c || c == '"' || c == '\\'

def valueText (value : Text) : Text := if needsQuotes value then Text.quote value else value

def attributeText : Text × Text → Text
  | (key, value) => ' ' :: (key ++ '=' :: valueText value)

def line (d : Directive) : Text := "// @".toList ++ d.name ++ d.attributes.flatMap attributeText

/-! ## Reading -/

/-- A character that cannot belong to a key. -/
def endsKey (c : Char) : Bool := c == '=' || Text.isBlank c

/-- Reads the value behind `key=`, and what follows it. -/
def readValue (key : Text) : Text → Except Fault (Text × Text)
  | '"' :: r => match Text.quoted? r with
    | some (v, rest) => .ok (v, rest)
    | none => .error (.unterminated key)
  -- a quote further on in the value means nothing
  | r => .ok (r.takeWhile (!Text.isBlank ·), r.dropWhile (!Text.isBlank ·))

/-- Reads one attribute of the directive `name`, and what follows it. -/
def readAttribute (name s : Text) : Except Fault ((Text × Text) × Text) :=
  let key := s.takeWhile (!endsKey ·)
  match s.dropWhile (!endsKey ·) with
  | '=' :: r =>
    if Text.isAttributeKey key then (readValue key r).map fun (v, rest) => ((key, v), rest)
    else .error (.notAttribute name)
  | _ => .error (.notAttribute name)

theorem length_dropWhile_le (p : Char → Bool) (s : Text) : (s.dropWhile p).length ≤ s.length :=
  (List.dropWhile_sublist p).length_le

theorem quoted?_length_le {s t r : Text} (h : Text.quoted? s = some (t, r)) : r.length ≤ s.length := by
  fun_induction Text.quoted? s generalizing t r with
  | case1 => simp at h
  | case2 s => simp only [Option.some.injEq, Prod.mk.injEq] at h; rw [← h.2]; simp
  | case3 => simp at h
  | case4 c s ih =>
    obtain ⟨⟨u, v⟩, hu, he⟩ := Option.map_eq_some_iff.1 h
    cases he; have := ih hu; simp only [List.length_cons]; omega
  | case5 c s _ _ _ ih =>
    obtain ⟨⟨u, v⟩, hu, he⟩ := Option.map_eq_some_iff.1 h
    cases he; have := ih hu; simp only [List.length_cons]; omega

theorem readValue_length_le {key s v r : Text} (h : readValue key s = .ok (v, r)) : r.length ≤ s.length := by
  unfold readValue at h
  split at h
  · split at h
    · next hq => cases h; have := quoted?_length_le hq; simp only [List.length_cons]; omega
    · simp at h
  · cases h; exact length_dropWhile_le _ _

theorem readAttribute_length_lt {name s r : Text} {a : Text × Text} (h : readAttribute name s = .ok (a, r)) :
    r.length < s.length := by
  unfold readAttribute at h
  split at h
  · next rest hd =>
    dsimp only at h
    split at h
    · cases hv : readValue (s.takeWhile (!endsKey ·)) rest with
      | error e => simp [hv, Except.map] at h
      | ok p =>
        obtain ⟨v, r'⟩ := p
        simp only [hv, Except.map, Except.ok.injEq, Prod.mk.injEq] at h
        have h1 := readValue_length_le hv
        have h2 := length_dropWhile_le (!endsKey ·) s
        rw [hd] at h2; rw [← h.2]; simp only [List.length_cons] at h2; omega
    · simp at h
  · simp at h

/-- Reads attributes up to the end of the line. -/
def attributesOf (name s : Text) : Except Fault (List (Text × Text)) :=
  match _hs : Text.trimStart s with
  | [] => .ok []
  | c :: r => match _ha : readAttribute name (c :: r) with
    | .error e => .error e
    | .ok (a, rest) => (attributesOf name rest).map (a :: ·)
termination_by s.length
decreasing_by
  have h1 := readAttribute_length_lt _ha
  have h2 : (Text.trimStart s).length ≤ s.length := length_dropWhile_le _ _
  rw [_hs] at h2; omega

/-- Reads a directive from what follows its `@`. -/
def ofBody (body : Text) : Except Fault Directive :=
  let name := body.takeWhile (!Text.isBlank ·)
  if Text.isAttributeKey name then
    (attributesOf name (body.dropWhile (!Text.isBlank ·))).map fun as => ⟨name, as⟩
  else .error (.invalidName name)

end Directive

namespace Line

/-- Reads a directive line; `none` when the line is not `//`, blank characters and `@` at its start. -/
def directive? (line : Text) : Option (Except Directive.Fault Directive) :=
  match (Text.after? ['/', '/'] line).map Text.trimStart with
  | some ('@' :: body) => some (Directive.ofBody body)
  | _ => none

end Line
end DialogueScript
