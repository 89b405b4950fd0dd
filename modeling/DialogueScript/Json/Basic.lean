import DialogueScript.Decimal.Binary64
import DialogueScript.Text.Dictionary
/-!
# JSON values

A number is an integer or a floating point number, as it was spelled, and the two are never equal. The
members of an object are kept in the order in which they were spelled, with repetitions; the canonical form
of a value has them in increasing order and keeps the last of several with one name.
-/
namespace DialogueScript

inductive Json
  | null
  | bool (value : Bool)
  | int (value : Int)
  | float (value : Binary64)
  | string (value : Text)
  | array (items : List Json)
  | object (members : List (Text × Json))
  /-- Correctly spelled, but standing for no value: a number beyond the largest one, a text with half of a
  surrogate pair, or an array or object inside too many others. -/
  | unreadable
  deriving Inhabited, Repr

namespace Json

mutual

def decEq (a b : Json) : Decidable (a = b) :=
  match a with
  | .null => by cases b <;> first | exact isTrue rfl | exact isFalse nofun
  | .unreadable => by cases b <;> first | exact isTrue rfl | exact isFalse nofun
  | .bool x => match b with
    | .bool y => decidable_of_iff (x = y) (by simp)
    | .null | .unreadable | .int _ | .float _ | .string _ | .array _ | .object _ => isFalse nofun
  | .int x => match b with
    | .int y => decidable_of_iff (x = y) (by simp)
    | .null | .unreadable | .bool _ | .float _ | .string _ | .array _ | .object _ => isFalse nofun
  | .float x => match b with
    | .float y => decidable_of_iff (x = y) (by simp)
    | .null | .unreadable | .bool _ | .int _ | .string _ | .array _ | .object _ => isFalse nofun
  | .string x => match b with
    | .string y => decidable_of_iff (x = y) (by simp)
    | .null | .unreadable | .bool _ | .int _ | .float _ | .array _ | .object _ => isFalse nofun
  | .array xs => match b with
    | .array ys => match decEqItems xs ys with
      | isTrue h => isTrue (by rw [h])
      | isFalse h => isFalse (by simpa using h)
    | .null | .unreadable | .bool _ | .int _ | .float _ | .string _ | .object _ => isFalse nofun
  | .object xs => match b with
    | .object ys => match decEqMembers xs ys with
      | isTrue h => isTrue (by rw [h])
      | isFalse h => isFalse (by simpa using h)
    | .null | .unreadable | .bool _ | .int _ | .float _ | .string _ | .array _ => isFalse nofun

def decEqItems (as bs : List Json) : Decidable (as = bs) :=
  match as, bs with
  | [], [] => isTrue rfl
  | [], _ :: _ => isFalse nofun
  | _ :: _, [] => isFalse nofun
  | a :: as, b :: bs => match decEq a b, decEqItems as bs with
    | isTrue h, isTrue hs => isTrue (by rw [h, hs])
    | isFalse h, _ => isFalse (by simp [h])
    | _, isFalse hs => isFalse (by simp [hs])

def decEqMembers (as bs : List (Text × Json)) : Decidable (as = bs) :=
  match as, bs with
  | [], [] => isTrue rfl
  | [], _ :: _ => isFalse nofun
  | _ :: _, [] => isFalse nofun
  | (k, a) :: as, (l, b) :: bs =>
    if hk : k = l then match decEq a b, decEqMembers as bs with
      | isTrue h, isTrue hs => isTrue (by rw [hk, h, hs])
      | isFalse h, _ => isFalse (by simp [h])
      | _, isFalse hs => isFalse (by simp [hs])
    else isFalse (by simp [hk])

end

instance : DecidableEq Json := decEq

mutual

/-- Members in increasing order, the last of several with one name, everywhere in the value. -/
def canonical : Json → Json
  | .array items => .array (canonicalItems items)
  | .object members => .object (Dictionary.ofList (canonicalMembers members)).entries
  | j => j

def canonicalItems : List Json → List Json
  | [] => []
  | j :: js => canonical j :: canonicalItems js

def canonicalMembers : List (Text × Json) → List (Text × Json)
  | [] => []
  | (k, j) :: ms => (k, canonical j) :: canonicalMembers ms

end

mutual

/-- Nothing in the value is unreadable. -/
def isReadable : Json → Bool
  | .array items => areReadable items
  | .object members => haveReadable members
  | .unreadable => false
  | _ => true

def areReadable : List Json → Bool
  | [] => true
  | j :: js => isReadable j && areReadable js

def haveReadable : List (Text × Json) → Bool
  | [] => true
  | (_, j) :: ms => isReadable j && haveReadable ms

end

mutual

/-- Both floating point zeros compare as one number. -/
def plainZero : Json → Json
  | .float x => .float x.plainZero
  | .array items => .array (plainZeroItems items)
  | .object members => .object (plainZeroMembers members)
  | j => j

/-- Both floating point zeros compare as one number. -/
def plainZeroItems : List Json → List Json
  | [] => []
  | j :: js => plainZero j :: plainZeroItems js

/-- Both floating point zeros compare as one number. -/
def plainZeroMembers : List (Text × Json) → List (Text × Json)
  | [] => []
  | (k, j) :: ms => (k, plainZero j) :: plainZeroMembers ms

end

/-- The value in its canonical form, if all of it can be read. -/
def value? (j : Json) : Option Json := if j.isReadable then some j.canonical else none

/-- The first member of an object with a name. -/
def member? (name : Text) : Json → Option Json
  | .object members => (members.find? (·.1 == name)).map (·.2)
  | _ => none

def string? : Json → Option Text
  | .string t => some t
  | _ => none

def items? : Json → Option (List Json)
  | .array items => some items
  | _ => none

/-- A string value written as a literal. -/
def ofString (s : String) : Json := .string s.toList

end Json
end DialogueScript
