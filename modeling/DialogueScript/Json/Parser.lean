import DialogueScript.Json.Token
/-!
# Reading JSON

The tokens of a text are put together with a stack of the arrays and objects that are still open. At most
127 of them may be open at a time: what is opened inside of so many stands for nothing.

* `Json.parse?`: the value that a text spells.
-/
namespace DialogueScript.Json

/-- An array or object that is still open, with what it holds so far, the last first. An object also has the
key of the next member. A key that stands for no text is `none`. -/
inductive Frame
  | items (done : List Json)
  | members (done : List (Option Text × Json)) (key : Option Text) -- the key of the member that comes next
  deriving Repr

/-- What may come next. -/
inductive Expected
  | value
  | valueOrClose
  | key
  | keyOrClose
  | colon
  | commaOrClose
  deriving DecidableEq, Repr

/-- The open arrays and objects, the innermost first, or the value when it is complete. -/
inductive Parsing
  | going (stack : List Frame) (expected : Expected)
  | complete (value : Json)
  deriving Repr

/-- The members of an object whose keys all stand for texts. -/
def closeMembers : List (Option Text × Json) → List (Text × Json) → Json
  | [], members => .object members
  | (some k, j) :: done, members => closeMembers done ((k, j) :: members)
  | (none, _) :: _, _ => .unreadable

def Frame.close : Frame → Json
  | items done => .array done.reverse
  | members done _ => closeMembers done []

/-- How many arrays and objects may be open at a time. -/
def maxDepth : Nat := 127

/-- A complete value goes into the innermost open array or object. -/
def deliver (j : Json) : List Frame → Parsing
  | [] => .complete j
  | .items done :: stack => .going (.items (j :: done) :: stack) .commaOrClose
  | .members done key :: stack => .going (.members ((key, j) :: done) key :: stack) .commaOrClose

def closeFrame (f : Frame) (stack : List Frame) : Parsing :=
  -- what is too deep is gone through to its end, and then stands for nothing
  deliver (if stack.length < maxDepth then f.close else .unreadable) stack

/-- Reads a token where a value is expected. -/
def readValue (stack : List Frame) : Token → Option Parsing
  | .openArray => some (.going (.items [] :: stack) .valueOrClose)
  | .openObject => some (.going (.members [] none :: stack) .keyOrClose)
  | .string (some t) => some (deliver (.string t) stack)
  | .string none => some (deliver .unreadable stack)
  | .scalar j => some (deliver j stack)
  | _ => none

/-- Nothing follows a complete value. -/
def Parsing.step : Parsing → Token → Option Parsing
  | .complete _, _ => none
  | .going stack .value, t => readValue stack t
  | .going (.items done :: stack) .valueOrClose, .closeArray => some (closeFrame (.items done) stack)
  | .going stack .valueOrClose, t => readValue stack t
  | .going (.members done key :: stack) .keyOrClose, .closeObject => some (closeFrame (.members done key) stack)
  | .going (.members done _ :: stack) .keyOrClose, .string k => some (.going (.members done k :: stack) .colon)
  | .going (.members done _ :: stack) .key, .string k => some (.going (.members done k :: stack) .colon)
  | .going stack .colon, .colon => some (.going stack .value)
  | .going (.items done :: stack) .commaOrClose, .comma => some (.going (.items done :: stack) .value)
  | .going (.items done :: stack) .commaOrClose, .closeArray => some (closeFrame (.items done) stack)
  | .going (.members done key :: stack) .commaOrClose, .comma => some (.going (.members done key :: stack) .key)
  | .going (.members done key :: stack) .commaOrClose, .closeObject => some (closeFrame (.members done key) stack)
  | _, _ => none

/-- The value that a text spells; nothing but blanks may be around it. -/
def parse? (s : Text) : Option Json := do
  match ← (← tokens? s).foldlM Parsing.step (.going [] .value) with
  | .complete j => return j
  | .going _ _ => none

end DialogueScript.Json
