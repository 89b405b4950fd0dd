import DialogueScript.Condition.Clause
/-!
# Conditions that hold together

Reading the text of conditions keeps the clauses that state a condition. A lenient reading drops the others
and reports them, a strict one fails on the first of them.

* `read`: one clause after another, in either way.
* `kept`, `dropped`: what a lenient reading makes of all clauses at once.
-/
namespace DialogueScript.Condition

/-- A clause that states no condition. -/
structure Unreadable where
  clause : Text
  deriving DecidableEq, Repr

def Unreadable.reason (_ : Unreadable) : String := "clause matches no known condition form"

def Unreadable.message (u : Unreadable) : String :=
  "cannot parse condition clause '" ++ String.ofList u.clause ++ "': " ++ u.reason

/-- Takes up a clause behind those that were read. -/
def readClause (strict : Bool) (read : List Condition × List Text) (clause : Text) :
    Except Unreadable (List Condition × List Text) :=
  match clause? clause with
  | some c => .ok (read.1 ++ [c], read.2)
  -- the clauses behind this one are not looked at in a strict reading
  | none => if strict then .error ⟨clause⟩ else .ok (read.1, read.2 ++ [clause])

/-- Reads the conditions of a text, with the clauses that were dropped. -/
def read (strict : Bool) (s : Text) : Except Unreadable (List Condition × List Text) :=
  (clauses s).foldlM (readClause strict) ([], [])

/-! ## Lenient readings -/

/-- The conditions that the clauses of a text state. -/
def kept (s : Text) : List Condition := (clauses s).filterMap clause?

/-- The clauses of a text that state no condition. -/
def dropped (s : Text) : List Text := (clauses s).filter fun c => (clause? c).isNone

end DialogueScript.Condition
