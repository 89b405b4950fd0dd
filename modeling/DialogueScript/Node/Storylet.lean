import DialogueScript.Check.Payload
import DialogueScript.Node.Layout
import DialogueScript.Node.Reading
/-!
# Storylet calls and storylet pools

A script has no command that calls a storylet, so calls and pools are directives. Attributes that neither
uses for itself are kept in increasing order of their keys.

* `Storylet.lines`, `Storylet.read`: a call is one directive.
* `Pool.lines`, `Pool.read`: a pool is a directive, one more for each member, and at most one jump at its end.
-/
namespace DialogueScript

namespace Directive

/-- The attributes that are not known, under increasing keys; of two with one key the later one. -/
def extraAttributes (d : Directive) (known : List Text) : Dictionary Text := .ofList (d.extra known)

/-- The directive with attributes behind its own. -/
def withAttributes (d : Directive) (attributes : Dictionary Text) : Directive :=
  { d with attributes := d.attributes ++ attributes.entries }

/-- The value of an attribute that has to be there and not empty. -/
def required (d : Directive) (line : Nat) (key : Text) : Except NodeFault Text :=
  match d.get? key with
  | some (c :: v) => .ok (c :: v)
  | _ => .error ⟨line, .missingKey d.name key⟩

/-- The value of an attribute with a few values, or its default. -/
def policy {α : Type} (d : Directive) (line : Nat) (key : Text) (ofName? : Text → Option α) (default : α) :
    Except NodeFault α :=
  match d.get? key with
  | none => .ok default
  | some name => match ofName? name with
    | some a => .ok a
    | none => .error ⟨line, .unknownValue key name⟩

end Directive

namespace Storylet

def directiveName : Text := "storylet".toList

/-- Policies are always written, nodes only when there are any. -/
def directive (s : Storylet) : Directive :=
  let d : Directive := ⟨directiveName, [("template".toList, s.template), ("entry".toList, s.entry.name)]⟩
  let d := d.withOptional "entry_node".toList s.entryNode
  let d := d.withOptional "return".toList (some s.exit.name)
  let d := d.withOptional "return_node".toList s.exitNode
  d.withAttributes s.attributes

def lines (s : Storylet) : List Text := [s.directive.line]

def ofDirective (line : Nat) (d : Directive) : Except NodeFault Storylet := do
  let template ← d.required line "template".toList
  let entry ← d.policy line "entry".toList Entry.ofName? .start
  let exit ← d.policy line "return".toList Exit.ofName? .node
  -- both nodes are taken as they are spelled
  return ⟨template, entry, d.get? "entry_node".toList, exit, d.get? "return_node".toList,
    d.extraAttributes Check.storyletKeys⟩

/-- Reads one line, given the call that was read before. -/
def step (found : Option Storylet) (l : SourceLine) : Except NodeFault (Option Storylet) :=
  match Line.directive? l.text with
  | some (.error f) => .error ⟨l.number, .directive f⟩
  | some (.ok d) =>
    if d.name = directiveName then
      if found.isSome then .error ⟨l.number, .secondStorylet⟩ else (ofDirective l.number d).map some
    else .error ⟨l.number, .storyletLine l.text⟩
  | none => .error ⟨l.number, .storyletLine l.text⟩

def read (b : Block) : Except NodeFault Storylet := do
  match ← b.meaningful.foldlM step none with
  | some s => .ok s
  | none => .error ⟨b.titleLine, .noStorylet⟩

end Storylet

namespace Pool

def directiveName : Text := "storylet_pool".toList

def memberName : Text := "member".toList

def directive (p : Pool) : Directive :=
  Directive.withAttributes ⟨directiveName, [("pool".toList, p.pool), ("selection".toList, p.selection.name)]⟩
    p.attributes

def memberDirective (m : PoolMember) : Directive :=
  ⟨memberName, [("template".toList, m.template), ("weight".toList, Decimal.digits m.weight.toNat)]⟩

/-- The jump comes behind all directives. -/
def lines (p : Pool) : List Text :=
  p.directive.line :: (p.members.map fun m => (memberDirective m).line) ++ Layout.jumpLines p.next

/-- The pool that a directive states, without its members. -/
def ofDirective (line : Nat) (d : Directive) : Except NodeFault Pool := do
  let pool ← d.required line "pool".toList
  let selection ← d.policy line "selection".toList Selection.ofName? .random
  return ⟨pool, selection, [], none, d.extraAttributes Check.poolKeys⟩

/-- The weight that a text spells: a whole number below `2 ^ 32`. -/
def weight? (s : Text) : Option UInt32 :=
  (Decimal.wholeNumber? s).bind fun n => if n < 2 ^ 32 then some (.ofNat n) else none

/-- The weight of a member, which is one when none is stated. -/
def memberWeight (line : Nat) (d : Directive) : Except NodeFault UInt32 :=
  match d.get? "weight".toList with
  | none => .ok 1
  | some s => match weight? s with
    | some w => .ok w
    | none => .error ⟨line, .badWeight s⟩

def memberOfDirective (line : Nat) (d : Directive) : Except NodeFault PoolMember :=
  match d.extra ["template".toList, "weight".toList] with
  | (key, _) :: _ => .error ⟨line, .memberKey key⟩
  | [] => do
    let weight ← memberWeight line d
    let template ← d.required line "template".toList
    return ⟨template, weight⟩

/-- The pool is without members and a jump until its end. -/
structure Progress where
  pool : Option Pool
  members : List PoolMember
  next : Option Text
  deriving DecidableEq, Repr

namespace Progress

def start : Progress := ⟨none, [], none⟩

def readDirective (p : Progress) (line : Nat) (d : Directive) : Except NodeFault Progress :=
  if d.name = directiveName then
    if p.pool.isSome then .error ⟨line, .secondPool⟩
    else (ofDirective line d).map fun q => { p with pool := some q }
  else if d.name = memberName then
    (memberOfDirective line d).map fun m => { p with members := p.members ++ [m] }
  else .error ⟨line, .poolDirective d.name⟩

/-- Reads one line; a jump is the last one. -/
def step (p : Progress) (l : SourceLine) : Except NodeFault Progress :=
  match Line.command? l.text with
  | some (.jump target) =>
    if p.next.isSome then .error ⟨l.number, .poolSecondJump⟩
    else (Node.readTarget l.number target).map fun t => { p with next := some t }
  | _ =>
    -- directives come in any order, but in front of the jump
    if p.next.isSome then .error ⟨l.number, .poolAfterJump⟩
    else match Line.directive? l.text with
    | some (.ok d) => p.readDirective l.number d
    | some (.error f) => .error ⟨l.number, .directive f⟩
    | none => .error ⟨l.number, .poolLine l.text⟩

/-- The end of the body: a directive has to have stated the pool. -/
def finish (p : Progress) (titleLine : Nat) : Except NodeFault Pool :=
  match p.pool with
  | some q => .ok { q with members := p.members, next := p.next }
  | none => .error ⟨titleLine, .noPool⟩

end Progress

def read (b : Block) : Except NodeFault Pool :=
  (b.meaningful.foldlM Progress.step .start).bind (·.finish b.titleLine)

end Pool
end DialogueScript
