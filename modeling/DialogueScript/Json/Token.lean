import DialogueScript.Decimal.Numeral
import DialogueScript.Json.Basic
/-!
# JSON tokens

A JSON text is a row of tokens with spaces, tabs and line ends between them. A number without a point and
an exponent is an integer when 64 bits hold it, with or without a sign; every other number, and a zero with
a minus, is a floating point number.

* `tokens?`: the tokens of a text.
-/
namespace DialogueScript.Json

inductive Token
  | openArray
  | closeArray
  | openObject
  | closeObject
  | comma
  | colon
  /-- A string; it has no text when it holds half of a surrogate pair. -/
  | string (text : Option Text)
  /-- A number or a name. -/
  | scalar (value : Json)
  deriving DecidableEq, Repr

/-- A character between tokens. -/
def isSpace (c : Char) : Bool := c == ' ' || c == '\t' || c == '\n' || c == '\r'

/-! ## Strings -/

def hexDigit? (c : Char) : Option Nat :=
  if c.isDigit then some (c.toNat - '0'.toNat)
  else if 'a' ≤ c ∧ c ≤ 'f' then some (c.toNat - 'a'.toNat + 10)
  else if 'A' ≤ c ∧ c ≤ 'F' then some (c.toNat - 'A'.toNat + 10)
  else none

/-- The value of four hexadecimal digits. -/
def hexUnit? (a b c d : Char) : Option Nat := do
  return (((← hexDigit? a) * 16 + (← hexDigit? b)) * 16 + (← hexDigit? c)) * 16 + (← hexDigit? d)

/-- What a character means behind a backslash. -/
def escape? (c : Char) : Option Char :=
  if c = '"' ∨ c = '\\' ∨ c = '/' then some c
  else if c = 'b' then some '\x08'
  else if c = 'f' then some '\x0c'
  else if c = 'n' then some '\n'
  else if c = 'r' then some '\r'
  else if c = 't' then some '\t'
  else none

/-- Reads a string up to its closing quote: the numbers of its characters, with surrogates as they are
spelled, and what follows. -/
def units? : Text → Option (List Nat × Text)
  | '"' :: r => some ([], r)
  | '\\' :: 'u' :: a :: b :: c :: d :: r => do
    let n ← hexUnit? a b c d
    let (ns, rest) ← units? r
    return (n :: ns, rest)
  | '\\' :: c :: r => do
    let e ← escape? c
    let (ns, rest) ← units? r
    return (e.toNat :: ns, rest)
  | c :: r =>
    -- a newline in a string has to be spelled out; a backslash here precedes nothing
    if c.toNat < 0x20 ∨ c = '\\' then none
    else (units? r).map fun (ns, rest) => (c.toNat :: ns, rest)
  | [] => none

/-- The first half of a surrogate pair. -/
def isHigh (n : Nat) : Bool := 0xD800 ≤ n && n < 0xDC00

/-- The second half of a surrogate pair. -/
def isLow (n : Nat) : Bool := 0xDC00 ≤ n && n < 0xE000

/-- The text that numbers of characters stand for; `none` when half of a surrogate pair is left over. -/
def characters? : List Nat → Option Text
  | [] => some []
  | h :: l :: r =>
    if isHigh h then
      if isLow l then
        (characters? r).map (Char.ofNat (0x10000 + (h - 0xD800) * 0x400 + (l - 0xDC00)) :: ·)
      else none
    else if isLow h then none
    else (characters? (l :: r)).map (Char.ofNat h :: ·)
  | [n] => if isHigh n || isLow n then none else some [Char.ofNat n]

/-! ## Numbers -/

/-- The digits behind a point, if there is one; there has to be a digit. -/
def fraction? : Text → Option (Option Text × Text)
  | '.' :: r =>
    let ds := r.takeWhile Char.isDigit
    if ds.isEmpty then none else some (some ds, r.dropWhile Char.isDigit)
  | r => some (none, r)

/-- The exponent behind `e`, if there is one; there has to be a digit. -/
def exponent? : Text → Option (Option Int × Text)
  | e :: r =>
    if e = 'e' ∨ e = 'E' then
      let (negative, s) := Binary64.signed r
      let ds := s.takeWhile Char.isDigit
      let n : Int := Decimal.ofDigits ds
      if ds.isEmpty then none else some (some (if negative then -n else n), s.dropWhile Char.isDigit)
    else some (none, e :: r)
  | [] => some (none, [])

/-- The digits in front of the point: a single zero, or any that do not start with one. -/
def whole? (s : Text) : Option (Text × Text) :=
  match s with
  | '0' :: r => some (['0'], r)
  | c :: _ => if c.isDigit then some (s.takeWhile Char.isDigit, s.dropWhile Char.isDigit) else none
  | [] => none

/-- A floating point number; one beyond the largest number stands for nothing. -/
def floating (negative : Bool) (x : Decimal) : Json :=
  match Binary64.ofDecimal negative x with
  | .finite s m => .float (.finite s m)
  | _ => .unreadable

/-- An integer, when 64 bits hold it. -/
def integer (negative : Bool) (n : Nat) : Json :=
  if negative then
    -- no integer is a zero with a sign
    if n = 0 ∨ 2 ^ 63 < n then floating true ⟨n, 0⟩ else .int (-n)
  else if n < 2 ^ 64 then .int n
  else floating false ⟨n, 0⟩

/-- A number ends where it has to; digits behind a zero in front are not part of it. -/
def number? (s : Text) : Option (Json × Text) := do
  let (negative, s) := match s with
    | '-' :: r => (true, r)
    | _ => (false, s)
  let (whole, s) ← whole? s
  let (fraction, s) ← fraction? s
  let (exponent, s) ← exponent? s
  match fraction, exponent with
  | none, none => return (integer negative (Decimal.ofDigits whole), s)
  | _, _ => return (floating negative (.ofParts whole (fraction.getD []) (exponent.getD 0)), s)

/-! ## Tokens -/

/-- Names are read by their letters, whatever follows. -/
def token? : Text → Option (Token × Text)
  | '[' :: r => some (.openArray, r)
  | ']' :: r => some (.closeArray, r)
  | '\x7b' :: r => some (.openObject, r)
  | '\x7d' :: r => some (.closeObject, r)
  | ',' :: r => some (.comma, r)
  | ':' :: r => some (.colon, r)
  | '"' :: r => (units? r).map fun (ns, rest) => (.string (characters? ns), rest)
  | 'n' :: r => (Text.after? "ull".toList r).map (.scalar .null, ·)
  | 't' :: r => (Text.after? "rue".toList r).map (.scalar (.bool true), ·)
  | 'f' :: r => (Text.after? "alse".toList r).map (.scalar (.bool false), ·)
  | s => (number? s).map fun (j, rest) => (.scalar j, rest)

/-- Reads at most so many tokens, which have to reach the end of the text. -/
def tokensWithin? : Nat → Text → Option (List Token)
  | fuel, s => match s.dropWhile isSpace, fuel with
    | [], _ => some []
    | _ :: _, 0 => none
    | c :: r, fuel + 1 => do
      let (t, rest) ← token? (c :: r)
      return t :: (← tokensWithin? fuel rest)

/-- The tokens of a text; each has at least one character. -/
def tokens? (s : Text) : Option (List Token) := tokensWithin? s.length s

end DialogueScript.Json
