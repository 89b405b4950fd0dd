import DialogueScript.Decimal.Shortest
/-!
# Numerals

A number in a script is an optional sign, digits with at most one point among or beside them, and an
optional exponent; `inf`, `infinity` and `nan` are read in any case. A number is written with its shortest
digits and never with an exponent: `10`, `-2.5`, `-0`, `0.0000001`.
-/
namespace DialogueScript.Binary64

/-- Splits off an optional sign: whether it is a minus, and what follows. -/
def signed : Text → Bool × Text
  | '-' :: r => (true, r)
  | '+' :: r => (false, r)
  | r => (false, r)

/-- An exponent behind `e`: digits behind an optional sign, up to the end. -/
def exponent? (s : Text) : Option Int :=
  let (negative, ds) := signed s
  if !ds.isEmpty && ds.all Char.isDigit then
    let n : Int := Decimal.ofDigits ds
    some (if negative then -n else n)
  else none

/-- Digits with at most one point, then an optional exponent. -/
def decimal? (s : Text) : Option Decimal :=
  let whole := s.takeWhile Char.isDigit
  let (fraction, rest) := match s.dropWhile Char.isDigit with
    | '.' :: r => (r.takeWhile Char.isDigit, r.dropWhile Char.isDigit)
    | r => ([], r)
  -- a point needs a digit on one side
  if whole.isEmpty && fraction.isEmpty then none
  else match rest with
    | [] => some (.ofParts whole fraction 0)
    | e :: r => if e = 'e' ∨ e = 'E' then (exponent? r).map (.ofParts whole fraction) else none

def read? (s : Text) : Option Binary64 :=
  let (negative, r) := signed s
  let name := Text.lower r
  if name = "inf".toList ∨ name = "infinity".toList then some (.infinite negative)
  else if name = "nan".toList then some .nan
  else (decimal? r).map (.ofDecimal negative)

def text : Binary64 → Text
  | finite negative m => (if negative then ['-'] else []) ++ (m.shortest .up).positional
  | infinite negative => (if negative then ['-'] else []) ++ "inf".toList
  | nan => "NaN".toList

end DialogueScript.Binary64
