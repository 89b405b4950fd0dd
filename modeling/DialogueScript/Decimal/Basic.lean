import DialogueScript.Text.Blank
/-!
# Decimal numbers

A decimal number is a coefficient times a power of ten. Written without an exponent it is its digits with
a point among them or zeros behind them.

Results:
* `ofDigits_paddedDigits`: the digits behind the point are read back as the number they stand for.
-/
namespace DialogueScript

-- A power is the built-in one, also next to libraries that have powers in every monoid.
attribute [instance (high + 1), default_instance (high + 1)] instPowNat

/-- `coefficient · 10 ^ exponent`. -/
structure Decimal where
  coefficient : Nat
  exponent : Int
  deriving DecidableEq, Repr

namespace Decimal

/-- The decimal digits of a number, at least one. -/
def digits (n : Nat) : Text := Nat.toDigits 10 n

def ofDigits (ds : Text) : Nat := Nat.ofDigitChars 10 ds 0

/-- The digits of a number, with zeros in front up to a width. -/
def paddedDigits (width n : Nat) : Text := List.replicate (width - (digits n).length) '0' ++ digits n

/-- The number behind the digits in front of a point, the digits behind it and an exponent of ten. -/
def ofParts (whole fraction : Text) (exponent : Int) : Decimal :=
  ⟨ofDigits (whole ++ fraction), exponent - fraction.length⟩

def wholeDigits (x : Decimal) : Text :=
  match x.exponent with
  | .ofNat n => digits (x.coefficient * 10 ^ n)
  | .negSucc n => digits (x.coefficient / 10 ^ (n + 1)) -- the exponent is -(n + 1)

def fractionDigits (x : Decimal) : Text :=
  match x.exponent with
  | .ofNat _ => []
  | .negSucc n => paddedDigits (n + 1) (x.coefficient % 10 ^ (n + 1))

/-- The number without an exponent; without digits behind the point there is no point. -/
def positional (x : Decimal) : Text :=
  match x.fractionDigits with
  | [] => x.wholeDigits
  | c :: r => x.wholeDigits ++ '.' :: c :: r

/-- A whole number is read from digits behind an optional `+`. -/
def wholeNumber? (s : Text) : Option Nat :=
  let ds := match s with | '+' :: r => r | _ => s
  if !ds.isEmpty && ds.all Char.isDigit then some (ofDigits ds) else none

/-! ## Laws -/

theorem ofDigits_digits (n : Nat) : ofDigits (digits n) = n := Nat.ofDigitChars_ten_toDigits

theorem ofDigits_paddedDigits (width n : Nat) : ofDigits (paddedDigits width n) = n := by
  rw [ofDigits, paddedDigits, Nat.ofDigitChars_append, Nat.ofDigitChars_replicate_zero, Nat.mul_zero]
  exact ofDigits_digits n

theorem isDigit_of_mem_digits {c : Char} {n : Nat} (h : c ∈ digits n) : c.isDigit :=
  Nat.isDigit_of_mem_toDigits (by decide) (by decide) h

theorem isDigit_of_mem_paddedDigits {c : Char} {width n : Nat} (h : c ∈ paddedDigits width n) : c.isDigit := by
  rw [paddedDigits, List.mem_append] at h
  rcases h with h | h
  · rw [List.eq_of_mem_replicate h]; rfl
  · exact isDigit_of_mem_digits h

end Decimal
end DialogueScript
