import DialogueScript.Decimal.Basic
/-!
# Binary floating point numbers of 64 bits

A finite magnitude is `coefficient · 2 ^ shift` in units of `2 ^ -1074`, the smallest positive number. The
coefficient has 53 bits unless the shift is zero, so each magnitude is written in one way. A ratio is
rounded to the nearest magnitude, and a ratio halfway between two goes to the one with even coefficient.

Results:
* `ofRatio_of_exact`: a ratio that is a magnitude rounds to it.
-/
namespace DialogueScript

/-- The size of a finite number, `coefficient · 2 ^ (shift - 1074)`. -/
structure Magnitude where
  coefficient : Nat
  shift : Nat
  coefficient_lt : coefficient < 2 ^ 53
  shift_le : shift ≤ 2045
  normal : 2 ^ 52 ≤ coefficient ∨ shift = 0 -- else the coefficient could be doubled for one shift less
  deriving DecidableEq, Repr

namespace Magnitude

/-- Magnitudes are counted in units of `2 ^ -scale`, the smallest positive one. -/
def scale : Nat := 1074

def zero : Magnitude := ⟨0, 0, by decide, by decide, Or.inr rfl⟩

def units (x : Magnitude) : Nat := x.coefficient * 2 ^ x.shift

/-- The magnitude with a coefficient and a shift, if they are one. -/
def of? (coefficient shift : Nat) : Option Magnitude :=
  if h : coefficient < 2 ^ 53 ∧ shift ≤ 2045 ∧ (2 ^ 52 ≤ coefficient ∨ shift = 0) then
    some ⟨coefficient, shift, h.1, h.2.1, h.2.2⟩
  else none

/-- The whole number nearest to a ratio; of two, the even one. -/
def roundHalfEven (num den : Nat) : Nat :=
  let q := num / den
  let r := num % den
  -- halfway, an odd `q` goes up and an even one stays
  if 2 * r < den then q else if den < 2 * r then q + 1 else q + q % 2

/-- The shift at which a number of units keeps 53 bits. -/
def shiftFor (units : Nat) : Nat := units.log2 - 52

/-- The magnitude nearest to `num / den` units; `none` beyond the largest one. -/
def ofRatio (num den : Nat) : Option Magnitude :=
  let s := shiftFor (num / den)
  let c := roundHalfEven num (den * 2 ^ s)
  -- rounding up can carry into a bit more
  if c = 2 ^ 53 then of? (2 ^ 52) (s + 1) else of? c s

/-- A decimal in units is a ratio with this numerator. -/
def numerator (x : Decimal) : Nat := x.coefficient * 10 ^ x.exponent.toNat * 2 ^ scale

/-- A decimal in units is a ratio with this denominator. -/
def denominator (x : Decimal) : Nat := 10 ^ (-x.exponent).toNat

/-- The magnitude nearest to a decimal; `none` beyond the largest one. A decimal far outside of the range is
settled by its exponent and never multiplied out. -/
def ofDecimal (x : Decimal) : Option Magnitude :=
  if x.coefficient = 0 then some zero
  else if 400 < x.exponent then none
  else if x.exponent < -(x.coefficient.log2 + 400 : Int) then some zero
  else ofRatio (numerator x) (denominator x)

/-! ## Rounding of exact ratios -/

theorem roundHalfEven_mul (q : Nat) {den : Nat} (h : 0 < den) : roundHalfEven (q * den) den = q := by
  simp [roundHalfEven, Nat.mul_div_cancel _ h, h]

theorem shiftFor_units (x : Magnitude) : shiftFor x.units = x.shift := by
  unfold shiftFor units
  have hc := x.coefficient_lt
  rcases x.normal with hn | h0
  · have hpos : 0 < 2 ^ x.shift := Nat.two_pow_pos _
    have h1 : 2 ^ (52 + x.shift) ≤ x.coefficient * 2 ^ x.shift := by
      rw [Nat.pow_add]; exact Nat.mul_le_mul_right _ hn
    have h2 : x.coefficient * 2 ^ x.shift < 2 ^ (53 + x.shift) := by
      rw [Nat.pow_add]; exact Nat.mul_lt_mul_of_pos_right hc hpos
    have hne : x.coefficient * 2 ^ x.shift ≠ 0 := by
      have := Nat.two_pow_pos (52 + x.shift); omega
    have h3 := (Nat.le_log2 hne).2 h1
    have h4 := (Nat.log2_lt hne).2 h2
    omega
  · rw [h0, Nat.pow_zero, Nat.mul_one]
    by_cases hz : x.coefficient = 0
    · rw [hz]; rfl
    · have := (Nat.log2_lt hz).2 hc; omega

theorem of?_self (x : Magnitude) : of? x.coefficient x.shift = some x := by
  rw [of?, dif_pos ⟨x.coefficient_lt, x.shift_le, x.normal⟩]

theorem ofRatio_of_exact (x : Magnitude) {den : Nat} (h : 0 < den) : ofRatio (x.units * den) den = some x := by
  unfold ofRatio
  rw [Nat.mul_div_cancel _ h, shiftFor_units]
  have hc : roundHalfEven (x.units * den) (den * 2 ^ x.shift) = x.coefficient := by
    rw [units, Nat.mul_assoc, Nat.mul_comm (2 ^ x.shift) den]
    exact roundHalfEven_mul _ (Nat.mul_pos h (Nat.two_pow_pos _))
  have hne : x.coefficient ≠ 2 ^ 53 := Nat.ne_of_lt x.coefficient_lt
  simp only [hc, hne, if_false]
  exact of?_self x

end Magnitude

/-- There is one undefined number, and it has no sign. -/
inductive Binary64
  | finite (negative : Bool) (magnitude : Magnitude)
  | infinite (negative : Bool)
  | nan
  deriving DecidableEq, Repr

namespace Binary64

def isFinite : Binary64 → Bool
  | finite .. => true
  | _ => false

/-- The positive zero. -/
def zero : Binary64 := finite false .zero

instance : Inhabited Binary64 := ⟨zero⟩

/-- The number nearest to a signed decimal; beyond the largest one it is infinite. -/
def ofDecimal (negative : Bool) (x : Decimal) : Binary64 :=
  match Magnitude.ofDecimal x with
  | some m => finite negative m
  | none => infinite negative

def ofInt (i : Int) : Binary64 := ofDecimal (i < 0) ⟨i.natAbs, 0⟩

/-- Both zeros become the positive one: as numbers they are equal. -/
def plainZero : Binary64 → Binary64
  | finite negative m => if m = .zero then zero else finite negative m
  | x => x

end Binary64
end DialogueScript
