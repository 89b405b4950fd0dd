import DialogueScript.Decimal.Binary64
/-!
# The shortest decimal that reads back

A magnitude is written with the fewest digits that are read back as the same magnitude; among decimals of
that many digits the nearest one is taken. A decimal of `n` digits that reads back can only be one of the
two neighbours of the magnitude on a grid of powers of ten, so each grid asks two questions, and the first
grid with an answer wins. Which neighbour is taken when both are equally near is left to the notation.

Results:
* `ofDecimal_shortest`: what is written is read back.
-/
namespace DialogueScript

/-- Which of two equally near decimals is taken. -/
inductive Tie
  /-- The larger one. -/
  | up
  /-- The one whose last digit is even. -/
  | even
  deriving DecidableEq, Repr

namespace Tie

/-- The choice between `low` and `low + 1`. -/
def pick : Tie → Nat → Nat
  | up, low => low + 1
  | even, low => low + low % 2

end Tie

namespace Magnitude

/-- The decimal is read as this magnitude. -/
def reads (x : Magnitude) (d : Decimal) : Bool := ofDecimal d == some x

/-- The nearest multiple of `10 ^ e` that is read as this magnitude. -/
def onGrid? (x : Magnitude) (tie : Tie) (e : Int) : Option Decimal :=
  let num := x.units * 10 ^ (-e).toNat
  let den := 2 ^ scale * 10 ^ e.toNat
  -- the magnitude is between the neighbours `low` and `low + 1`
  let low := num / den
  let rest := num % den
  match x.reads ⟨low, e⟩, x.reads ⟨low + 1, e⟩ with
  | false, false => none
  | true, false => some ⟨low, e⟩
  | false, true => some ⟨low + 1, e⟩
  | true, true =>
    if 2 * rest < den then some ⟨low, e⟩
    else if den < 2 * rest then some ⟨low + 1, e⟩
    else some ⟨tie.pick low, e⟩

/-- How many digits stand in front of the point; for numbers below one tenth, less the zeros behind it. -/
def digitsBeforePoint (x : Magnitude) : Int :=
  -- 400 more digits keep the ones that a small magnitude has behind the point
  (Decimal.digits (x.units * 10 ^ 400 / 2 ^ scale)).length - 400

/-- All digits of the magnitude, which always suffice. -/
def exact (x : Magnitude) : Decimal := ⟨x.units * 5 ^ scale, -scale⟩

/-- The shortest decimal that is read as this magnitude. The first grid holds only the power of ten above
the magnitude, each later one a digit more, and 17 digits are always enough. -/
def shortest (x : Magnitude) (tie : Tie) : Decimal :=
  if x = zero then ⟨0, 0⟩
  else
    ((List.range 18).findSome? fun i : Nat => x.onGrid? tie (x.digitsBeforePoint - i)).getD x.exact

/-! ## What is written is read back -/

theorem two_pow_mul_two_le (n : Nat) : 2 ^ (2 * n) ≤ 5 ^ n := by
  rw [Nat.pow_mul]; exact Nat.pow_le_pow_left (by decide) n

theorem mul_five_pow_mul_two_pow (u n : Nat) : u * 5 ^ n * 10 ^ 0 * 2 ^ n = u * 10 ^ n := by
  rw [Nat.pow_zero, Nat.mul_one, Nat.mul_assoc, ← Nat.mul_pow]

theorem numerator_exact (x : Magnitude) : numerator x.exact = x.units * 10 ^ scale :=
  mul_five_pow_mul_two_pow x.units scale

theorem ofRatio_exact (x : Magnitude) : ofRatio (numerator x.exact) (denominator x.exact) = some x := by
  rw [numerator_exact]; exact ofRatio_of_exact x (Nat.pow_pos (by decide))

theorem ofDecimal_exact (x : Magnitude) : ofDecimal x.exact = some x := by
  have h5 : 0 < 5 ^ scale := Nat.pow_pos (by decide)
  unfold ofDecimal
  split
  · next h0 =>
    have hz : numerator x.exact = 0 := by simp [numerator, h0]
    rw [← ofRatio_exact x, hz]
    simp [ofRatio, shiftFor, roundHalfEven, of?, zero]
  · next h0 =>
    have hlog : 2 * scale ≤ x.exact.coefficient.log2 := by
      rw [Nat.le_log2 h0]
      have hu : 1 ≤ x.units := by
        rcases Nat.eq_zero_or_pos x.units with h | h
        · exact absurd (by simp [exact, h]) h0
        · exact h
      calc 2 ^ (2 * scale) ≤ 5 ^ scale := two_pow_mul_two_le scale
        _ = 1 * 5 ^ scale := (Nat.one_mul _).symm
        _ ≤ x.units * 5 ^ scale := Nat.mul_le_mul_right _ hu
    have he : x.exact.exponent = -(scale : Int) := rfl
    rw [he, if_neg (by omega), if_neg (by omega)]
    exact ofRatio_exact x

theorem ofDecimal_onGrid {x : Magnitude} {tie : Tie} {e : Int} {d : Decimal} (h : x.onGrid? tie e = some d) :
    ofDecimal d = some x := by
  have key : ∀ d, x.reads d = true → ofDecimal d = some x := fun d hd => by simpa [reads] using hd
  unfold onGrid? at h
  dsimp only at h
  split at h
  · simp at h
  · next h1 _ => cases h; exact key _ h1
  · next _ h2 => cases h; exact key _ h2
  · next h1 h2 =>
    split at h
    · cases h; exact key _ h1
    · split at h
      · cases h; exact key _ h2
      · cases h
        cases tie with
        | up => exact key _ h2
        | even =>
          simp only [Tie.pick]
          rcases Nat.mod_two_eq_zero_or_one (x.units * 10 ^ (-e).toNat / (2 ^ scale * 10 ^ e.toNat)) with hm | hm
          · rw [hm]; exact key _ h1
          · rw [hm]; exact key _ h2

theorem ofDecimal_shortest (x : Magnitude) (tie : Tie) : ofDecimal (x.shortest tie) = some x := by
  unfold shortest
  split
  · next h => rw [h]; rfl
  · cases hf : (List.range 18).findSome? fun i : Nat => x.onGrid? tie (x.digitsBeforePoint - i) with
    | none => exact ofDecimal_exact x
    | some d =>
      obtain ⟨i, -, hi⟩ := List.exists_of_findSome?_eq_some hf
      exact ofDecimal_onGrid hi

end Magnitude
end DialogueScript
