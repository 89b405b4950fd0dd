import DialogueScript.Decimal.Numeral
import DialogueScript.Proofs.Text.Name
/-!
# Numerals are read back

The digits of a decimal determine it once they are cut at the point: those behind the point are padded to as
many as the exponent says. A decimal with a positive exponent is written as a whole number, which is another
decimal of the same value and therefore read as the same magnitude.

Results:
* `decimal?_positional`: the digits of a decimal are read back as a decimal of the same value.
* `read?_text`: the numeral of a finite number is read back.
* `isNumeralChar_of_mem_text`: numerals have digits, a minus and a point only.
* `read?_eq_none`: a text with a character that no numeral has is not read as a number.
-/
namespace DialogueScript

namespace Decimal

/-- The decimal that is read from the digits of a decimal: a positive exponent is multiplied out. -/
def multipliedOut (d : Decimal) : Decimal :=
  match d.exponent with
  | .ofNat n => ⟨d.coefficient * 10 ^ n, 0⟩
  | .negSucc _ => d

theorem digits_ne_nil (n : Nat) : digits n ≠ [] := Nat.toDigits_ne_nil

theorem length_digits_le {n k : Nat} (hk : 0 < k) : (digits n).length ≤ k ↔ n < 10 ^ k :=
  Nat.length_toDigits_le_iff (by decide) hk

theorem length_paddedDigits {k n : Nat} (hk : 0 < k) (h : n < 10 ^ k) : (paddedDigits k n).length = k := by
  have := (length_digits_le hk).2 h
  rw [paddedDigits, List.length_append, List.length_replicate]
  omega

theorem ofDigits_append (s t : Text) : ofDigits (s ++ t) = ofDigits s * 10 ^ t.length + ofDigits t := by
  rw [ofDigits, Nat.ofDigitChars_append, Nat.ofDigitChars_eq_ofDigitChars_zero, Nat.mul_comm]; rfl

theorem isDigit_of_mem_wholeDigits {d : Decimal} {c : Char} (h : c ∈ d.wholeDigits) : c.isDigit := by
  unfold wholeDigits at h
  split at h <;> exact isDigit_of_mem_digits h

theorem wholeDigits_ne_nil (d : Decimal) : d.wholeDigits ≠ [] := by
  unfold wholeDigits
  split <;> exact digits_ne_nil _

theorem isDigit_of_mem_fractionDigits {d : Decimal} {c : Char} (h : c ∈ d.fractionDigits) : c.isDigit := by
  unfold fractionDigits at h
  split at h
  · cases h
  · exact isDigit_of_mem_paddedDigits h

/-- The two halves of the digits, put together, are the decimal. -/
theorem ofParts_digits (d : Decimal) : ofParts d.wholeDigits d.fractionDigits 0 = d.multipliedOut := by
  obtain ⟨c, e⟩ := d
  unfold ofParts wholeDigits fractionDigits multipliedOut
  cases e with
  | ofNat n => simp [ofDigits_digits]
  | negSucc n =>
    have hlt : c % 10 ^ (n + 1) < 10 ^ (n + 1) := Nat.mod_lt _ (Nat.pow_pos (by decide))
    have hlen := length_paddedDigits (Nat.succ_pos n) hlt
    have hc : c / 10 ^ (n + 1) * 10 ^ (n + 1) + c % 10 ^ (n + 1) = c := by
      rw [Nat.mul_comm]; exact Nat.div_add_mod c _
    simp only [ofDigits_append, hlen, ofDigits_digits, ofDigits_paddedDigits, hc]
    congr 1

theorem span_digits {s t : Text} (hs : ∀ c ∈ s, c.isDigit) (hr : ∀ c ∈ t.head?, c.isDigit = false) :
    (s ++ t).takeWhile Char.isDigit = s ∧ (s ++ t).dropWhile Char.isDigit = t := by
  rw [List.takeWhile_append_of_pos hs, List.dropWhile_append_of_pos hs]
  cases t with
  | nil => simp
  | cons d r => simp [hr d (by simp)]

theorem decimal?_positional (d : Decimal) : Binary64.decimal? d.positional = some d.multipliedOut := by
  have hw := fun c => @isDigit_of_mem_wholeDigits d c
  have hf := fun c => @isDigit_of_mem_fractionDigits d c
  have hne : d.wholeDigits.isEmpty = false := by simpa using wholeDigits_ne_nil d
  rw [← ofParts_digits]
  unfold positional Binary64.decimal?
  split
  · next h =>
    obtain ⟨ht, hd⟩ := span_digits (t := []) hw (by simp)
    rw [List.append_nil] at ht hd
    simp [ht, hd, hne, h]
  · next c r h =>
    obtain ⟨ht, hd⟩ := span_digits (t := '.' :: c :: r) hw (by simp)
    rw [h] at hf
    obtain ⟨ht', hd'⟩ := span_digits (t := []) hf (by simp)
    rw [List.append_nil] at ht' hd'
    simp only [ht, hd, ht', hd', hne, Bool.false_and, Bool.false_eq_true, if_false, h]

theorem head_positional (d : Decimal) : ∃ c r, d.positional = c :: r ∧ c.isDigit := by
  obtain ⟨c, r, h⟩ := List.exists_cons_of_ne_nil (wholeDigits_ne_nil d)
  have hc : c.isDigit := isDigit_of_mem_wholeDigits (d := d) (by simp [h])
  unfold positional
  split
  · exact ⟨c, r, h, hc⟩
  · exact ⟨c, _, by rw [h]; rfl, hc⟩

theorem mem_positional {d : Decimal} {c : Char} (h : c ∈ d.positional) : c.isDigit ∨ c = '.' := by
  unfold positional at h
  split at h
  · exact .inl (isDigit_of_mem_wholeDigits h)
  · next e r hf =>
    rcases List.mem_append.1 h with h | h
    · exact .inl (isDigit_of_mem_wholeDigits h)
    · rcases List.mem_cons.1 h with h | h
      · exact .inr h
      · rw [← hf] at h; exact .inl (isDigit_of_mem_fractionDigits h)

end Decimal

/-- Multiplying out does not change the value, and a decimal that is a magnitude is not too large for it. -/
theorem Magnitude.ofDecimal_multipliedOut {d : Decimal} {m : Magnitude} (h : ofDecimal d = some m) :
    ofDecimal d.multipliedOut = some m := by
  obtain ⟨c, e⟩ := d
  -- only a decimal without a negative exponent is changed
  cases e with
  | negSucc n => exact h
  | ofNat n =>
    have hp : 10 ^ n ≠ 0 := Nat.ne_of_gt (Nat.pow_pos (by decide))
    simp only [Decimal.multipliedOut]
    unfold ofDecimal at h ⊢
    simp only at h ⊢
    split at h
    · next hc => simpa [hc] using h
    · next hc =>
      rw [if_neg (Nat.mul_ne_zero hc hp), if_neg (by decide), if_neg (by omega)]
      split at h
      · cases h
      · rw [if_neg (by have : (0 : Int) ≤ Int.ofNat n := Int.natCast_nonneg n; omega)] at h
        simpa [numerator, denominator] using h

namespace Binary64

/-- The characters of the numerals of finite numbers. -/
def isNumeralChar (c : Char) : Bool := c.isDigit || c == '-' || c == '.'

theorem isIdChar_of_isNumeralChar {c : Char} (h : isNumeralChar c) : Text.isIdChar c := by
  simp only [isNumeralChar, Bool.or_eq_true, beq_iff_eq] at h
  simp only [Text.isIdChar, Text.isFlagChar, Text.isWordChar, Char.isAlphanum, Bool.or_eq_true, beq_iff_eq]
  rcases h with (h | h) | h
  · exact .inl (.inl (.inl (.inr h)))
  · exact .inr h
  · exact .inl (.inr h)

theorem isNumeralChar_of_mem_text {x : Binary64} (h : x.isFinite) : ∀ c ∈ x.text, isNumeralChar c := by
  cases x with
  | finite negative m =>
    intro c hc
    rw [text, List.mem_append] at hc
    rcases hc with hc | hc
    · split at hc
      · rw [List.mem_singleton.1 hc]; rfl
      · cases hc
    · rcases Decimal.mem_positional hc with hd | rfl
      · simp [isNumeralChar, hd]
      · rfl
  | infinite => cases h
  | nan => cases h

theorem text_ne_nil {x : Binary64} (h : x.isFinite) : x.text ≠ [] := by
  cases x with
  | finite negative m =>
    obtain ⟨c, r, hp, -⟩ := Decimal.head_positional (m.shortest .up)
    simp [text, hp]
  | infinite => cases h
  | nan => cases h

theorem toLower_of_isDigit {c : Char} (h : c.isDigit) : c.toLower = c := by
  have hdigit := Text.val_of_isDigit h
  have hletter : 'A'.val.toNat = 65 := rfl
  unfold Char.toLower
  rw [dif_neg]
  rw [ge_iff_le, UInt32.le_iff_toNat_le, UInt32.le_iff_toNat_le]
  omega

/-- The digits of a decimal are no name of an infinite number or of none. -/
theorem lower_positional_ne (d : Decimal) {name : Text} (h : name.head?.all (!·.isDigit)) (hne : name ≠ []) :
    Text.lower d.positional ≠ name := by
  obtain ⟨c, r, hp, hc⟩ := d.head_positional
  rw [hp, Text.lower, List.map_cons, toLower_of_isDigit hc]
  rintro rfl
  simp [hc] at h

theorem signed_text (negative : Bool) (d : Decimal) :
    signed ((if negative then ['-'] else []) ++ d.positional) = (negative, d.positional) := by
  cases negative with
  | true => rfl
  | false =>
    obtain ⟨c, r, hp, hc⟩ := d.head_positional
    rw [hp]
    have h1 : c ≠ '-' := by rintro rfl; cases hc
    have h2 : c ≠ '+' := by rintro rfl; cases hc
    simp [signed, h1, h2]

theorem read?_text {x : Binary64} (h : x.isFinite) : read? x.text = some x := by
  cases x with
  | finite negative m =>
    have hm := Magnitude.ofDecimal_multipliedOut (Magnitude.ofDecimal_shortest m .up)
    unfold read? text
    rw [signed_text]
    simp only [Decimal.decimal?_positional, Option.map_some, ofDecimal, hm]
    rw [if_neg, if_neg]
    · exact lower_positional_ne _ (by decide) (by decide)
    · rintro (h | h)
      · exact lower_positional_ne _ (by decide) (by decide) h
      · exact lower_positional_ne _ (by decide) (by decide) h
  | infinite => cases h
  | nan => cases h

/-! ## What is no numeral -/

/-- The character is in no numeral and in no name of a number. -/
structure IsForeign (c : Char) : Prop where
  digit : c.isDigit = false
  mark : c ∉ ['+', '-', '.', 'e', 'E']
  letter : c.toLower ∉ "infinityna".toList

theorem IsForeign.ne_mark {c : Char} (hc : IsForeign c) : c ≠ '+' ∧ c ≠ '-' ∧ c ≠ '.' ∧ c ≠ 'e' ∧ c ≠ 'E' := by
  simpa using hc.mark

theorem mem_signed {s : Text} {c : Char} (hc : IsForeign c) (hm : c ∈ s) : c ∈ (signed s).2 := by
  have hmark := hc.ne_mark
  unfold signed
  split
  · simpa [hmark] using hm
  · simpa [hmark] using hm
  · exact hm

theorem mem_dropWhile_isDigit {s : Text} {c : Char} (hc : IsForeign c) (hm : c ∈ s) : c ∈ s.dropWhile Char.isDigit := by
  rw [← List.takeWhile_append_dropWhile (p := Char.isDigit) (l := s)] at hm
  rcases List.mem_append.1 hm with hm | hm
  · have hd := List.all_eq_true.1 List.all_takeWhile c hm
    rw [hc.digit] at hd
    cases hd
  · exact hm

theorem exponent?_eq_none {s : Text} {c : Char} (hc : IsForeign c) (hm : c ∈ s) : exponent? s = none := by
  have hall : (signed s).2.all Char.isDigit = false := by
    rw [List.all_eq_false]
    exact ⟨c, mem_signed hc hm, by simp [hc.digit]⟩
  simp [exponent?, hall]

/-- What is behind the digits is no exponent. -/
theorem exists_cons_of_mem {rest : Text} {c : Char} (hc : IsForeign c) (hm : c ∈ rest) :
    ∃ e r, rest = e :: r ∧ (e = 'e' ∨ e = 'E' → exponent? r = none) := by
  have hmark := hc.ne_mark
  cases rest with
  | nil => cases hm
  | cons e r =>
    refine ⟨e, r, rfl, fun he => ?_⟩
    rcases List.mem_cons.1 hm with rfl | hm
    · simp [hmark] at he
    · exact exponent?_eq_none hc hm

theorem decimal?_eq_none {s : Text} {c : Char} (hc : IsForeign c) (hm : c ∈ s) : decimal? s = none := by
  have hmark := hc.ne_mark
  have hdrop := mem_dropWhile_isDigit hc hm
  unfold decimal?
  dsimp only
  split
  · next r hs =>
    rw [hs] at hdrop
    obtain ⟨e, t, hrest, he⟩ := exists_cons_of_mem hc (mem_dropWhile_isDigit hc (by simpa [hmark] using hdrop))
    simp +contextual [hrest, he]
  · obtain ⟨e, t, hrest, he⟩ := exists_cons_of_mem hc hdrop
    simp +contextual [hrest, he]

/-- A text with a foreign character is no numeral. -/
theorem read?_eq_none {s : Text} {c : Char} (hc : IsForeign c) (hm : c ∈ s) : read? s = none := by
  have hname : ∀ name : Text, (∀ d ∈ name, d ∈ "infinityna".toList) → Text.lower (signed s).2 ≠ name := by
    intro name hn he
    have hlow : c.toLower ∈ Text.lower (signed s).2 := List.mem_map_of_mem (mem_signed hc hm)
    exact hc.letter (hn _ (he ▸ hlow))
  unfold read?
  dsimp only
  rw [if_neg (not_or.2 ⟨hname _ (by simp), hname _ (by simp)⟩), if_neg (hname _ (by simp)),
    decimal?_eq_none hc (mem_signed hc hm)]
  rfl

end Binary64
end DialogueScript
