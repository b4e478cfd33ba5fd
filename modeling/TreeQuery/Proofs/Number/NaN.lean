import TreeQuery.Number.Decimal

/-!
# No decimal is NaN

Rounding stops at the infinities, so only the word for it reads as NaN, and that begins with no
digit.
-/

namespace TreeQuery.Binary64

variable {negative : Bool} {n : Nat} {x : Binary64}

theorem magnitude_ofMagnitude (negative : Bool) (h : n ≤ infinite) :
    (ofMagnitude negative n).magnitude = n := by
  have hn : n < 0x8000000000000000 := Nat.lt_of_le_of_lt h (by decide)
  cases negative <;> simp [ofMagnitude, magnitude] <;> omega

theorem isNaN_ofMagnitude (h : n ≤ infinite) : (ofMagnitude negative n).isNaN = false := by
  simp [isNaN, magnitude_ofMagnitude negative h, h]

theorem isNaN_round (negative : Bool) (d : Decimal) : (d.round negative).isNaN = false := by
  simp only [Decimal.round]
  split
  · exact isNaN_ofMagnitude (Nat.zero_le _)
  split
  · exact isNaN_ofMagnitude (Nat.le_refl _)
  split <;> exact isNaN_ofMagnitude (Nat.min_le_right _ _)

theorem toLower_of_isDigit {c : Char} (hc : c.isDigit = true) : c.toLower = c := by
  delta Char.toLower
  split
  · next h =>
    simp only [Char.isDigit, Bool.and_eq_true, decide_eq_true_eq] at hc
    have := UInt32.le_iff_toNat_le.1 h.1
    have := UInt32.le_iff_toNat_le.1 hc.2
    simp at *
    omega
  · rfl

theorem special?_digit {c : Char} (hc : c.isDigit = true) (cs : List Char) :
    special? negative (c :: cs) = none := by
  have hne : ∀ (d : Char) (ds : List Char), d.isDigit = false →
      ¬ String.ofList (Text.lower (c :: cs)) = String.ofList (d :: ds) := by
    intro d ds hd he
    simp only [Text.lower, List.map_cons, String.ofList_inj, List.cons.injEq] at he
    rw [toLower_of_isDigit hc] at he
    rw [he.1, hd] at hc
    cases hc
  have hinf : ¬ String.ofList (Text.lower (c :: cs)) = "inf" := hne 'i' ['n', 'f'] rfl
  have hinfinity : ¬ String.ofList (Text.lower (c :: cs)) = "infinity" :=
    hne 'i' ['n', 'f', 'i', 'n', 'i', 't', 'y'] rfl
  have hnan : ¬ String.ofList (Text.lower (c :: cs)) = "nan" := hne 'n' ['a', 'n'] rfl
  simp [special?, hinf, hinfinity, hnan]

variable {c : Char} {cs : List Char}

theorem isNaN_of_unsigned (hc : c.isDigit = true)
    (h : (special? negative (c :: cs) <|>
      (Decimal.ofText? (c :: cs)).map (Decimal.round negative)) = some x) : x.isNaN = false := by
  simp only [special?_digit hc, Option.orElse_eq_orElse, Option.orElse_eq_or, Option.none_or,
    Option.map_eq_some_iff] at h
  obtain ⟨d, -, rfl⟩ := h
  exact isNaN_round negative d

theorem isNaN_of_ofText? (hc : c.isDigit = true) (h : ofText? (c :: cs) = some x) :
    x.isNaN = false := by
  have hminus : c ≠ '-' := by rintro rfl; cases hc
  have hplus : c ≠ '+' := by rintro rfl; cases hc
  delta ofText? at h
  dsimp only at h
  split at h
  · next heq => exact absurd (List.cons.inj heq).1 hminus
  · next heq => exact absurd (List.cons.inj heq).1 hplus
  · exact isNaN_of_unsigned hc h

theorem isNaN_of_ofText?_minus (hc : c.isDigit = true) (h : ofText? ('-' :: c :: cs) = some x) :
    x.isNaN = false := by
  delta ofText? at h
  exact isNaN_of_unsigned hc h

end TreeQuery.Binary64
