import Mathlib.Algebra.Order.Ring.Nat
import TreeQuery.Number.Binary64

/-!
# Rounding a quotient

What a quotient is rounded to depends on its value only, not on its terms (`ofRatio_congr`). A
quotient that is a floating-point value is rounded to that value (`ofRatio_eq`).
-/

namespace TreeQuery.Binary64

variable {n n' d d' c e e' m : Nat}

/-- The exponent of a quotient: its significand is below `2 ^ 53`, and at least `2 ^ 52` unless the
exponent is the least one. -/
structure Scale (n d e : Nat) : Prop where
  le : e ≠ 0 → d * 2 ^ (52 + e) ≤ n
  lt : n < d * 2 ^ (53 + e)

theorem Scale.le_of_scale (h : Scale n d e) (h' : Scale n d e') : e' ≤ e := by
  by_contra hlt
  have hlow : d * 2 ^ (52 + e') ≤ n := h'.le (by omega)
  have hstep : d * 2 ^ (53 + e) ≤ d * 2 ^ (52 + e') :=
    Nat.mul_le_mul_left d (Nat.pow_le_pow_right (by decide) (by omega))
  exact absurd (Nat.lt_of_lt_of_le h.lt (Nat.le_trans hstep hlow)) (Nat.lt_irrefl n)

theorem Scale.unique (h : Scale n d e) (h' : Scale n d e') : e = e' :=
  Nat.le_antisymm (h'.le_of_scale h) (h.le_of_scale h')

theorem Scale.mul (hc : 0 < c) (h : Scale n d e) : Scale (c * n) (c * d) e := by
  refine ⟨fun he => ?_, ?_⟩
  · rw [Nat.mul_assoc]
    exact Nat.mul_le_mul_left c (h.le he)
  · rw [Nat.mul_assoc]
    exact Nat.mul_lt_mul_of_pos_left h.lt hc

theorem scale_scaleOf (hd : 0 < d) : Scale n d (scaleOf n d) := by
  have hd_low : 2 ^ d.log2 ≤ d := Nat.log2_self_le (Nat.ne_of_gt hd)
  have hd_high : d < 2 ^ (d.log2 + 1) := Nat.lt_log2_self
  have hn_high : n < 2 ^ (n.log2 + 1) := Nat.lt_log2_self
  have hpow : ∀ {i j : Nat}, i ≤ j → 2 ^ i ≤ 2 ^ j := fun h => Nat.pow_le_pow_right (by decide) h
  -- the binary logarithms determine the exponent up to one
  have hbound : ∀ {k}, n.log2 + 1 ≤ d.log2 + k → n < d * 2 ^ k := fun {k} h =>
    calc n < 2 ^ (n.log2 + 1) := hn_high
      _ ≤ 2 ^ (d.log2 + k) := hpow h
      _ = 2 ^ d.log2 * 2 ^ k := Nat.pow_add ..
      _ ≤ d * 2 ^ k := Nat.mul_le_mul_right _ hd_low
  unfold scaleOf
  dsimp only
  split
  · next hle => exact ⟨fun _ => hle, hbound (by omega)⟩
  · next hlt =>
    have hlt : n < d * 2 ^ (52 + (n.log2 - d.log2 - 52)) := Nat.lt_of_not_le hlt
    refine ⟨fun hne => ?_, ?_⟩
    · have hn : n ≠ 0 := by
        rintro rfl
        exact hne (by simp [Nat.log2_zero])
      calc d * 2 ^ (52 + (n.log2 - d.log2 - 52 - 1))
          ≤ 2 ^ (d.log2 + 1) * 2 ^ (52 + (n.log2 - d.log2 - 52 - 1)) :=
            Nat.mul_le_mul_right _ (Nat.le_of_lt hd_high)
        _ = 2 ^ (d.log2 + 1 + (52 + (n.log2 - d.log2 - 52 - 1))) := (Nat.pow_add ..).symm
        _ ≤ 2 ^ n.log2 := hpow (by omega)
        _ ≤ n := Nat.log2_self_le hn
    · exact Nat.lt_of_lt_of_le hlt (Nat.mul_le_mul_left d (hpow (by omega)))

theorem roundDiv_mul (hc : 0 < c) (n d : Nat) : roundDiv (c * n) (c * d) = roundDiv n d := by
  have hlt : c * d < 2 * (c * (n % d)) ↔ d < 2 * (n % d) := by
    rw [Nat.mul_left_comm 2 c, Nat.mul_lt_mul_left hc]
  have heq : 2 * (c * (n % d)) = c * d ↔ 2 * (n % d) = d := by
    rw [Nat.mul_left_comm 2 c, Nat.mul_right_inj (Nat.ne_of_gt hc)]
  simp only [roundDiv, Nat.mul_div_mul_left n d hc, Nat.mul_mod_mul_left, hlt,
    Bool.beq_eq_decide_eq, heq]

theorem roundDiv_mul_self (hd : 0 < d) (m : Nat) : roundDiv (m * d) d = m := by
  have hd0 : d ≠ 0 := Nat.ne_of_gt hd
  simp [roundDiv, Nat.mul_div_cancel m hd, hd0.symm]

theorem ofRatio_mul (negative : Bool) (hc : 0 < c) (hd : 0 < d) (n : Nat) :
    ofRatio negative (c * n) (c * d) = ofRatio negative n d := by
  have hscale : scaleOf (c * n * Nat.pow 2 1074) (c * d) = scaleOf (n * Nat.pow 2 1074) d := by
    rw [Nat.mul_assoc]
    exact (scale_scaleOf (Nat.mul_pos hc hd)).unique ((scale_scaleOf hd).mul hc)
  simp only [ofRatio, hscale]
  rw [Nat.mul_assoc c, Nat.mul_assoc c, roundDiv_mul hc]

theorem ofRatio_congr (negative : Bool) (hd : 0 < d) (hd' : 0 < d') (h : n * d' = n' * d) :
    ofRatio negative n d = ofRatio negative n' d' := by
  rw [← ofRatio_mul negative hd' hd n, ← ofRatio_mul negative hd hd' n', Nat.mul_comm d' n, h,
    Nat.mul_comm n' d, Nat.mul_comm d' d]

theorem ofRatio_eq (negative : Bool) (hd : 0 < d) (hm : m < 2 ^ 53) (he : e ≠ 0 → 2 ^ 52 ≤ m)
    (h : n * Nat.pow 2 1074 = m * 2 ^ e * d) :
    ofRatio negative n d = ofMagnitude negative (min (e * 0x10000000000000 + m) infinite) := by
  have hscale : Scale (n * Nat.pow 2 1074) d e := by
    rw [h, Nat.mul_comm]
    refine ⟨fun hne => Nat.mul_le_mul_left d ?_, Nat.mul_lt_mul_of_pos_left ?_ hd⟩
    · rw [Nat.pow_add]
      exact Nat.mul_le_mul_right _ (he hne)
    · rw [Nat.pow_add]
      exact Nat.mul_lt_mul_of_pos_right hm (Nat.two_pow_pos e)
  have hround : roundDiv (n * Nat.pow 2 1074) (d * Nat.pow 2 e) = m := by
    have hpos : 0 < d * 2 ^ e := Nat.mul_pos hd (Nat.two_pow_pos e)
    rw [h, Nat.mul_assoc, Nat.mul_comm _ d]
    exact roundDiv_mul_self hpos m
  simp only [ofRatio, (scale_scaleOf hd).unique hscale, hround]

end TreeQuery.Binary64
