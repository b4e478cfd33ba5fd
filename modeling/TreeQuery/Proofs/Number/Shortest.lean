import TreeQuery.Proofs.Number.NaN
import TreeQuery.Proofs.Number.Ratio

/-!
# The shortest decimal reads back

Rounding a decimal does not see trailing zeros (`round_mul_pow`) and keeps the sign apart
(`round_eq`). The decimal that a finite value is written as rounds to that value
(`round_shortest`): a decimal found on a grid has been tried, and the whole expansion is exact.
-/

namespace TreeQuery

open Binary64 (ofMagnitude infinite ofRatio)

variable {n k : Nat} {negative : Bool} {x : Binary64}

-- ---------------------------------------------------------------------------
-- Bits
-- ---------------------------------------------------------------------------

namespace Binary64

theorem ofMagnitude_magnitude (x : Binary64) : ofMagnitude x.isNegative x.magnitude = x := by
  rcases x with ⟨bits⟩
  have hbits := bits.toNat_lt
  unfold ofMagnitude isNegative magnitude
  split
  · next h =>
    simp only [decide_eq_true_eq] at h
    have hvalue : 0x8000000000000000 + bits.toNat % 0x8000000000000000 = bits.toNat := by omega
    simp only [hvalue, UInt64.ofNat_toNat]
  · next h =>
    simp only [decide_eq_true_eq, Nat.not_le] at h
    simp only [Nat.mod_eq_of_lt h, UInt64.ofNat_toNat]

structure Parts (x : Binary64) (m e : Nat) : Prop where
  lt : m < 2 ^ 53
  le : e ≠ 0 → 2 ^ 52 ≤ m
  value : e * 0x10000000000000 + m = x.magnitude

theorem parts_parts (x : Binary64) : Parts x x.parts.1 x.parts.2 := by
  have hdiv := Nat.div_add_mod x.magnitude 0x10000000000000
  have hmod := Nat.mod_lt x.magnitude (show 0 < 0x10000000000000 by decide)
  unfold parts
  dsimp only
  generalize x.magnitude / 0x10000000000000 = e at hdiv
  generalize x.magnitude % 0x10000000000000 = f at hdiv hmod
  split
  · next he =>
    subst he
    have hvalue : 0 * 0x10000000000000 + f = x.magnitude := by simpa using hdiv
    exact ⟨by omega, fun h => absurd rfl h, hvalue⟩
  · next he =>
    have hlow : 2 ^ 52 ≤ 0x10000000000000 + f := by omega
    have hvalue : (e - 1) * 0x10000000000000 + (0x10000000000000 + f) = x.magnitude := by omega
    exact ⟨by omega, fun _ => hlow, hvalue⟩

end Binary64

-- ---------------------------------------------------------------------------
-- Decimals
-- ---------------------------------------------------------------------------

namespace Decimal

theorem length_le_iff : length n ≤ k ↔ n < 10 ^ k := by
  unfold length
  split
  · next h => simp [h]
  · next h =>
    cases k with
    | zero =>
      have := List.length_pos_iff.2 (Nat.toDigits_ne_nil (b := 10) (n := n))
      simp only [Number.decimal, Nat.pow_zero]
      omega
    | succ k => exact Nat.length_toDigits_le_iff (by decide) (Nat.succ_pos k)

theorem length_mul_pow (h : n ≠ 0) (j : Nat) : length (n * 10 ^ j) = length n + j := by
  have hpos : ∀ i, 0 < 10 ^ i := fun i => Nat.pow_pos (by decide)
  apply Nat.le_antisymm
  · rw [length_le_iff, Nat.pow_add]
    exact Nat.mul_lt_mul_of_pos_right (length_le_iff.1 (Nat.le_refl _)) (hpos j)
  · have hlt : n * 10 ^ j < 10 ^ length (n * 10 ^ j) := length_le_iff.1 (Nat.le_refl _)
    have hj : j < length (n * 10 ^ j) := by
      refine (Nat.pow_lt_pow_iff_right (show 1 < 10 by decide)).1 (Nat.lt_of_le_of_lt ?_ hlt)
      exact Nat.le_mul_of_pos_left _ (Nat.pos_of_ne_zero h)
    obtain ⟨i, hi⟩ := Nat.exists_eq_add_of_le (Nat.le_of_lt hj)
    rw [hi, Nat.add_comm j i, Nat.pow_add] at hlt
    have hle := length_le_iff.2 (Nat.lt_of_mul_lt_mul_right hlt)
    omega

theorem round_eq_ofRatio (negative : Bool) {d : Decimal} (hzero : d.digits ≠ 0)
    (hlow : -330 ≤ d.exponent + length d.digits) (hhigh : d.exponent + length d.digits ≤ 310) :
    round negative d =
      ofRatio negative (d.digits * 10 ^ d.exponent.toNat) (10 ^ (-d.exponent).toNat) := by
  rcases d with ⟨n, e⟩
  have hlow : ¬ e + length n < -330 := Int.not_lt.2 hlow
  have hhigh : ¬ 310 < e + length n := Int.not_lt.2 hhigh
  have hguard : ¬ (decide (n = 0) || decide (e + length n < -330)) = true := by
    simp [hlow]
    exact hzero
  unfold round
  dsimp only
  rw [if_neg hguard, if_neg hhigh]
  cases e with
  | ofNat e =>
    have he : (-(e : Int)).toNat = 0 := by omega
    simp only [Int.ofNat_eq_natCast, Int.toNat_natCast, he, Nat.pow_zero]
    rfl
  | negSucc e =>
    have he : (-Int.negSucc e).toNat = e + 1 := by omega
    simp only [Int.toNat_negSucc, Nat.pow_zero, Nat.mul_one, he]
    rfl

theorem round_mul_pow (negative : Bool) (n j : Nat) (e : Int) :
    round negative ⟨n * 10 ^ j, e⟩ = round negative ⟨n, e + j⟩ := by
  by_cases hn : n = 0
  · simp [round, hn]
  have hpos : ∀ i, 0 < 10 ^ i := fun i => Nat.pow_pos (by decide)
  have hne : n * 10 ^ j ≠ 0 := Nat.mul_ne_zero hn (Nat.ne_of_gt (hpos j))
  have htop : e + (length (n * 10 ^ j) : Nat) = e + j + length n := by
    rw [length_mul_pow hn]
    omega
  by_cases hlow : -330 ≤ e + j + length n
  · by_cases hhigh : e + j + length n ≤ 310
    · rw [round_eq_ofRatio negative hne (htop ▸ hlow) (htop ▸ hhigh),
        round_eq_ofRatio negative hn hlow hhigh]
      refine Binary64.ofRatio_congr negative (hpos _) (hpos _) ?_
      have hexponents : j + e.toNat + (-(e + j)).toNat = (e + j).toNat + (-e).toNat := by omega
      rw [Nat.mul_assoc, Nat.mul_assoc, Nat.mul_assoc, ← Nat.pow_add, ← Nat.pow_add, ← Nat.pow_add,
        ← Nat.add_assoc, hexponents]
    · have hlow' : ¬ e + j + length n < -330 := Int.not_lt.2 hlow
      simp [round, hn, htop, hlow', Int.not_le.1 hhigh]
  · simp [round, htop, Int.not_le.1 hlow]

theorem round_eq (negative : Bool) (d : Decimal) :
    round negative d = ofMagnitude negative (round false d).magnitude := by
  have hkeep : ∀ n ≤ infinite, ofMagnitude negative n =
      ofMagnitude negative (ofMagnitude false n).magnitude := fun n hn => by
    rw [Binary64.magnitude_ofMagnitude false hn]
  unfold round
  dsimp only
  split
  · exact hkeep 0 (Nat.zero_le _)
  split
  · exact hkeep _ (Nat.le_refl _)
  split <;> exact hkeep _ (Nat.min_le_right _ _)

end Decimal

-- ---------------------------------------------------------------------------
-- The decimals of a value
-- ---------------------------------------------------------------------------

namespace Binary64

theorem Parts.exponent_le {m e : Nat} (h : Parts x m e) (hx : x.magnitude < infinite) :
    e ≤ 2045 := by
  have hvalue := h.value
  have hle := h.le
  unfold infinite at hx
  by_cases he : e = 0
  · omega
  · have := hle he
    omega

theorem Parts.ne_zero {m e : Nat} (h : Parts x m e) (hx : x.magnitude ≠ 0) : m ≠ 0 := by
  rintro rfl
  have hvalue := h.value
  by_cases he : e = 0
  · subst he
    exact hx (by simpa using hvalue.symm)
  · exact absurd (h.le he) (by decide)

/-- An expansion of a value, with a power of five for each power of two of its denominator, lies
between the bounds of rounding and rounds to the value. -/
theorem Parts.round_expansion {m e j k : Nat} (negative : Bool) (h : Parts x m e) (hj : e ≤ j)
    (hx : x.magnitude < infinite) (hzero : x.magnitude ≠ 0) (hk : k = 1074)
    (hlow : 10 ^ 743 ≤ 5 ^ k) (hhigh : 2 ^ 53 * 2 ^ j * 5 ^ k ≤ 10 ^ (k + 310)) :
    Decimal.round negative ⟨m * 2 ^ e * 5 ^ k, -(k : Int)⟩ = ofMagnitude negative x.magnitude := by
  have hm : 1 ≤ m * 2 ^ e :=
    Nat.mul_pos (Nat.pos_of_ne_zero (h.ne_zero hzero)) (Nat.two_pow_pos e)
  have hdigits : 10 ^ 743 ≤ m * 2 ^ e * 5 ^ k :=
    Nat.le_trans hlow (Nat.le_mul_of_pos_left _ hm)
  have hdigits' : m * 2 ^ e * 5 ^ k < 10 ^ (k + 310) := by
    refine Nat.lt_of_lt_of_le (Nat.mul_lt_mul_of_pos_right ?_ (Nat.pow_pos (by decide))) hhigh
    calc m * 2 ^ e ≤ m * 2 ^ j := Nat.mul_le_mul_left m (Nat.pow_le_pow_right (by decide) hj)
      _ < 2 ^ 53 * 2 ^ j := Nat.mul_lt_mul_of_pos_right h.lt (Nat.two_pow_pos _)
  have hlength : ¬ Decimal.length (m * 2 ^ e * 5 ^ k) ≤ 743 := by
    rw [Decimal.length_le_iff]
    exact Nat.not_lt.2 hdigits
  have hlength' : Decimal.length (m * 2 ^ e * 5 ^ k) ≤ k + 310 := Decimal.length_le_iff.2 hdigits'
  have hne : m * 2 ^ e * 5 ^ k ≠ 0 :=
    Nat.ne_of_gt (Nat.mul_pos hm (Nat.pow_pos (by decide)))
  generalize hn : m * 2 ^ e * 5 ^ k = n at *
  rw [Decimal.round_eq_ofRatio negative hne (by dsimp only; omega) (by dsimp only; omega)]
  dsimp only
  have hint : (-(k : Int)).toNat = 0 := by omega
  have hnat : (- -(k : Int)).toNat = k := by omega
  rw [hint, hnat, Nat.pow_zero, Nat.mul_one]
  have hvalue : n * Nat.pow 2 1074 = m * 2 ^ e * 10 ^ k := by
    rw [← hn, ← hk, Nat.mul_assoc]
    congr 1
    exact (Nat.mul_pow 5 2 k).symm
  rw [ofRatio_eq negative (Nat.pow_pos (by decide)) h.lt h.le hvalue, h.value,
    Nat.min_eq_left (Nat.le_of_lt hx)]

theorem exact_eq (x : Binary64) {k : Nat} (hk : k = 1074) :
    x.exact = ⟨x.parts.1 * Nat.pow 2 x.parts.2 * Nat.pow 5 k, -(k : Int)⟩ := by
  have hint : (-1074 : Int) = -(k : Int) := by omega
  unfold exact
  dsimp only
  rw [hint, ← hk]

theorem round_exact (negative : Bool) (hx : x.magnitude < infinite) (hzero : x.magnitude ≠ 0) :
    Decimal.round negative x.exact = ofMagnitude negative x.magnitude := by
  obtain ⟨k, hk, hlow, hhigh⟩ : ∃ k, k = 1074 ∧ 10 ^ 743 ≤ 5 ^ k ∧
      2 ^ 53 * 2 ^ 2045 * 5 ^ k ≤ 10 ^ (k + 310) := ⟨1074, by decide +kernel⟩
  have hparts := parts_parts x
  rw [exact_eq x hk]
  exact hparts.round_expansion negative (hparts.exponent_le hx) hx hzero hk hlow hhigh

theorem round_of_gridHit? {s : Int} {d : Decimal} (h : x.gridHit? s = some d) :
    (Decimal.round false d).magnitude = x.magnitude := by
  unfold gridHit? at h
  dsimp only at h
  split at h
  · next hreads =>
    cases h
    simpa using (Bool.and_eq_true_iff.1 hreads).1
  split at h
  · next hreads =>
    cases h
    simpa using hreads
  · cases h

theorem round_shortest (negative : Bool) (hx : x.magnitude < infinite) (hzero : x.magnitude ≠ 0) :
    Decimal.round negative x.shortest = ofMagnitude negative x.magnitude := by
  unfold shortest
  dsimp only
  cases hhit : (List.range 17).findSome? fun (n : Nat) => x.gridHit? (x.magnitude10 - n - 1) with
  | none => exact round_exact negative hx hzero
  | some d =>
    obtain ⟨n, -, hd⟩ := List.exists_of_findSome?_eq_some hhit
    rw [Option.getD_some, Decimal.round_eq, round_of_gridHit? hd]

theorem digits_shortest (hx : x.magnitude < infinite) (hzero : x.magnitude ≠ 0) :
    x.shortest.digits ≠ 0 := by
  intro h
  have hround := round_shortest false hx hzero
  have hmagnitude := congrArg magnitude hround
  rw [magnitude_ofMagnitude false (Nat.le_of_lt hx)] at hmagnitude
  refine hzero (hmagnitude.symm.trans ?_)
  simp only [Decimal.round, h]
  exact magnitude_ofMagnitude false (Nat.zero_le _)

end Binary64

end TreeQuery
