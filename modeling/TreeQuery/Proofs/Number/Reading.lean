import TreeQuery.Proofs.Number.Integer
import TreeQuery.Proofs.Number.Shortest
import TreeQuery.Proofs.Text.Class

/-!
# Floats are read as they are written

`Written` lists the texts that a magnitude is written as, with the decimal that each denotes; they
are read as that decimal (`Written.read`). So every finite value reads back from its text
(`ofText?_text`), and a text without an exponent has digits on both sides of its point
(`exists_point`).
-/

namespace TreeQuery

open Text (Ends)
open Number (ofDigits)
open Binary64 (ofMagnitude infinite)

structure Digits (ds : List Char) : Prop where
  ne_nil : ds ≠ []
  isDigit : ∀ c ∈ ds, c.isDigit = true

inductive Written : List Char → Decimal → Prop
  | point {ds fs} : Digits ds → Digits fs →
      Written (ds ++ '.' :: fs) ⟨ofDigits (ds ++ fs), 0 - fs.length⟩
  | whole {ds} (z : Int) : Digits ds →
      Written (ds ++ 'e' :: Number.decimalInt z) ⟨ofDigits (ds ++ []), z - ([] : List Char).length⟩
  | scientific {ds fs} (z : Int) : Digits ds → Digits fs →
      Written (ds ++ '.' :: (fs ++ 'e' :: Number.decimalInt z)) ⟨ofDigits (ds ++ fs), z - fs.length⟩

variable {n : Nat} {z point : Int} {c : Char} {cs ds fs text kept : List Char} {negative : Bool}
  {x : Binary64} {d : Decimal}

-- ---------------------------------------------------------------------------
-- Digits
-- ---------------------------------------------------------------------------

namespace Number

theorem ofDigits_append (cs ds : List Char) :
    ofDigits (cs ++ ds) = ofDigits cs * 10 ^ ds.length + ofDigits ds := by
  simp only [ofDigits_eq, Nat.ofDigitChars_append]
  rw [Nat.ofDigitChars_eq_ofDigitChars_zero, Nat.mul_comm]

theorem ofDigits_zeros (n : Nat) : ofDigits (Binary64.zeros n) = 0 := by
  rw [ofDigits_eq, Binary64.zeros, Nat.ofDigitChars_replicate_zero, Nat.mul_zero]

theorem ofDigits_zeros_append (n : Nat) (cs : List Char) :
    ofDigits (Binary64.zeros n ++ cs) = ofDigits cs := by
  rw [ofDigits_append, ofDigits_zeros, Nat.zero_mul, Nat.zero_add]

theorem ofDigits_append_zeros (n : Nat) (cs : List Char) :
    ofDigits (cs ++ Binary64.zeros n) = ofDigits cs * 10 ^ n := by
  rw [ofDigits_append, ofDigits_zeros, Nat.add_zero, Binary64.zeros, List.length_replicate]

theorem isDigit_of_mem_zeros (h : c ∈ Binary64.zeros n) : c.isDigit = true := by
  rw [List.eq_of_mem_replicate h]
  rfl

end Number

-- ---------------------------------------------------------------------------
-- Written decimals
-- ---------------------------------------------------------------------------

theorem exponent?_decimalInt (z : Int) : Decimal.exponent? (Number.decimalInt z) = some z := by
  unfold Number.decimalInt
  split
  · next hneg =>
    have hvalue : -(z.natAbs : Int) = z := by omega
    simp only [Decimal.exponent?, Number.digits?_decimal]
    exact congrArg some hvalue
  · next hpos =>
    have hvalue : (z.natAbs : Int) = z := by omega
    obtain ⟨c, cs, hcs, hc⟩ := Number.exists_decimal z.natAbs
    have hminus : c ≠ '-' := Text.ne_of_class hc rfl
    have hplus : c ≠ '+' := Text.ne_of_class hc rfl
    have hread := Number.digits?_decimal z.natAbs
    rw [hcs] at hread ⊢
    unfold Decimal.exponent?
    split
    · next h => exact absurd (List.cons.inj h).1 hminus
    · next h => exact absurd (List.cons.inj h).1 hplus
    · simp only [hread]
      exact congrArg some hvalue

theorem Written.read (h : Written text d) : Decimal.ofText? text = some d := by
  cases h with
  | @point ds fs hds hfs =>
    have hpoint : Ends Char.isDigit ('.' :: fs) := .cons rfl
    have hnil : Ends Char.isDigit [] := .nil
    have htake := hnil.takeWhile hfs.isDigit
    have hdrop := hnil.dropWhile hfs.isDigit
    have hne : (ds ++ fs).isEmpty = false := by simp [hds.ne_nil]
    rw [List.append_nil] at htake hdrop
    simp only [Decimal.ofText?, hpoint.takeWhile hds.isDigit, hpoint.dropWhile hds.isDigit, htake,
      hdrop, hne]
    rfl
  | @whole ds z hds =>
    have hexponent : Ends Char.isDigit ('e' :: Number.decimalInt z) := .cons rfl
    have hne : (ds ++ []).isEmpty = false := by simp [hds.ne_nil]
    simp only [Decimal.ofText?, hexponent.takeWhile hds.isDigit, hexponent.dropWhile hds.isDigit,
      hne, exponent?_decimalInt, List.cons.injEq, Char.reduceEq, false_and, imp_self, implies_true]
    rfl
  | @scientific ds fs z hds hfs =>
    have hpoint : Ends Char.isDigit ('.' :: (fs ++ 'e' :: Number.decimalInt z)) := .cons rfl
    have hexponent : Ends Char.isDigit ('e' :: Number.decimalInt z) := .cons rfl
    have hne : (ds ++ fs).isEmpty = false := by simp [hds.ne_nil]
    simp only [Decimal.ofText?, hpoint.takeWhile hds.isDigit, hpoint.dropWhile hds.isDigit,
      hexponent.takeWhile hfs.isDigit, hexponent.dropWhile hfs.isDigit, hne, exponent?_decimalInt]
    rfl

theorem Written.exists_digit (h : Written text d) :
    ∃ c cs, text = c :: cs ∧ c.isDigit = true := by
  have hhead : ∀ {ds cs : List Char}, Digits ds → ∃ c cs', ds ++ cs = c :: cs' ∧ c.isDigit = true :=
    fun {ds cs} hds => by
      obtain ⟨c, ds, rfl⟩ := List.exists_cons_of_ne_nil hds.ne_nil
      exact ⟨c, ds ++ cs, rfl, hds.isDigit c List.mem_cons_self⟩
  cases h with
  | point hds _ => exact hhead hds
  | whole z hds => exact hhead hds
  | scientific z hds _ => exact hhead hds

def signed (negative : Bool) (cs : List Char) : List Char := if negative then '-' :: cs else cs

theorem Written.ofText?_signed (h : Written text d) (negative : Bool) :
    Binary64.ofText? (signed negative text) = some (Decimal.round negative d) := by
  have hread := h.read
  obtain ⟨c, cs, rfl, hc⟩ := h.exists_digit
  have hminus : c ≠ '-' := Text.ne_of_class hc rfl
  have hplus : c ≠ '+' := Text.ne_of_class hc rfl
  cases negative with
  | true =>
    delta Binary64.ofText? signed
    simp only [if_true, Binary64.special?_digit hc, hread]
    rfl
  | false =>
    delta Binary64.ofText? signed
    simp only [Bool.false_eq_true, if_false]
    split
    · next h => exact absurd (List.cons.inj h).1 hminus
    · next h => exact absurd (List.cons.inj h).1 hplus
    · simp only [Binary64.special?_digit hc, hread]
      rfl

-- ---------------------------------------------------------------------------
-- The text of a value
-- ---------------------------------------------------------------------------

theorem Digits.append (hds : Digits ds) (hcs : ∀ c ∈ cs, c.isDigit = true) : Digits (ds ++ cs) :=
  ⟨by simp [hds.ne_nil], fun c hc => (List.mem_append.1 hc).elim (hds.isDigit c) (hcs c)⟩

theorem digits_zero : Digits ['0'] := ⟨List.cons_ne_nil _ _, by simp⟩

theorem exists_layout (hd : d.digits ≠ 0) : ∃ kept j,
    Binary64.layout d = (kept, d.exponent + (kept.length + j : Nat)) ∧ Digits kept ∧
      d.digits = ofDigits kept * 10 ^ j := by
  obtain ⟨j, hj⟩ : ∃ j, (Number.decimal d.digits).reverse.takeWhile (· == '0') =
      Binary64.zeros j := by
    refine ⟨_, List.eq_replicate_of_mem fun c hc => ?_⟩
    simpa using List.all_eq_true.1 List.all_takeWhile c hc
  have hsplit : Number.decimal d.digits =
      ((Number.decimal d.digits).reverse.dropWhile (· == '0')).reverse ++ Binary64.zeros j := by
    have hreverse : (Binary64.zeros j).reverse = Binary64.zeros j := List.reverse_replicate
    rw [← hreverse, ← hj, ← List.reverse_append, List.takeWhile_append_dropWhile,
      List.reverse_reverse]
  have hvalue := Number.ofDigits_decimal d.digits
  have hlength := congrArg List.length hsplit
  have hmem : ∀ c ∈ ((Number.decimal d.digits).reverse.dropWhile (· == '0')).reverse,
      c.isDigit = true := fun c hc => Number.isDigit_of_mem_decimal
    (List.mem_reverse.1 ((List.dropWhile_sublist _).subset (List.mem_reverse.1 hc)))
  unfold Binary64.layout
  dsimp only
  generalize ((Number.decimal d.digits).reverse.dropWhile (· == '0')).reverse = kept at *
  rw [hsplit, Number.ofDigits_append_zeros] at hvalue
  refine ⟨kept, j, ?_, ⟨?_, hmem⟩, hvalue.symm⟩
  · rw [hlength, List.length_append, Binary64.zeros, List.length_replicate]
  · rintro rfl
    exact hd (by rw [← hvalue]; simp [ofDigits])

theorem round_layout (hx : x.magnitude < infinite) (hzero : x.magnitude ≠ 0) :
    ∃ kept point, Binary64.layout x.shortest = (kept, point) ∧ Digits kept ∧
      ∀ negative, Decimal.round negative ⟨ofDigits kept, point - kept.length⟩ =
        ofMagnitude negative x.magnitude := by
  obtain ⟨kept, j, hlayout, hkept, hvalue⟩ := exists_layout (Binary64.digits_shortest hx hzero)
  refine ⟨kept, _, hlayout, hkept, fun negative => ?_⟩
  have hexponent : x.shortest.exponent + (kept.length + j : Nat) - kept.length =
      x.shortest.exponent + j := by omega
  rw [hexponent, ← Decimal.round_mul_pow, ← hvalue]
  exact Binary64.round_shortest negative hx hzero

/-- A text that is rounded as the digits with the point at its place. -/
def Writes (kept : List Char) (point : Int) (text : List Char) : Prop :=
  ∃ d, Written text d ∧ ∀ negative, Decimal.round negative d =
    Decimal.round negative ⟨ofDigits kept, point - kept.length⟩

theorem Written.writes {e : Int} (h : Written text ⟨n, e⟩) (hn : n = ofDigits kept)
    (he : e = point - kept.length) : Writes kept point text := by
  subst hn he
  exact ⟨_, h, fun _ => rfl⟩

theorem writes_digit (h : Digits [c]) :
    Writes [c] point ([c] ++ 'e' :: Number.decimalInt (point - 1)) :=
  Written.writes (.whole (point - 1) h) (by rw [List.append_nil]) (by simp)

theorem writes_digits {f : Char} (h : Digits (c :: f :: fs)) : Writes (c :: f :: fs) point
    (c :: '.' :: f :: fs ++ 'e' :: Number.decimalInt (point - 1)) := by
  have hc : Digits [c] := ⟨List.cons_ne_nil c [], fun d hd => h.isDigit d (by simp_all)⟩
  have hfs : Digits (f :: fs) :=
    ⟨List.cons_ne_nil f fs, fun d hd => h.isDigit d (List.mem_cons_of_mem c hd)⟩
  refine Written.writes (.scientific (point - 1) hc hfs) rfl ?_
  simp only [List.length_cons]
  omega

theorem writes_below (h : Digits kept) (hpoint : point ≤ 0) :
    Writes kept point ('0' :: '.' :: Binary64.zeros (-point).toNat ++ kept) := by
  have hfs : Digits (Binary64.zeros (-point).toNat ++ kept) :=
    ⟨by simp [h.ne_nil], fun c hc => (List.mem_append.1 hc).elim Number.isDigit_of_mem_zeros
      (h.isDigit c)⟩
  refine (Written.point digits_zero hfs).writes ?_ ?_
  · rw [show ['0'] = Binary64.zeros 1 from rfl, Number.ofDigits_zeros_append,
      Number.ofDigits_zeros_append]
  · rw [List.length_append, Binary64.zeros, List.length_replicate]
    omega

theorem writes_within (h : Digits kept) (hpoint : 0 < point) (hlength : point.toNat < kept.length) :
    Writes kept point (kept.take point.toNat ++ '.' :: kept.drop point.toNat) := by
  have hds : Digits (kept.take point.toNat) :=
    ⟨by simp [h.ne_nil]; omega, fun c hc => h.isDigit c (List.mem_of_mem_take hc)⟩
  have hfs : Digits (kept.drop point.toNat) :=
    ⟨by simp; omega, fun c hc => h.isDigit c (List.mem_of_mem_drop hc)⟩
  refine (Written.point hds hfs).writes (by rw [List.take_append_drop]) ?_
  rw [List.length_drop]
  omega

theorem writes_above (h : Digits kept) (hlength : kept.length ≤ point.toNat) : Writes kept point
    (kept ++ Binary64.zeros (point.toNat - kept.length) ++ ['.', '0']) := by
  have hpos := List.length_pos_iff.2 h.ne_nil
  have hds : Digits (kept ++ Binary64.zeros (point.toNat - kept.length)) :=
    h.append fun c hc => Number.isDigit_of_mem_zeros hc
  have hvalue : ofDigits (kept ++ Binary64.zeros (point.toNat - kept.length) ++ ['0']) =
      ofDigits kept * 10 ^ (point.toNat - kept.length + 1) := by
    rw [List.append_assoc, ← Number.ofDigits_append_zeros, Binary64.zeros, Binary64.zeros,
      List.replicate_succ']
  have hexponent : 0 - ((['0'] : List Char).length : Int) +
      (point.toNat - kept.length + 1 : Nat) = point - kept.length := by
    simp only [List.length_singleton]
    omega
  refine ⟨_, .point hds digits_zero, fun negative => ?_⟩
  rw [hvalue, Decimal.round_mul_pow, hexponent]

theorem writes_magnitudeText (hlayout : Binary64.layout x.shortest = (kept, point))
    (h : Digits kept) : Writes kept point x.magnitudeText := by
  unfold Binary64.magnitudeText
  rw [hlayout]
  dsimp only
  split
  · split
    · exact writes_digits h
    · next hone =>
      match kept, h, hone with
      | [], h, _ => exact absurd rfl h.ne_nil
      | [_], h, _ => exact writes_digit h
      | c :: f :: fs, _, hone => exact (hone c f fs rfl).elim
  split
  · exact writes_below h ‹_›
  split
  · exact writes_within h (Int.not_le.1 ‹_›) ‹_›
  · exact writes_above h (Nat.not_lt.1 ‹_›)

theorem exists_written_magnitudeText (hx : x.magnitude < infinite) (hzero : x.magnitude ≠ 0) :
    ∃ d, Written x.magnitudeText d ∧
      ∀ negative, Decimal.round negative d = ofMagnitude negative x.magnitude := by
  obtain ⟨kept, point, hlayout, hkept, hround⟩ := round_layout hx hzero
  obtain ⟨d, hwritten, hd⟩ := writes_magnitudeText hlayout hkept
  exact ⟨d, hwritten, fun negative => (hd negative).trans (hround negative)⟩

theorem text_eq (hx : x.magnitude < infinite) : x.text = signed x.isNegative
    (if x.magnitude = 0 then ['0', '.', '0'] else x.magnitudeText) := by
  have hnan : x.isNaN = false := by
    simp [Binary64.isNaN, Nat.le_of_lt hx]
  have hinf : x.isInfinite = false := by
    simp [Binary64.isInfinite, Nat.ne_of_lt hx]
  simp [Binary64.text, hnan, hinf, Binary64.isZero, signed]

theorem exists_written (hx : x.magnitude < infinite) : ∃ text d,
    x.text = signed x.isNegative text ∧ Written text d ∧ Decimal.round x.isNegative d = x := by
  rw [text_eq hx]
  by_cases hzero : x.magnitude = 0
  · have hround : ∀ negative, Decimal.round negative ⟨ofDigits ['0', '0'], 0 - 1⟩ =
        ofMagnitude negative x.magnitude := fun negative => by
      rw [hzero]
      rfl
    have hwrite : Written ['0', '.', '0'] ⟨ofDigits ['0', '0'], 0 - 1⟩ :=
      .point digits_zero digits_zero
    rw [if_pos hzero]
    exact ⟨_, _, rfl, hwrite, by rw [hround, Binary64.ofMagnitude_magnitude]⟩
  · obtain ⟨d, hwrite, hround⟩ := exists_written_magnitudeText hx hzero
    rw [if_neg hzero]
    exact ⟨_, d, rfl, hwrite, by rw [hround, Binary64.ofMagnitude_magnitude]⟩

/-- A finite value reads back from its text, bit by bit. -/
theorem ofText?_text (hx : x.magnitude < infinite) : Binary64.ofText? x.text = some x := by
  obtain ⟨text, d, htext, hwritten, hround⟩ := exists_written hx
  rw [htext, hwritten.ofText?_signed, hround]

theorem exists_point (hx : x.magnitude < infinite) (he : 'e' ∉ x.text) : ∃ sign ds fs,
    x.text = sign ++ (ds ++ '.' :: fs) ∧ (sign = [] ∨ sign = ['-']) ∧ Digits ds ∧ Digits fs := by
  obtain ⟨text, d, htext, hwritten, -⟩ := exists_written hx
  obtain ⟨sign, hsign, hsigned⟩ : ∃ sign, (sign = [] ∨ sign = ['-']) ∧
      signed x.isNegative text = sign ++ text := by
    cases x.isNegative
    · exact ⟨[], .inl rfl, rfl⟩
    · exact ⟨['-'], .inr rfl, rfl⟩
  rw [htext, hsigned] at he ⊢
  cases hwritten with
  | point hds hfs => exact ⟨sign, _, _, rfl, hsign, hds, hfs⟩
  | whole => simp at he
  | scientific => simp at he

end TreeQuery
