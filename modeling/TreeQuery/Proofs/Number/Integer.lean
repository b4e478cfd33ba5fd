import TreeQuery.Number.Integer

/-!
# Integers are read as they are written

Decimal digits denote the number that they were made of, and every signed word reads back from its
text (`integer?_decimalInt`).
-/

namespace TreeQuery.Number

variable {n : Nat} {c : Char} {cs : List Char}

theorem ofDigits_eq (cs : List Char) : ofDigits cs = Nat.ofDigitChars 10 cs 0 := by
  simp only [ofDigits, Nat.ofDigitChars, Nat.mul_comm, digitValue]

theorem isDigit_of_mem_decimal (h : c ∈ decimal n) : c.isDigit = true :=
  Nat.isDigit_of_mem_toDigits (by decide) (by decide) h

theorem decimal_ne_nil (n : Nat) : decimal n ≠ [] := Nat.toDigits_ne_nil

theorem ofDigits_decimal (n : Nat) : ofDigits (decimal n) = n := by
  rw [ofDigits_eq]
  exact Nat.ofDigitChars_ten_toDigits

theorem digits?_decimal (n : Nat) : digits? (decimal n) = some n := by
  have hall : (decimal n).all Char.isDigit = true :=
    List.all_eq_true.2 fun c hc => isDigit_of_mem_decimal hc
  simp [digits?, hall, decimal_ne_nil, ofDigits_decimal]

theorem exists_decimal (n : Nat) : ∃ c cs, decimal n = c :: cs ∧ c.isDigit = true := by
  obtain ⟨c, cs, h⟩ := List.exists_cons_of_ne_nil (decimal_ne_nil n)
  exact ⟨c, cs, h, isDigit_of_mem_decimal (h ▸ List.mem_cons_self)⟩

theorem integer?_of_digit (hc : c.isDigit = true) : integer? (c :: cs) =
    (digits? (c :: cs)).bind fun n =>
      if n < 0x8000000000000000 then some (Int64.ofInt n) else none := by
  have hminus : c ≠ '-' := by rintro rfl; cases hc
  have hplus : c ≠ '+' := by rintro rfl; cases hc
  delta integer?
  split
  · next h => exact absurd (List.cons.inj h).1 hminus
  · next h => exact absurd (List.cons.inj h).1 hplus
  · rfl

theorem integer?_decimalInt (n : Int64) : integer? (decimalInt n.toInt) = some n := by
  have hlow := n.le_toInt
  have hhigh := n.toInt_lt
  unfold decimalInt
  split
  · next hneg =>
    have hle : n.toInt.natAbs ≤ 0x8000000000000000 := by omega
    have hvalue : -(n.toInt.natAbs : Int) = n.toInt := by omega
    delta integer?
    simp only [digits?_decimal, Option.bind_some, hle, if_true, hvalue, Int64.ofInt_toInt]
  · next hpos =>
    have hlt : n.toInt.natAbs < 0x8000000000000000 := by omega
    have hvalue : (n.toInt.natAbs : Int) = n.toInt := by omega
    obtain ⟨c, cs, hdigits, hc⟩ := exists_decimal n.toInt.natAbs
    rw [hdigits, integer?_of_digit hc, ← hdigits]
    simp only [digits?_decimal, Option.bind_some, hlt, if_true, hvalue, Int64.ofInt_toInt]

end TreeQuery.Number
