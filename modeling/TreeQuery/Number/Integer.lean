/-!
# Integers in decimal

Words of 64 bits, read and written in ASCII decimal. A sign is optional when reading; writing
puts only a minus.
-/

namespace TreeQuery.Number

def digitValue (c : Char) : Nat := c.toNat - '0'.toNat

def ofDigits (cs : List Char) : Nat := cs.foldl (fun n c => n * 10 + digitValue c) 0

def digits? (cs : List Char) : Option Nat :=
  if !cs.isEmpty && cs.all Char.isDigit then some (ofDigits cs) else none

/-- An unsigned word: an optional plus and digits, below `2 ^ 64`. -/
def natural? (cs : List Char) : Option Nat :=
  let digits := match cs with
    | '+' :: rest => rest
    | _ => cs
  (digits? digits).filter (· < 0x10000000000000000)

/-- A signed word: an optional sign and digits, from `-2 ^ 63` to `2 ^ 63 - 1`. -/
def integer? (cs : List Char) : Option Int64 :=
  match cs with
  | '-' :: rest => (digits? rest).bind fun n =>
    if n ≤ 0x8000000000000000 then some (Int64.ofInt (-n)) else none
  | '+' :: rest => (digits? rest).bind fun n =>
    if n < 0x8000000000000000 then some (Int64.ofInt n) else none
  | _ => (digits? cs).bind fun n => if n < 0x8000000000000000 then some (Int64.ofInt n) else none

def decimal (n : Nat) : List Char := Nat.toDigits 10 n

def decimalInt (n : Int) : List Char :=
  if n < 0 then '-' :: decimal n.natAbs else decimal n.natAbs

end TreeQuery.Number
