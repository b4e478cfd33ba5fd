import TreeQuery.Number.Binary64
import TreeQuery.Number.Integer
import TreeQuery.Text.Class

/-!
# Decimal texts of floating-point numbers

`Binary64.ofText?` reads a decimal with an optional fraction and exponent, or the words for
infinity and NaN, and rounds it correctly. `Binary64.text` writes the fewest digits that read
back, nearest to the value, and of two equally near the greater; small and large magnitudes take
an exponent.
-/

namespace TreeQuery

structure Decimal where
  digits : Nat
  exponent : Int
deriving DecidableEq, Repr

namespace Decimal

def length (n : Nat) : Nat := if n = 0 then 0 else (Number.decimal n).length

/-- The nearest floating-point value. Beyond `10 ^ 310` and below `10 ^ -330` the powers of ten
are not formed: such values are infinite and zero. -/
def round (negative : Bool) (d : Decimal) : Binary64 :=
  let top := d.exponent + length d.digits
  if d.digits = 0 || top < -330 then Binary64.zero negative
  else if 310 < top then Binary64.infinity negative
  else match d.exponent with
    | .ofNat e => Binary64.ofRatio negative (d.digits * Nat.pow 10 e) 1
    | .negSucc e => Binary64.ofRatio negative d.digits (Nat.pow 10 (e + 1))

def exponent? : List Char → Option Int
  | '-' :: cs => (Number.digits? cs).map fun n => -n
  | '+' :: cs => (Number.digits? cs).map fun n => n
  | cs => (Number.digits? cs).map fun n => n

def ofText? (cs : List Char) : Option Decimal := do
  let whole := cs.takeWhile Char.isDigit
  let (fraction, tail) := match cs.dropWhile Char.isDigit with
    | '.' :: rest => (rest.takeWhile Char.isDigit, rest.dropWhile Char.isDigit)
    | rest => ([], rest)
  let exponent ← match tail with
    | [] => some 0
    | c :: rest => if c == 'e' || c == 'E' then exponent? rest else none
  let digits := whole ++ fraction
  if digits.isEmpty then none
  else some ⟨Number.ofDigits digits, exponent - fraction.length⟩

end Decimal

namespace Binary64

def special? (negative : Bool) (cs : List Char) : Option Binary64 :=
  let word := String.ofList (Text.lower cs)
  if word == "inf" || word == "infinity" then some (infinity negative)
  else if word == "nan" then some (nan negative)
  else none

def ofText? (cs : List Char) : Option Binary64 :=
  let (negative, rest) := match cs with
    | '-' :: r => (true, r)
    | '+' :: r => (false, r)
    | _ => (false, cs)
  special? negative rest <|> (Decimal.ofText? rest).map (Decimal.round negative)

/-- The two neighbours of `m * 2 ^ (e - 1074)` on the grid of step `10 ^ s`: the lower one, and
whether the value is at least half a step above it. -/
def onGrid (m e : Nat) (s : Int) : Nat × Bool :=
  let (n, d) := match s with
    | .ofNat k => (m * Nat.pow 2 e, Nat.pow 2 1074 * Nat.pow 10 k)
    | .negSucc k => (m * Nat.pow 2 e * Nat.pow 10 (k + 1), Nat.pow 2 1074)
  (n / d, d ≤ 2 * (n % d))

def gridHit? (x : Binary64) (s : Int) : Option Decimal :=
  let (m, e) := x.parts
  let (low, upper) := onGrid m e s
  let reads (n : Nat) : Bool := (Decimal.round false ⟨n, s⟩).magnitude == x.magnitude
  if reads (low + 1) && (upper || !reads low) then some ⟨low + 1, s⟩
  else if reads low then some ⟨low, s⟩
  else none

/-- The number of digits before the point: `v < 10 ^ magnitude10`, at least for positive values
at the least such exponent. -/
def magnitude10 (x : Binary64) : Int :=
  let (m, e) := x.parts
  let whole := m * Nat.pow 2 e / Nat.pow 2 1074
  if 0 < whole then Decimal.length whole
  else
    -- below one, the digits of `v * 10 ^ 330` are counted
    (Decimal.length (m * Nat.pow 2 e * Nat.pow 10 330 / Nat.pow 2 1074) : Int) - 330

def exact (x : Binary64) : Decimal :=
  let (m, e) := x.parts
  ⟨m * Nat.pow 2 e * Nat.pow 5 1074, -1074⟩

/-- The shortest decimal that reads back: grids of one to seventeen digits are tried in turn. -/
def shortest (x : Binary64) : Decimal :=
  let top := x.magnitude10
  ((List.range 17).findSome? fun (n : Nat) => x.gridHit? (top - n - 1)).getD x.exact

def zeros (n : Nat) : List Char := List.replicate n '0'

def layout (d : Decimal) : List Char × Int :=
  let ds := Number.decimal d.digits
  let kept := (ds.reverse.dropWhile (· == '0')).reverse
  (kept, d.exponent + ds.length)

/-- Positional from `0.0001` up to sixteen digits before the point, with at least one digit after
it; else one digit before the point and an exponent. -/
def magnitudeText (x : Binary64) : List Char :=
  let (ds, point) := layout x.shortest
  if point < -3 || 16 < point then
    let mantissa := match ds with
      | d :: rest@(_ :: _) => d :: '.' :: rest
      | _ => ds
    mantissa ++ 'e' :: Number.decimalInt (point - 1)
  else if point ≤ 0 then
    '0' :: '.' :: zeros (-point).toNat ++ ds
  else
    let before := point.toNat
    if before < ds.length then ds.take before ++ '.' :: ds.drop before
    else ds ++ zeros (before - ds.length) ++ ['.', '0']

def text (x : Binary64) : List Char :=
  if x.isNaN then "NaN".toList
  else
    let body :=
      if x.isInfinite then "inf".toList
      else if x.isZero then "0.0".toList
      else x.magnitudeText
    if x.isNegative then '-' :: body else body

end Binary64

end TreeQuery
