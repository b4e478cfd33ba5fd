/-!
# Binary floating point of 64 bits

A `Binary64` is its bit pattern. `same` is the numeric comparison (the two zeros are equal, no
NaN equals anything), equality of the type is identity of bits. `ofRatio` rounds a quotient to
the nearest value, a half to the even one; everything is exact arithmetic on naturals.
-/

namespace TreeQuery

structure Binary64 where
  bits : UInt64
deriving DecidableEq, Repr

namespace Binary64

def isNegative (x : Binary64) : Bool := 0x8000000000000000 ≤ x.bits.toNat

def magnitude (x : Binary64) : Nat := x.bits.toNat % 0x8000000000000000

def infinite : Nat := 2047 * 0x10000000000000

def ofMagnitude (negative : Bool) (n : Nat) : Binary64 :=
  ⟨UInt64.ofNat (if negative then 0x8000000000000000 + n else n)⟩

def infinity (negative : Bool) : Binary64 := ofMagnitude negative infinite

def nan (negative : Bool) : Binary64 := ofMagnitude negative (infinite + 0x8000000000000)

def zero (negative : Bool) : Binary64 := ofMagnitude negative 0

def isNaN (x : Binary64) : Bool := infinite < x.magnitude

def isInfinite (x : Binary64) : Bool := x.magnitude == infinite

def isZero (x : Binary64) : Bool := x.magnitude == 0

def same (x y : Binary64) : Bool :=
  !x.isNaN && !y.isNaN && (x.bits == y.bits || (x.isZero && y.isZero))

/-- The significand `m` and the exponent `e`, shifted by 1074 to a natural: a finite magnitude is
`m * 2 ^ (e - 1074)`. -/
def parts (x : Binary64) : Nat × Nat :=
  let e := x.magnitude / 0x10000000000000
  let f := x.magnitude % 0x10000000000000
  if e = 0 then (f, 0) else (0x10000000000000 + f, e - 1)

/-- The nearest natural to `n / d`, a half to the even one. -/
def roundDiv (n d : Nat) : Nat :=
  let q := n / d
  let r := n % d
  if d < 2 * r || (2 * r == d && q % 2 == 1) then q + 1 else q

/-- The largest `e` with `2 ^ 52 * 2 ^ e ≤ n / d`, or zero if there is none. -/
def scaleOf (n d : Nat) : Nat :=
  let guess := Nat.log2 n - Nat.log2 d - 52
  if d * Nat.pow 2 (52 + guess) ≤ n then guess else guess - 1

/-- The nearest value to `n / d`: the significand of 53 bits, or fewer below the normal range, is
rounded, and a carry out of it raises the exponent by itself. -/
def ofRatio (negative : Bool) (n d : Nat) : Binary64 :=
  let scaled := n * Nat.pow 2 1074
  let e := scaleOf scaled d
  let m := roundDiv scaled (d * Nat.pow 2 e)
  ofMagnitude negative (min (e * 0x10000000000000 + m) infinite)

end Binary64

end TreeQuery
