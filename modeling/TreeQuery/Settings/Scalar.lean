import TreeQuery.Settings
import TreeQuery.Text.Find

/-!
# Values of settings files

Every reader takes the text from the value on and gives the value with what follows it, or nothing
if there is no such value. Texts stand between double quotes, where a backslash starts an escape,
or between single quotes, where nothing does; three quotes open a text over several lines. Numbers
that are no integers, truth values and dates fit no setting, but they have to be well formed.
-/

namespace TreeQuery.Settings.Scalar

def isSpacing (c : Char) : Bool := c == ' ' || c == '\t'

def skip (cs : List Char) : List Char := cs.dropWhile isSpacing

def isControl (c : Char) : Bool := (c.toNat < 0x20 && c != '\t') || c.toNat == 0x7f

-- ---------------------------------------------------------------------------
-- Texts
-- ---------------------------------------------------------------------------

def hexValue? (c : Char) : Option Nat :=
  if c.isDigit then some (c.toNat - 48)
  else if 'a' ≤ c && c ≤ 'f' then some (c.toNat - 87)
  else if 'A' ≤ c && c ≤ 'F' then some (c.toNat - 55)
  else none

def codePoint? (count : Nat) (cs : List Char) : Option (Char × List Char) := do
  let digits := cs.take count
  if digits.length < count then none
  let values ← digits.mapM hexValue?
  let n := values.foldl (fun n d => n * 16 + d) 0
  if n.isValidChar then some (Char.ofNat n, cs.drop count) else none

def escape? : List Char → Option (Char × List Char)
  | 'b' :: rest => some ('\x08', rest)
  | 't' :: rest => some ('\t', rest)
  | 'n' :: rest => some ('\n', rest)
  | 'f' :: rest => some ('\x0c', rest)
  | 'r' :: rest => some ('\r', rest)
  | '"' :: rest => some ('"', rest)
  | '\\' :: rest => some ('\\', rest)
  | 'u' :: rest => codePoint? 4 rest
  | 'U' :: rest => codePoint? 8 rest
  | _ => none

def quotedFor : Nat → List Char → Option (List Char × List Char)
  | 0, _ => none
  | _, [] => none
  | fuel + 1, c :: rest =>
    if c = '"' then some ([], rest)
    else if c = '\\' then do
      let (char, rest) ← escape? rest
      let (text, rest) ← quotedFor fuel rest
      return (char :: text, rest)
    else if isControl c then none
    else (quotedFor fuel rest).map fun (text, rest) => (c :: text, rest)

def quoted? (cs : List Char) : Option (List Char × List Char) := quotedFor cs.length cs

def literal? (cs : List Char) : Option (List Char × List Char) :=
  let text := cs.takeWhile (· != '\x27')
  match cs.drop text.length with
  | _ :: rest => if text.any isControl then none else some (text, rest)
  | [] => none

def lineEnd? : List Char → Option (List Char)
  | '\n' :: rest => some rest
  | '\r' :: '\n' :: rest => some rest
  | _ => none

def isSpacingOrLineEnd (c : Char) : Bool := isSpacing c || c == '\n' || c == '\r'

/-- A text over several lines up to its three closing quotes, before which one or two more belong
to the text. A backslash at the end of a line takes away all spacing that follows. -/
def blockFor (quote : Char) (escapes : Bool) : Nat → List Char → Option (List Char × List Char)
  | 0, _ => none
  | _, [] => none
  | fuel + 1, c :: rest =>
    let quotes := min ((c :: rest).takeWhile (· == quote)).length 5
    let put (char : Char) (rest : List Char) :=
      (blockFor quote escapes fuel rest).map fun (text, rest) => (char :: text, rest)
    if 3 ≤ quotes then some (List.replicate (quotes - 3) quote, (c :: rest).drop quotes)
    else if c = '\\' && escapes then
      if (lineEnd? (skip rest)).isSome then
        blockFor quote escapes fuel (rest.dropWhile isSpacingOrLineEnd)
      else (escape? rest).bind fun (char, rest) => put char rest
    else match lineEnd? (c :: rest) with
      | some rest => put '\n' rest
      | none => if isControl c then none else put c rest

/-- A line end right behind the opening quotes is no part of the text. -/
def block? (quote : Char) (escapes : Bool) (cs : List Char) : Option (List Char × List Char) :=
  blockFor quote escapes cs.length ((lineEnd? cs).getD cs)

-- ---------------------------------------------------------------------------
-- Words
-- ---------------------------------------------------------------------------

def grouped? (isDigit : Char → Bool) (cs : List Char) : Option (List Char) :=
  let groups := Text.split '_' cs
  if groups.any List.isEmpty || !groups.all (·.all isDigit) then none else some groups.flatten

def whole? (cs : List Char) : Option (List Char) :=
  (grouped? Char.isDigit cs).filter fun ds => ds.length == 1 || ds.head? != some '0'

def unsigned : List Char → List Char
  | '+' :: rest => rest
  | '-' :: rest => rest
  | cs => cs

def radix? (base : Nat) (cs : List Char) : Option Nat :=
  (grouped? (fun c => (hexValue? c).any (· < base)) cs).map
    fun ds => ds.foldl (fun n c => n * base + (hexValue? c).getD 0) 0

/-- An integer of 64 bits: decimal with an optional sign, or in one of three other bases. -/
def integer? (cs : List Char) : Option Int :=
  let n? : Option Int := match cs with
    | '0' :: 'x' :: rest => (radix? 16 rest).map fun n => n
    | '0' :: 'o' :: rest => (radix? 8 rest).map fun n => n
    | '0' :: 'b' :: rest => (radix? 2 rest).map fun n => n
    | '-' :: rest => (whole? rest).map fun ds => -(Number.ofDigits ds : Int)
    | _ => (whole? (unsigned cs)).map fun ds => (Number.ofDigits ds : Int)
  n?.filter fun n => -0x8000000000000000 ≤ n && n < 0x8000000000000000

def isFloat (cs : List Char) : Bool :=
  let body := unsigned cs
  let isMark (c : Char) : Bool := c == 'e' || c == 'E'
  let mantissa := body.takeWhile (!isMark ·)
  let exponent := body.dropWhile (!isMark ·)
  let whole := mantissa.takeWhile (· != '.')
  let fraction := mantissa.dropWhile (· != '.')
  body = "inf".toList || body = "nan".toList ||
    ((whole? whole).isSome && (!fraction.isEmpty || !exponent.isEmpty) &&
      (fraction.isEmpty || (grouped? Char.isDigit fraction.tail).isSome) &&
      (exponent.isEmpty || (grouped? Char.isDigit (unsigned exponent.tail)).isSome))

def field? (count low high : Nat) (cs : List Char) : Option (Nat × List Char) :=
  let digits := cs.take count
  if digits.length < count || !digits.all Char.isDigit then none
  else
    let n := Number.ofDigits digits
    if low ≤ n && n ≤ high then some (n, cs.drop count) else none

def expect? (c : Char) : List Char → Option (List Char)
  | d :: rest => if d = c then some rest else none
  | [] => none

def daysIn (year month : Nat) : Nat :=
  if month = 2 then
    if (year % 4 = 0 && year % 100 != 0) || year % 400 = 0 then 29 else 28
  else if month = 4 || month = 6 || month = 9 || month = 11 then 30
  else 31

def date? (cs : List Char) : Option (List Char) := do
  let (year, cs) ← field? 4 0 9999 cs
  let (month, cs) ← field? 2 1 12 (← expect? '-' cs)
  let (_, cs) ← field? 2 1 (daysIn year month) (← expect? '-' cs)
  return cs

def time? (cs : List Char) : Option (List Char) := do
  let (_, cs) ← field? 2 0 23 cs
  let (_, cs) ← field? 2 0 59 (← expect? ':' cs)
  let (_, cs) ← field? 2 0 60 (← expect? ':' cs)
  match cs with
  | '.' :: rest =>
    if (rest.takeWhile Char.isDigit).isEmpty then none else some (rest.dropWhile Char.isDigit)
  | _ => some cs

def offset? (cs : List Char) : Option (List Char) :=
  match cs with
  | c :: rest =>
    if c = 'Z' || c = 'z' then some rest
    else if c = '+' || c = '-' then do
      let (_, rest) ← field? 2 0 23 rest
      let (_, rest) ← field? 2 0 59 (← expect? ':' rest)
      return rest
    else some cs
  | [] => some []

def isDate (cs : List Char) : Bool :=
  match date? cs with
  | some [] => true
  | some (c :: rest) =>
    (c == 'T' || c == 't' || c == ' ') && (time? rest).bind offset? == some []
  | none => time? cs == some []

def isWordChar (c : Char) : Bool :=
  c.isAlphanum || c == '_' || c == '-' || c == '+' || c == '.' || c == ':'

/-- The word that comes next; a single space may stand between a date and a time. -/
def word (cs : List Char) : List Char × List Char :=
  let first := cs.takeWhile isWordChar
  let rest := cs.drop first.length
  match rest with
  | ' ' :: c :: _ =>
    if date? first == some [] && c.isDigit then
      let second := rest.tail.takeWhile isWordChar
      (first ++ ' ' :: second, rest.tail.drop second.length)
    else (first, rest)
  | _ => (first, rest)

def ofWord? (cs : List Char) : Option Value :=
  match integer? cs with
  | some n => some (.number n)
  | none =>
    if cs = "true".toList || cs = "false".toList || isFloat cs || isDate cs then some .other
    else none

end TreeQuery.Settings.Scalar
