import TreeQuery.Number.Decimal
import TreeQuery.Shell.Condition
import TreeQuery.Shell.Lines

/-!
# Programs that print their words

Plain and formatted printing, parts of paths, and expressions.
-/

namespace TreeQuery.Shell.Printing

-- ---------------------------------------------------------------------------
-- Escapes
-- ---------------------------------------------------------------------------

def isOctal (c : Char) : Bool := '0' ≤ c && c ≤ '7'

def ofOctal (cs : List Char) : Char :=
  Char.ofNat ((cs.foldl (fun n c => n * 8 + (c.toNat - 48)) 0) % 256)

/-- What an escape stands for behind its backslash, and what follows it. A backslash that starts no
escape stands for itself. -/
def escape : List Char → List Char × List Char
  | [] => (['\\'], [])
  | c :: rest =>
    match c with
    | 'a' => (['\x07'], rest)
    | 'b' => (['\x08'], rest)
    | 'f' => (['\x0c'], rest)
    | 'n' => (['\n'], rest)
    | 'r' => (['\r'], rest)
    | 't' => (['\t'], rest)
    | 'v' => (['\x0b'], rest)
    | '\\' => (['\\'], rest)
    | _ =>
      if isOctal c then
        let digits := ((c :: rest).take 3).takeWhile isOctal
        ([ofOctal digits], (c :: rest).drop digits.length)
      else (['\\'], c :: rest)

def unescapeFor : Nat → List Char → List Char × Bool
  | 0, _ => ([], false)
  | _, [] => ([], false)
  | fuel + 1, '\\' :: rest =>
    match rest with
    | 'c' :: _ => ([], true)
    | _ =>
      let rest := match rest with
        | '0' :: d :: more => if isOctal d then d :: more else rest
        | _ => rest
      let (cs, rest) := escape rest
      let (text, stop) := unescapeFor fuel rest
      (cs ++ text, stop)
  | fuel + 1, c :: rest =>
    let (text, stop) := unescapeFor fuel rest
    (c :: text, stop)

def unescape (cs : List Char) : List Char × Bool := unescapeFor (cs.length + 1) cs

-- ---------------------------------------------------------------------------
-- Plain printing
-- ---------------------------------------------------------------------------

def unescapeWords : List (List Char) → List Char × Bool
  | [] => ([], false)
  | [w] => unescape w
  | w :: ws =>
    let (text, stop) := unescape w
    if stop then (text, true)
    else
      let (more, stop) := unescapeWords ws
      (text ++ ' ' :: more, stop)

def echoBuiltin : Program := fun fs args _ =>
  let (noNewline, words) := match args with
    | ['-', 'n'] :: rest => (true, rest)
    | _ => (false, args)
  let (text, stop) := unescapeWords words
  .print fs (if noNewline || stop then text else text ++ ['\n'])

def echoProgram : Program := fun fs args _ =>
  let isOption (w : List Char) : Bool :=
    match w with
    | '-' :: c :: cs => (c :: cs).all fun c => c == 'n' || c == 'e' || c == 'E'
    | _ => false
  let options := (args.takeWhile isOption).flatMap List.tail
  let words := args.dropWhile isOption
  let escapes := ((options.filter (· != 'n')).getLast?) == some 'e'
  let (text, stop) := if escapes then unescapeWords words else (Text.join [' '] words, false)
  .print fs (if options.contains 'n' || stop then text else text ++ ['\n'])

-- ---------------------------------------------------------------------------
-- Formatted printing
-- ---------------------------------------------------------------------------

structure Layout where
  left : Bool
  zeros : Bool
  plus : Bool
  space : Bool
  alternate : Bool
  width : Nat
  precision : Option Nat

def Layout.pad (o : Layout) (sign body : List Char) : List Char :=
  let gap := o.width - (sign.length + body.length)
  if o.left then sign ++ body ++ List.replicate gap ' '
  else if o.zeros then sign ++ List.replicate gap '0' ++ body
  else List.replicate gap ' ' ++ sign ++ body

def radixDigits (base : Nat) (upper : Bool) (n : Nat) : List Char :=
  let cs := Nat.toDigits base n
  if upper then cs.map Char.toUpper else cs

def signOf (o : Layout) (negative : Bool) : List Char :=
  if negative then ['-'] else if o.plus then ['+'] else if o.space then [' '] else []

def layOutDigits (o : Layout) (sign digits : List Char) : List Char :=
  match o.precision with
  | some p => { o with zeros := false }.pad sign (List.replicate (p - digits.length) '0' ++ digits)
  | none => o.pad sign digits

/-- The number that a word begins with, and whether it is all of it: decimal, octal behind a zero,
hexadecimal, or the code of a character behind a quote. -/
def numberOf (w : List Char) : Int × Bool :=
  let w := w.dropWhile Lines.isBlank
  match w with
  | '\x27' :: c :: _ | '"' :: c :: _ => (c.toNat, true)
  | _ =>
    let (negative, body) := match w with
      | '-' :: rest => (true, rest)
      | '+' :: rest => (false, rest)
      | _ => (false, w)
    let read (base : Nat) (isDigit : Char → Bool) (ds : List Char) : Int × Bool :=
      let digits := ds.takeWhile isDigit
      let n := digits.foldl (fun n c =>
        n * base + (if c.isDigit then c.toNat - 48 else c.toLower.toNat - 87)) 0
      (if negative then -(n : Int) else n, digits.length == ds.length && !ds.isEmpty)
    let isHex (c : Char) : Bool :=
      c.isDigit || ('a' ≤ c.toLower && c.toLower ≤ 'f')
    match body with
    | '0' :: 'x' :: ds | '0' :: 'X' :: ds => read 16 isHex ds
    | '0' :: ds => if ds.isEmpty then (0, true) else read 8 isOctal ('0' :: ds)
    | ds => read 10 Char.isDigit ds

/-- A decimal with so many places; a half goes to the even neighbour. -/
def fixedPlaces (places : Nat) (d : Decimal) : List Char :=
  let scaled := d.exponent + places
  let n := match scaled with
    | .ofNat k => d.digits * Nat.pow 10 k
    | .negSucc k =>
      let divisor := Nat.pow 10 (min (k + 1) 400)
      let low := d.digits / divisor
      let twice := 2 * (d.digits % divisor)
      if divisor < twice || (divisor = twice && low % 2 = 1) then low + 1 else low
  let cs := Number.decimal n
  let cs := List.replicate (places + 1 - cs.length) '0' ++ cs
  let whole := cs.take (cs.length - places)
  if places = 0 then whole else whole ++ '.' :: cs.drop (cs.length - places)

def directive (o : Layout) (conversion : Char) (word : List Char) : List Char × Bool :=
  let cut (cs : List Char) : List Char := match o.precision with
    | some p => cs.take p
    | none => cs
  let plain : Layout := { o with zeros := false }
  let (n, isWhole) := if word.isEmpty then (0, true) else numberOf word
  let unsignedValue : Nat := if n < 0 then (n % 0x10000000000000000).toNat else n.toNat
  match conversion with
  | 's' => (plain.pad [] (cut word), true)
  | 'b' => (plain.pad [] (cut (unescape word).1), true)
  | 'c' => (plain.pad [] (word.take 1), true)
  | 'd' | 'i' => (layOutDigits o (signOf o (n < 0)) (Number.decimal n.natAbs), isWhole)
  | 'u' => (layOutDigits o [] (Number.decimal unsignedValue), isWhole)
  | 'o' =>
    let ds := radixDigits 8 false unsignedValue
    (layOutDigits o [] (if o.alternate && ds.head? != some '0' then '0' :: ds else ds), isWhole)
  | 'x' =>
    (layOutDigits o (if o.alternate && 0 < unsignedValue then ['0', 'x'] else [])
      (radixDigits 16 false unsignedValue), isWhole)
  | 'X' =>
    (layOutDigits o (if o.alternate && 0 < unsignedValue then ['0', 'X'] else [])
      (radixDigits 16 true unsignedValue), isWhole)
  | _ =>
    let (negative, body) := match word with
      | '-' :: rest => (true, rest)
      | '+' :: rest => (false, rest)
      | _ => (false, word)
    match Decimal.ofText? (if body.isEmpty then ['0'] else body) with
    | some d => (o.pad (signOf o negative) (fixedPlaces (o.precision.getD 6) d), true)
    | none => (o.pad (signOf o negative) (fixedPlaces (o.precision.getD 6) ⟨0, 0⟩), false)

structure Progress where
  output : List Char
  words : List (List Char)
  asked : Bool
  fits : Bool
  stopped : Bool
  malformed : Bool

def Progress.put (p : Progress) (cs : List Char) : Progress := { p with output := p.output ++ cs }

def Progress.next (p : Progress) : List Char × Progress :=
  match p.words with
  | [] => ([], { p with asked := true })
  | w :: ws => (w, { p with words := ws, asked := true })

def flagsOf (cs : List Char) : List Char := cs.takeWhile fun c =>
  c == '-' || c == '0' || c == '+' || c == ' ' || c == '#'

def amount (p : Progress) (cs : List Char) : Option Int × Progress × List Char :=
  match cs with
  | '*' :: rest => let (w, p) := p.next; (some (numberOf w).1, p, rest)
  | _ =>
    let ds := cs.takeWhile Char.isDigit
    (if ds.isEmpty then none else some (Number.ofDigits ds : Int), p, cs.drop ds.length)

def formatFor : Nat → List Char → Progress → Progress
  | 0, _, p => p
  | _, [], p => p
  | fuel + 1, '\\' :: rest, p =>
    match rest with
    | 'c' :: _ => { p with stopped := true }
    | _ => let (cs, rest) := escape rest; formatFor fuel rest (p.put cs)
  | fuel + 1, '%' :: '%' :: rest, p => formatFor fuel rest (p.put ['%'])
  | fuel + 1, '%' :: rest, p =>
    let flags := flagsOf rest
    let (width, p, rest) := amount p (rest.drop flags.length)
    let (precision, p, rest) := match rest with
      | '.' :: rest =>
        let (n, p, rest) := amount p rest
        (some (n.getD 0).toNat, p, rest)
      | _ => (none, p, rest)
    let layout : Layout := ⟨flags.contains '-' || width.any (· < 0), flags.contains '0',
      flags.contains '+', flags.contains ' ', flags.contains '#', (width.getD 0).natAbs, precision⟩
    match rest with
    | [] => { p with malformed := true, stopped := true }
    | c :: rest =>
      if !"diouxXcsbeEfFgGaA".toList.contains c then
        { p with malformed := true, stopped := true }
      else
        let (w, p) := p.next
        let (text, fits) := directive layout c w
        let stop := c == 'b' && (unescape w).2
        let p := { p.put text with fits := p.fits && fits, stopped := stop }
        if stop then p else formatFor fuel rest p
  | fuel + 1, c :: rest, p => formatFor fuel rest (p.put [c])

def formatAll (format : List Char) : Nat → Progress → Progress
  | 0, p => p
  | fuel + 1, p =>
    let p := formatFor (format.length + 1) format { p with asked := false }
    if p.stopped || !p.asked || p.words.isEmpty then p else formatAll format fuel p

/-- Prints words in a format. `invalid` is the status for a directive that there is not. -/
def printfWith (invalid : Nat) : Program := fun fs args _ =>
  let args := match args with
    | ['-', '-'] :: rest => rest
    | _ => args
  match args with
  | [] => .fail fs invalid "printf" "usage: printf format [arg ...]"
  | format :: words =>
    let p := formatAll format (words.length + 1) ⟨[], words, false, true, false, false⟩
    { Effect.print fs p.output with
      status := if p.malformed then invalid else if p.fits then 0 else 1 }

def printfBuiltin : Program := printfWith 2

def printfProgram : Program := printfWith 1

-- ---------------------------------------------------------------------------
-- Parts of paths
-- ---------------------------------------------------------------------------

def withoutSlashes (cs : List Char) : List Char := (cs.reverse.dropWhile (· == '/')).reverse

def basename : Program := fun fs args _ =>
  let args := match args with
    | ['-', '-'] :: rest => rest
    | _ => args
  match args with
  | _ :: _ :: _ :: _ => .fail fs 1 "basename" "extra operand"
  | path :: rest =>
    let bare := withoutSlashes path
    let name :=
      if bare.isEmpty then if path.isEmpty then [] else ['/']
      else (bare.reverse.takeWhile (· != '/')).reverse
    let suffix := rest.headD []
    let name := if name != suffix && suffix.reverse.isPrefixOf name.reverse then
        name.take (name.length - suffix.length) else name
    .print fs (name ++ ['\n'])
  | [] => .fail fs 1 "basename" "missing operand"

def dirname : Program := fun fs args _ =>
  match args with
  | [] => .fail fs 1 "dirname" "missing operand"
  | paths =>
    .print fs (unlines (paths.map fun path =>
      let cut := ((withoutSlashes path).reverse.dropWhile (· != '/'))
      let parent := withoutSlashes cut.reverse
      if !parent.isEmpty then parent
      else if path.head? == some '/' then ['/']
      else ['.']))

-- ---------------------------------------------------------------------------
-- Expressions
-- ---------------------------------------------------------------------------

abbrev Word := List Char

def isTrue (w : Word) : Bool := !w.isEmpty && Condition.integer? w != some 0

def ofBool (b : Bool) : Word := if b then ['1'] else ['0']

def compareWords (op a b : Word) : Option Bool :=
  let (less, equal) := match Condition.integer? a, Condition.integer? b with
    | some m, some n => (decide (m < n), m == n)
    | _, _ => (Text.precedes a b && a != b, a == b)
  match String.ofList op with
  | "<" => some less
  | "<=" => some (less || equal)
  | "=" | "==" => some equal
  | "!=" => some (!equal)
  | ">=" => some (!less)
  | ">" => some (!less && !equal)
  | _ => none

def matched? (text pattern : Word) : Option Word := do
  let hasGroup := Text.contains ['\\', '('] pattern
  let r ← Regex.readFor ⟨false, true⟩ pattern.length none 1 pattern (.start 0) []
  match Regex.longest? (r.ends false ⟨none, text, []⟩) with
  | some q =>
    if hasGroup then return (q.groups.lookup 1).getD []
    else return Number.decimal (text.length - q.rest.length)
  | none => return if hasGroup then [] else ['0']

def calculate? (op : Word) (a b : Word) : Option Word := do
  let m ← Condition.integer? a
  let n ← Condition.integer? b
  match op with
  | ['+'] => return Number.decimalInt (m + n)
  | ['-'] => return Number.decimalInt (m - n)
  | ['*'] => return Number.decimalInt (m * n)
  | ['/'] => if n = 0 then none else return Number.decimalInt (Int.tdiv m n)
  | ['%'] => if n = 0 then none else return Number.decimalInt (Int.tmod m n)
  | _ => none

def strength? (op : Word) : Option Nat :=
  match String.ofList op with
  | "|" => some 1
  | "&" => some 2
  | "<" | "<=" | "=" | "==" | "!=" | ">=" | ">" => some 3
  | "+" | "-" => some 4
  | "*" | "/" | "%" => some 5
  | ":" => some 6
  | _ => none

def combine? (op a b : Word) : Option Word :=
  match op with
  | ['|'] => some (if isTrue a then a else if isTrue b then b else ['0'])
  | ['&'] => some (if isTrue a && isTrue b then a else ['0'])
  | [':'] => matched? a b
  | _ => (calculate? op a b).or ((compareWords op a b).map ofBool)

mutual
def exprFor : Nat → Nat → List Word → Option (Word × List Word)
  | 0, _, _ => none
  | fuel + 1, least, ws => do
    let (a, ws) ← operandFor fuel ws
    exprRest fuel least a ws
def exprRest : Nat → Nat → Word → List Word → Option (Word × List Word)
  | 0, _, _, _ => none
  | fuel + 1, least, a, ws =>
    match ws with
    | op :: rest =>
      match strength? op with
      | some s =>
        if s < least then some (a, ws)
        else do
          let (b, rest) ← exprFor fuel (s + 1) rest
          exprRest fuel least (← combine? op a b) rest
      | none => some (a, ws)
    | [] => some (a, [])
def operandFor : Nat → List Word → Option (Word × List Word)
  | 0, _ => none
  | _, [] => none
  | fuel + 1, ['('] :: rest => do
    let (a, rest) ← exprFor fuel 1 rest
    match rest with
    | [')'] :: rest => return (a, rest)
    | _ => none
  | fuel + 1, w :: rest =>
    match String.ofList w, rest with
    | "length", text :: rest => some (Number.decimal text.length, rest)
    | "match", text :: pattern :: rest => (matched? text pattern).map (·, rest)
    | "substr", text :: start :: count :: rest =>
      match Condition.integer? start, Condition.integer? count with
      | some m, some n =>
        some (if m < 1 || n < 1 then [] else (text.drop (m.toNat - 1)).take n.toNat, rest)
      | _, _ => some ([], rest)
    | "index", text :: chars :: rest =>
      some (Number.decimal (((text.findIdx? chars.contains).map (· + 1)).getD 0), rest)
    | "+", word :: rest => if fuel = 0 then none else some (word, rest)
    | _, _ => some (w, rest)
end

def expr : Program := fun fs args _ =>
  match exprFor (4 * args.length + 8) 1 args with
  | some (w, []) => { Effect.print fs (w ++ ['\n']) with status := if isTrue w then 0 else 1 }
  | _ => .fail fs 2 "expr" "syntax error"

-- ---------------------------------------------------------------------------
-- Waiting
-- ---------------------------------------------------------------------------

def duration? (cs : List Char) : Option (Option Nat) :=
  let (number, unit) := match cs.reverse with
    | 's' :: rest => (rest.reverse, 1)
    | 'm' :: rest => (rest.reverse, 60)
    | 'h' :: rest => (rest.reverse, 3600)
    | 'd' :: rest => (rest.reverse, 86400)
    | _ => (cs, 1)
  let number := match number.dropWhile Lines.isBlank with
    | '+' :: rest => rest
    | rest => rest
  let lower := String.ofList (number.map Char.toLower)
  if lower == "inf" || lower == "infinity" then some none
  else (Decimal.ofText? number).map fun d =>
    match d.exponent + 3 with
    | .ofNat e => if 20 < e then none else some (d.digits * Nat.pow 10 e * unit)
    | .negSucc e => some (d.digits * unit / Nat.pow 10 (min (e + 1) 400))

def sleep : Program := fun fs args _ =>
  let args := match args with
    | ['-', '-'] :: rest => rest
    | _ => args
  if args == ["--help".toList] || args == ["--version".toList] then .exit fs 0
  else if args.isEmpty then .fail fs 1 "sleep" "missing operand"
  else match args.mapM duration? with
    | some ds => { Effect.exit fs 0 with
        millis := ds.foldl (fun total d => total.bind fun t => d.map (t + ·)) (some 0) }
    | none => .fail fs 1 "sleep" "invalid time interval"

end TreeQuery.Shell.Printing
