import TreeQuery.Number.Integer

/-!
# Line patterns

Regular expressions in two spellings. In the basic one the signs for groups, alternatives and
counts are written behind a backslash, in the extended one they stand alone. Matching keeps the
list of all places where a match can end, so it never goes back. Groups remember what they
matched only in patterns that refer back to them.
-/

namespace TreeQuery.Shell

inductive Regex where
  | nothing
  | char (c : Char)
  | any
  | set (negated : Bool) (ranges : List (Char × Char))
  | lineStart
  | lineEnd
  | wordStart
  | wordEnd
  | withinWord
  | sequence (a b : Regex)
  | either (a b : Regex)
  | star (r : Regex)
  | group (number : Nat) (r : Regex)
  | again (number : Nat)

namespace Regex

-- ---------------------------------------------------------------------------
-- Matching
-- ---------------------------------------------------------------------------

def isWordChar (c : Char) : Bool := c.isAlphanum || c == '_'

/-- A place in a line: the character before it, what follows it, and what groups have matched. -/
structure Place where
  before : Option Char
  rest : List Char
  groups : List (Nat × List Char)
deriving DecidableEq

namespace Place

def afterWord (p : Place) : Bool := p.before.any isWordChar

def beforeWord (p : Place) : Bool := p.rest.head?.any isWordChar

def step (p : Place) (fits : Char → Bool) : List Place :=
  match p.rest with
  | c :: cs => if fits c then [{ p with before := some c, rest := cs }] else []
  | [] => []

def past (p : Place) (same : Char → Char → Bool) : List Char → List Place
  | [] => [p]
  | c :: cs => (p.step (same c)).flatMap fun q => q.past same cs

def when (p : Place) (condition : Bool) : List Place := if condition then [p] else []

/-- The places from the start of a line to its end. -/
def all (before : Option Char) : List Char → List Place
  | [] => [⟨before, [], []⟩]
  | c :: cs => ⟨before, c :: cs, []⟩ :: all (some c) cs

def upTo (p q : Place) : List Char := p.rest.take (p.rest.length - q.rest.length)

def remember (p : Place) (number : Nat) (text : List Char) : Place :=
  { p with groups := (number, text) :: p.groups.filter (·.1 != number) }

end Place

def reach (step : Place → List Place) : Nat → List Place → List Place
  | 0, found => found
  | fuel + 1, found =>
    let more := ((found.flatMap step).filter (!found.contains ·)).eraseDups
    if more.isEmpty then found else reach step fuel (found ++ more)

def inRanges (ranges : List (Char × Char)) (c : Char) : Bool :=
  ranges.any fun (lo, hi) => lo ≤ c && c ≤ hi

def sameChar (ignoreCase : Bool) (a b : Char) : Bool :=
  a == b || (ignoreCase && a.toLower == b.toLower)

def ends (ignoreCase : Bool) : Regex → Place → List Place
  | .nothing, p => [p]
  | .char d, p => p.step (sameChar ignoreCase d)
  | .any, p => p.step fun _ => true
  | .set negated ranges, p => p.step fun c =>
    (inRanges ranges c ||
      (ignoreCase && (inRanges ranges c.toLower || inRanges ranges c.toUpper))) != negated
  | .lineStart, p => p.when p.before.isNone
  | .lineEnd, p => p.when p.rest.isEmpty
  | .wordStart, p => p.when (!p.afterWord && p.beforeWord)
  | .wordEnd, p => p.when (p.afterWord && !p.beforeWord)
  | .withinWord, p => p.when (p.afterWord == p.beforeWord)
  | .sequence a b, p => ((ends ignoreCase a p).flatMap fun q => ends ignoreCase b q).eraseDups
  | .either a b, p => (ends ignoreCase a p ++ ends ignoreCase b p).eraseDups
  | .star r, p => reach (fun q => ends ignoreCase r q) p.rest.length [p]
  | .group number r, p => (ends ignoreCase r p).map fun q => q.remember number (p.upTo q)
  | .again number, p =>
    match p.groups.lookup number with
    | some text => p.past (sameChar ignoreCase) text
    | none => []

inductive Extent where
  | part
  | words
  | line
deriving DecidableEq, Repr

def endsWithin (ignoreCase : Bool) (extent : Extent) (r : Regex) (p : Place) : List Place :=
  match extent with
  | .part => r.ends ignoreCase p
  | .words => if p.afterWord then [] else (r.ends ignoreCase p).filter (!·.beforeWord)
  | .line => if p.before.isNone then (r.ends ignoreCase p).filter (·.rest.isEmpty) else []

def fitsLine (ignoreCase : Bool) (extent : Extent) (r : Regex) (line : List Char) : Bool :=
  (Place.all none line).any fun p => !(r.endsWithin ignoreCase extent p).isEmpty

def longest? : List Place → Option Place
  | [] => none
  | p :: ps =>
    match longest? ps with
    | some q => if q.rest.length < p.rest.length then some q else some p
    | none => some p

/-- The parts of a line that match, from the left, each as long as it can be; empty ones are left
out. -/
def parts (ends : Place → List Place) : Nat → Option Char → List Char → List (List Char)
  | 0, _, _ => []
  | _, _, [] => []
  | fuel + 1, before, c :: cs =>
    let p : Place := ⟨before, c :: cs, []⟩
    match longest? (ends p) with
    | some q =>
      if q.rest.length < cs.length + 1 then p.upTo q :: parts ends fuel q.before q.rest
      else parts ends fuel (some c) cs
    | none => parts ends fuel (some c) cs

-- ---------------------------------------------------------------------------
-- Reading
-- ---------------------------------------------------------------------------

def literal (cs : List Char) : Regex := cs.foldr (fun c r => .sequence (.char c) r) .nothing

def wordRanges : List (Char × Char) := [('a', 'z'), ('A', 'Z'), ('0', '9'), ('_', '_')]

def spaceRanges : List (Char × Char) := [(' ', ' '), ('\t', '\r')]

def classRanges? (name : List Char) : Option (List (Char × Char)) :=
  match String.ofList name with
  | "alpha" => some [('a', 'z'), ('A', 'Z')]
  | "digit" => some [('0', '9')]
  | "alnum" => some [('a', 'z'), ('A', 'Z'), ('0', '9')]
  | "upper" => some [('A', 'Z')]
  | "lower" => some [('a', 'z')]
  | "space" => some spaceRanges
  | "blank" => some [(' ', ' '), ('\t', '\t')]
  | "xdigit" => some [('0', '9'), ('a', 'f'), ('A', 'F')]
  | "punct" => some [('!', '/'), (':', '@'), ('[', '\x60'), ('\x7b', '~')]
  | "cntrl" => some [('\x00', '\x1f'), ('\x7f', '\x7f')]
  | "graph" => some [('!', '~')]
  | "print" => some [(' ', '~')]
  | _ => none

def member? : List Char → Option (Char × List Char)
  | '[' :: '.' :: c :: '.' :: ']' :: rest => some (c, rest)
  | '[' :: '=' :: c :: '=' :: ']' :: rest => some (c, rest)
  | c :: rest => some (c, rest)
  | [] => none

/-- The members of a bracket set up to its closing bracket, and what follows it; `none` if it is
never closed, names no class or has a range that runs backwards. -/
def members : Nat → List Char → Option (List (Char × Char) × List Char)
  | 0, _ => none
  | _, [] => none
  | _, ']' :: rest => some ([], rest)
  | fuel + 1, '[' :: ':' :: rest => do
    let name := rest.takeWhile (· != ':')
    let ranges ← classRanges? name
    if !([':', ']'] : List Char).isPrefixOf (rest.drop name.length) then none
    let (rs, after) ← members fuel (rest.drop (name.length + 2))
    return (ranges ++ rs, after)
  | fuel + 1, cs => do
    let (low, rest) ← member? cs
    match rest with
    | '-' :: ']' :: after => return ([(low, low), ('-', '-')], after)
    | '-' :: rest =>
      let (high, rest) ← member? rest
      if high.toNat < low.toNat then none
      let (rs, after) ← members fuel rest
      return ((low, high) :: rs, after)
    | _ =>
      let (rs, after) ← members fuel rest
      return ((low, low) :: rs, after)

def isBareClass (cs : List Char) : Bool :=
  match cs with
  | ':' :: rest =>
    let body := rest.takeWhile (· != ']')
    body.getLast? == some ':' && body.length < rest.length
  | _ => false

def set? (cs : List Char) : Option (Regex × List Char) :=
  if isBareClass cs then none
  else
    let (negated, cs) := match cs with
      | '^' :: rest => (true, rest)
      | _ => (false, cs)
    let (first, cs) := match cs with
      | ']' :: '-' :: rest => ([], '[' :: '.' :: ']' :: '.' :: ']' :: '-' :: rest)
      | ']' :: rest => ([(']', ']')], rest)
      | _ => ([], cs)
    (members (cs.length + 1) cs).map fun (rs, after) => (.set negated (first ++ rs), after)

inductive Sign where
  | atom (r : Regex)
  | repeated (least : Nat) (most : Option Nat)
  | opening
  | closing
  | bar

def interval? (closer : List Char) (cs : List Char) : Option (Sign × List Char) :=
  let low := cs.takeWhile Char.isDigit
  let least := Number.ofDigits low
  match cs.dropWhile Char.isDigit with
  | ',' :: rest =>
    let high := rest.takeWhile Char.isDigit
    let after := rest.dropWhile Char.isDigit
    if closer.isPrefixOf after then
      some (.repeated least (Number.digits? high), after.drop closer.length)
    else none
  | rest =>
    if closer.isPrefixOf rest && !low.isEmpty then
      some (.repeated least (some least), rest.drop closer.length)
    else none

def operator? (closer : List Char) (c : Char) (rest : List Char) : Option (Sign × List Char) :=
  match c with
  | '(' => some (.opening, rest)
  | ')' => some (.closing, rest)
  | '|' => some (.bar, rest)
  | '+' => some (.repeated 1 none, rest)
  | '?' => some (.repeated 0 (some 1), rest)
  | '{' => interval? closer rest
  | _ => none

def escaped (c : Char) : Regex :=
  match c with
  | '<' => .wordStart
  | '>' => .wordEnd
  | 'b' => .either .wordStart .wordEnd
  | 'B' => .withinWord
  | 'w' => .set false wordRanges
  | 'W' => .set true wordRanges
  | 's' => .set false spaceRanges
  | 'S' => .set true spaceRanges
  | '\x60' => .lineStart
  | '\x27' => .lineEnd
  | _ => if c.isDigit && c != '0' then .again (c.toNat - '0'.toNat) else .char c

def opens : Option Sign → Bool
  | none | some .opening | some .bar | some (.atom .lineStart) => true
  | _ => false

def counts : List Char := ['+', '?', '{']

/-- In the basic spelling a dollar sign means the end of the line only where a part ends. -/
def closes (rest : List Char) : Bool :=
  rest.isEmpty || ['\\', ')'].isPrefixOf rest || ['\\', '|'].isPrefixOf rest

def sign? (extended : Bool) (previous : Option Sign) (c : Char) (rest : List Char) :
    Option (Sign × List Char) :=
  let plain : Option (Sign × List Char) := some (.atom (.char c), rest)
  match c with
  | '\\' =>
    match rest with
    | [] => none
    | d :: after =>
      if extended then some (.atom (escaped d), after)
      else if opens previous && counts.contains d then some (.atom (.char d), after)
      else if d = '{' then interval? ['\\', '}'] after
      else (operator? ['\\', '}'] d after).or (some (.atom (escaped d), after))
  | '*' => if opens previous && !extended then plain else some (.repeated 0 none, rest)
  | '.' => some (.atom .any, rest)
  | '[' => (set? rest).map fun (r, after) => (.atom r, after)
  | '^' => if extended || opens previous then some (.atom .lineStart, rest) else plain
  | '$' => if extended || closes rest then some (.atom .lineEnd, rest) else plain
  | _ => if extended then (operator? ['}'] c rest).or plain else plain

structure Frame where
  number : Nat
  before : Option Regex
  parts : List Regex

namespace Frame

def start (number : Nat) : Frame := ⟨number, none, []⟩

def finish (f : Frame) : Regex :=
  let last := f.parts.foldl (fun r p => .sequence p r) .nothing
  match f.before with
  | some b => .either b last
  | none => last

def add (f : Frame) (r : Regex) : Frame := { f with parts := r :: f.parts }

end Frame

def atMost (r : Regex) : Nat → Regex
  | 0 => .nothing
  | n + 1 => .either (.sequence r (atMost r n)) .nothing

def times (r tail : Regex) : Nat → Regex
  | 0 => tail
  | n + 1 => .sequence r (times r tail n)

def repeated (r : Regex) (least : Nat) : Option Nat → Regex
  | none => times r (.star r) least
  | some most => times r (atMost r (most - least)) least

def isCount (least : Nat) (most : Option Nat) : Bool :=
  least ≤ 32767 && most.all fun n => least ≤ n && n ≤ 32767

structure Spelling where
  extended : Bool
  remembers : Bool

/-- Puts a sign into the innermost group. `next` is the number of the next group. In the extended
spelling a closing sign without an opening one stands for itself. -/
def put (o : Spelling) (s : Sign) (next : Nat) (f : Frame) (outer : List Frame) :
    Option (Frame × List Frame) :=
  match s, outer with
  | .atom (.again n), _ => if n < next then some (f.add (.again n), outer) else none
  | .atom r, _ => some (f.add r, outer)
  | .repeated least most, _ =>
    if !isCount least most then none
    else match f.parts with
      | r :: rs => some ({ f with parts := repeated r least most :: rs }, outer)
      | [] => some (f, outer)
  | .opening, _ => some (.start next, f :: outer)
  | .closing, g :: outer =>
    some (g.add (if o.remembers then .group f.number f.finish else f.finish), outer)
  | .closing, [] => if o.extended then some (f.add (.char ')'), []) else none
  | .bar, _ => some ({ f with before := some f.finish, parts := [] }, outer)

def readFor (o : Spelling) : Nat → Option Sign → Nat → List Char → Frame → List Frame → Option Regex
  | _, _, _, [], f, [] => some f.finish
  | _, _, _, [], _, _ :: _ => none
  | 0, _, _, _ :: _, _, _ => none
  | fuel + 1, previous, next, c :: rest, f, outer => do
    let (s, after) ← sign? o.extended previous c rest
    let (f, outer) ← put o s next f outer
    readFor o fuel (some s) (if s matches .opening then next + 1 else next) after f outer

def refersBack : Regex → Bool
  | .again _ => true
  | .sequence a b | .either a b => a.refersBack || b.refersBack
  | .star r | .group _ r => r.refersBack
  | _ => false

def ofText? (extended : Bool) (cs : List Char) : Option Regex := do
  let r ← readFor ⟨extended, false⟩ cs.length none 1 cs (.start 0) []
  if r.refersBack then readFor ⟨extended, true⟩ cs.length none 1 cs (.start 0) [] else return r

end Regex

end TreeQuery.Shell
