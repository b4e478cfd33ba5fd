import TreeQuery.Number.Integer
import TreeQuery.Shell.Bytes
import TreeQuery.Shell.Options
import TreeQuery.Shell.Regex

/-!
# Programs that pass lines on

Each reads files, or the standard input, and prints part of what it has read: the first or the last
lines, the lines in order, each line once, some fields of every line, other characters, counts.
-/

namespace TreeQuery.Shell.Lines

/-- What is read for the operands: a name with a text or a failure for each. A dash, or no operand
at all, stands for the standard input. -/
structure Sources where
  texts : List (List Char × Except File.IoError (List Char))
  reads : Bool

namespace Sources

def ofOperands (fs : File.System) (operands : List (List Char)) (input : List Char) : Sources :=
  let paths := if operands.isEmpty then [['-']] else operands
  ⟨paths.map fun p => (p, if p = ['-'] then .ok input else readBytes fs p), paths.contains ['-']⟩

def all (s : Sources) : List Char := s.texts.flatMap fun (_, r) => r.toOption.getD []

def allLines (s : Sources) : List (List Char) :=
  s.texts.flatMap fun (_, r) => lines (r.toOption.getD [])

def complaints (s : Sources) (program : String) : List Char :=
  s.texts.flatMap fun (p, r) =>
    match r with
    | .error e => complaint program p e
    | .ok _ => []

def isBroken (s : Sources) : Bool := s.texts.any fun (_, r) => r matches .error _

def effect (s : Sources) (fs : File.System) (program : String) (output : List Char) : Effect :=
  ⟨if s.isBroken then 1 else 0, output, s.complaints program, fs, some 0, s.reads⟩

end Sources

def guarded (name : String) (table : OptionTable) (status : Nat)
    (body : File.System → Words → List Char → Effect) : Program := fun fs args input =>
  match table.read? true args with
  | some w => body fs w input
  | none => .fail fs status name "invalid option"

def cat : Program :=
  guarded "cat" ⟨"AbeEnstTuv", "", [("number", 'n', .nothing)]⟩ 1 fun fs w input =>
    let s := Sources.ofOperands fs w.operands input
    let text := s.all
    let numbered (i : Nat) (line : List Char) : List Char :=
      let n := Number.decimal (i + 1)
      List.replicate (6 - n.length) ' ' ++ n ++ '\t' :: line
    s.effect fs "cat" (if w.has 'n' then unlines ((lines text).mapIdx numbered) else text)

-- ---------------------------------------------------------------------------
-- First and last lines
-- ---------------------------------------------------------------------------

/-- Words in which a count behind a dash stands for itself are made options. -/
def withCount (args : List (List Char)) : List (List Char) :=
  match args with
  | ('-' :: c :: cs) :: rest =>
    if (c :: cs).all Char.isDigit then ['-', 'n'] :: (c :: cs) :: rest else args
  | _ => args

def countTable : OptionTable where
  flags := "qvzf"
  valued := "nc"
  names := [("lines", 'n', .value), ("bytes", 'c', .value), ("quiet", 'q', .nothing),
    ("silent", 'q', .nothing), ("verbose", 'v', .nothing)]

def pieces (text : List Char) : List (List Char) :=
  let ls := lines text
  ls.mapIdx fun i l => if i + 1 = ls.length && text.getLast? != some '\n' then l else l ++ ['\n']

def sections (program : String) (fs : File.System) (w : Words) (input : List Char)
    (part : List Char → List Char) : Effect :=
  let s := Sources.ofOperands fs w.operands input
  let several := (1 < s.texts.length && !w.has 'q') || w.has 'v'
  let good := s.texts.filterMap fun (p, r) => r.toOption.map fun text => (p, text)
  let name (p : List Char) : List Char := if p = ['-'] then "standard input".toList else p
  let printed := good.mapIdx fun i (p, text) =>
    if several then
      (if i = 0 then [] else ['\n']) ++ "==> ".toList ++ name p ++ " <==\n".toList ++ part text
    else part text
  s.effect fs program printed.flatten

def head : Program := fun fs args input =>
  guarded "head" countTable 1 (fun fs w input =>
    let take (units : List Char → List (List Char)) (value : List Char) (text : List Char) :
        Option (List Char) :=
      match value with
      | '-' :: ds => (Number.digits? ds).map fun n =>
        ((units text).take ((units text).length - n)).flatten
      | ds => (Number.digits? ds).map fun n => ((units text).take n).flatten
    let part (text : List Char) : Option (List Char) :=
      match w.value? 'c' with
      | some value => take (·.map fun c => [c]) value text
      | none => take pieces ((w.value? 'n').getD ['1', '0']) text
    if (part []).isNone then .fail fs 1 "head" "invalid number of lines"
    else sections "head" fs w input fun text => (part text).getD []) fs (withCount args) input

def tail : Program := fun fs args input =>
  guarded "tail" countTable 1 (fun fs w input =>
    let take (units : List Char → List (List Char)) (value : List Char) (text : List Char) :
        Option (List Char) :=
      match value with
      | '+' :: ds => (Number.digits? ds).map fun n => ((units text).drop (n - 1)).flatten
      | '-' :: ds | ds => (Number.digits? ds).map fun n =>
        ((units text).drop ((units text).length - n)).flatten
    let part (text : List Char) : Option (List Char) :=
      match w.value? 'c' with
      | some value => take (·.map fun c => [c]) value text
      | none => take pieces ((w.value? 'n').getD ['1', '0']) text
    if (part []).isNone then .fail fs 1 "tail" "invalid number of lines"
    else sections "tail" fs w input fun text => (part text).getD []) fs (withCount args) input

-- ---------------------------------------------------------------------------
-- Counting
-- ---------------------------------------------------------------------------

def isBlank (c : Char) : Bool := c == ' ' || ('\t' ≤ c && c ≤ '\r')

def wordsOf (text : List Char) : List (List Char) :=
  (Text.split ' ' (text.map fun c => if isBlank c then ' ' else c)).filter (!·.isEmpty)

def padded (width : Nat) (cs : List Char) : List Char :=
  List.replicate (width - cs.length) ' ' ++ cs

def countsOf (w : Words) (text : List Char) : List Nat :=
  let all := !(w.has 'l' || w.has 'w' || w.has 'c' || w.has 'm' || w.has 'L')
  let longest := ((lines text).map List.length).foldl max 0
  (if all || w.has 'l' then [text.count '\n'] else []) ++
    (if all || w.has 'w' then [(wordsOf text).length] else []) ++
    (if w.has 'm' then [text.length] else []) ++
    (if all || w.has 'c' then [text.length] else []) ++
    (if w.has 'L' then [longest] else [])

def wc : Program :=
  guarded "wc" ⟨"lwcmL", "", [("lines", 'l', .nothing), ("words", 'w', .nothing),
    ("bytes", 'c', .nothing), ("chars", 'm', .nothing)]⟩ 1 fun fs w input =>
    let s := Sources.ofOperands fs w.operands input
    let good := s.texts.filterMap fun (p, r) => r.toOption.map fun text => (p, text)
    let single := (countsOf w []).length == 1 && s.texts.length == 1
    let width :=
      if single then 1
      else if s.reads then 7
      else (Number.decimal s.all.length).length
    let row (counts : List Nat) (name : List Char) : List Char :=
      Text.join [' '] (counts.map fun n => padded width (Number.decimal n)) ++
        (if name.isEmpty then [] else ' ' :: name) ++ ['\n']
    let rows := good.map fun (p, text) =>
      row (countsOf w text) (if w.operands.isEmpty then [] else p)
    let total := if 1 < s.texts.length then row (countsOf w s.all) "total".toList else []
    s.effect fs "wc" (rows.flatten ++ total)

-- ---------------------------------------------------------------------------
-- Order and repetition
-- ---------------------------------------------------------------------------

def leadingNumber (line : List Char) : Int :=
  match line.dropWhile isBlank with
  | '-' :: rest => -(Number.ofDigits (rest.takeWhile Char.isDigit) : Int)
  | rest => Number.ofDigits (rest.takeWhile Char.isDigit)

/-- The fields of a line: between separators, or runs of other characters with the blanks before
them. -/
def fieldsFor (separator : Option Char) : Nat → List Char → List (List Char)
  | 0, _ => []
  | fuel + 1, line =>
    match separator with
    | some c => Text.split c line
    | none =>
      let blanks := line.takeWhile isBlank
      let word := (line.drop blanks.length).takeWhile (!isBlank ·)
      if word.isEmpty then if blanks.isEmpty then [] else [blanks]
      else (blanks ++ word) :: fieldsFor separator fuel (line.drop (blanks.length + word.length))

structure Key where
  first : Nat
  last : Option Nat
  letters : List Char

def Key.ofText? (cs : List Char) : Option Key := do
  let part := cs.takeWhile (· != ',')
  let number (part : List Char) : Option Nat := Number.digits? (part.takeWhile Char.isDigit)
  let letters (part : List Char) : List Char := part.filter Char.isAlpha
  let first ← number part
  match cs.drop part.length with
  | [] => return ⟨first, none, letters part⟩
  | _ :: rest => return ⟨first, some (← number rest), letters part ++ letters rest⟩

def Key.of (k : Key) (separator : Option Char) (line : List Char) : List Char :=
  let fields := fieldsFor separator (line.length + 1) line
  let fields := match k.last with
    | some n => fields.take n
    | none => fields
  Text.join separator.toList (fields.drop (k.first - 1))

def compareBy (letters : List Char) (a b : List Char) : Ordering :=
  let key (l : List Char) : List Char :=
    let l := if letters.contains 'b' then l.dropWhile isBlank else l
    let l := if letters.contains 'd' then l.filter fun c => c.isAlphanum || isBlank c else l
    if letters.contains 'f' then l.map Char.toUpper else l
  let order :=
    if letters.contains 'n' then compare (leadingNumber a) (leadingNumber b)
    else if key a = key b then .eq
    else if Text.precedes (key a) (key b) then .lt
    else .gt
  if letters.contains 'r' then order.swap else order

def lineOrder (w : Words) (keys : List Key) (a b : List Char) : Ordering :=
  let separator := (w.value? 't').bind List.head?
  let global := (w.options.map (·.letter)).filter fun c => "bdfnr".toList.contains c
  let byKey (k : Key) : Ordering :=
    let letters := if k.letters.isEmpty then global else k.letters
    compareBy letters (k.of separator a) (k.of separator b)
  if keys.isEmpty then compareBy global a b
  else keys.foldl (fun o k => o.then (byKey k)) .eq

def lastResort (w : Words) (order : Ordering) (a b : List Char) : Bool :=
  match order with
  | .lt => true
  | .gt => false
  | .eq =>
    if w.has 's' || w.has 'u' then true
    else if w.has 'r' then Text.precedes b a
    else Text.precedes a b

def withoutRepeats (same : List Char → List Char → Bool) : List (List Char) → List (List Char)
  | [] => []
  | l :: ls => l :: withoutRepeats same (ls.dropWhile (same l))
termination_by ls => ls.length
decreasing_by
  simp only [List.length_cons]
  exact Nat.lt_succ_of_le (List.dropWhile_suffix _).length_le

def sort : Program :=
  guarded "sort" ⟨"bcCdfghimMnrRsuVz", "kotS", [("reverse", 'r', .nothing),
    ("unique", 'u', .nothing), ("numeric-sort", 'n', .nothing), ("output", 'o', .value),
    ("check", 'c', .nothing), ("ignore-case", 'f', .nothing), ("stable", 's', .nothing),
    ("key", 'k', .value), ("field-separator", 't', .value)]⟩ 2 fun fs w input =>
    let s := Sources.ofOperands fs w.operands input
    match ((w.options.filter (·.letter == 'k')).mapM fun g => Key.ofText? g.value) with
    | none => .fail fs 2 "sort" "invalid key"
    | some keys =>
    let order := lineOrder w keys
    let sorted := s.allLines.mergeSort fun a b => lastResort w (order a b) a b
    let same (a b : List Char) : Bool := order a b == .eq
    let result := if w.has 'u' then withoutRepeats same sorted else sorted
    if s.isBroken then { s.effect fs "sort" [] with status := 2 }
    else if w.has 'c' || w.has 'C' then .ofBool fs (result == s.allLines)
    else match w.value? 'o' with
      | none => s.effect fs "sort" (unlines result)
      | some path =>
        match fs.edit (toPath path) (File.Entry.write (toContents (unlines result))) with
        | .ok fs => s.effect fs "sort" []
        | .error e => { Effect.exit fs 2 with errors := complaint "sort" path e }

def runs (same : List Char → List Char → Bool) : List (List Char) → List (Nat × List Char)
  | [] => []
  | l :: ls => ((ls.takeWhile (same l)).length + 1, l) :: runs same (ls.dropWhile (same l))
termination_by ls => ls.length
decreasing_by
  simp only [List.length_cons]
  exact Nat.lt_succ_of_le (List.dropWhile_suffix _).length_le

def uniq : Program :=
  guarded "uniq" ⟨"cdiuDz", "fsw", [("count", 'c', .nothing), ("repeated", 'd', .nothing),
    ("unique", 'u', .nothing), ("ignore-case", 'i', .nothing)]⟩ 1 fun fs w input =>
    let s := Sources.ofOperands fs (w.operands.take 1) input
    let same (a b : List Char) : Bool :=
      if w.has 'i' then a.map Char.toLower == b.map Char.toLower else a == b
    let found := (runs same (lines s.all)).filter fun (n, _) =>
      (!w.has 'd' || 1 < n) && (!w.has 'u' || n == 1)
    s.effect fs "uniq" (unlines (found.map fun (n, l) =>
      if w.has 'c' then padded 7 (Number.decimal n) ++ ' ' :: l else l))

-- ---------------------------------------------------------------------------
-- Parts of lines
-- ---------------------------------------------------------------------------

def ranges? (cs : List Char) : Option (List (Nat × Option Nat)) :=
  (Text.split ',' cs).mapM fun part =>
    let low := part.takeWhile (· != '-')
    match part.drop low.length with
    | [] => (Number.digits? low).map fun n => (n, some n)
    | _ :: high =>
      if low.isEmpty && high.isEmpty then none
      else match (if low.isEmpty then some 1 else Number.digits? low),
          (if high.isEmpty then some none else (Number.digits? high).map some) with
        | some a, some b => some (a, b)
        | _, _ => none

def inRange (rs : List (Nat × Option Nat)) (n : Nat) : Bool :=
  rs.any fun (low, high) => low ≤ n && high.all (n ≤ ·)

def atPlaces (rs : List (Nat × Option Nat)) (xs : List α) : List α :=
  ((xs.mapIdx fun i x => (i + 1, x)).filter fun (n, _) => inRange rs n).map (·.2)

def cut : Program :=
  guarded "cut" ⟨"nsz", "bcdf", [("fields", 'f', .value), ("characters", 'c', .value),
    ("bytes", 'b', .value), ("delimiter", 'd', .value), ("only-delimited", 's', .nothing)]⟩ 1
  fun fs w input =>
    let s := Sources.ofOperands fs w.operands input
    let delimiter := ((w.value? 'd').bind List.head?).getD '\t'
    if (w.value? 'd').any (1 < ·.length) then
      .fail fs 1 "cut" "the delimiter must be a single character"
    else match (w.value? 'f').bind ranges?, ((w.value? 'c').or (w.value? 'b')).bind ranges? with
    | some rs, none =>
      let field (l : List Char) : List (List Char) :=
        if !l.contains delimiter then if w.has 's' then [] else [l]
        else [Text.join [delimiter] (atPlaces rs (Text.split delimiter l))]
      s.effect fs "cut" (unlines (s.allLines.flatMap field))
    | none, some rs => s.effect fs "cut" (unlines (s.allLines.map (atPlaces rs)))
    | _, _ => .fail fs 1 "cut" "you must specify a list of bytes, characters, or fields"

-- ---------------------------------------------------------------------------
-- Other characters
-- ---------------------------------------------------------------------------

def escapedChar (c : Char) : Char :=
  match c with
  | 'n' => '\n'
  | 't' => '\t'
  | 'r' => '\r'
  | 'f' => '\x0c'
  | 'v' => '\x0b'
  | 'a' => '\x07'
  | 'b' => '\x08'
  | '0' => '\x00'
  | _ => c

def charsBetween (low high : Char) : List Char :=
  (List.range (high.toNat + 1 - low.toNat)).map fun i => Char.ofNat (low.toNat + i)

def setOf : Nat → List Char → List Char
  | 0, _ => []
  | _, [] => []
  | fuel + 1, '[' :: ':' :: rest =>
    let name := rest.takeWhile (· != ':')
    match Regex.classRanges? name with
    | some rs =>
      rs.flatMap (fun (a, b) => charsBetween a b) ++ setOf fuel (rest.drop (name.length + 2))
    | none => '[' :: setOf fuel (':' :: rest)
  | fuel + 1, '\\' :: c :: rest => escapedChar c :: setOf fuel rest
  | fuel + 1, low :: '-' :: high :: rest => charsBetween low high ++ setOf fuel rest
  | fuel + 1, c :: rest => c :: setOf fuel rest

/-- The character at the same place of another set, whose last one stands for all that follow. -/
def mapped (old new : List Char) (c : Char) : Char :=
  match old.findIdx? (· == c) with
  | some i => (new[i]?).getD (new.getLast?.getD c)
  | none => c

def squeezed (set : List Char) : List Char → List Char
  | a :: b :: rest =>
    if a = b && set.contains a then squeezed set (b :: rest) else a :: squeezed set (b :: rest)
  | cs => cs

def tr : Program :=
  guarded "tr" ⟨"cCdst", "", [("delete", 'd', .nothing), ("squeeze-repeats", 's', .nothing),
    ("complement", 'c', .nothing)]⟩ 1 fun fs w input =>
    let sets := w.operands.map fun cs => setOf (cs.length + 1) cs
    let complement (set : List Char) : List Char :=
      if w.has 'c' || w.has 'C' then (charsBetween '\x00' '\xff').filter (!set.contains ·) else set
    let reading (output : List Char) : Effect := { Effect.print fs output with reads := true }
    match sets with
    | [set] =>
      let set := complement set
      if w.has 'd' then reading (input.filter (!set.contains ·))
      else if w.has 's' then reading (squeezed set input)
      else .fail fs 1 "tr" "missing operand"
    | [old, new] =>
      let old := complement old
      if w.has 'd' then
        let kept := input.filter (!old.contains ·)
        reading (if w.has 's' then squeezed new kept else kept)
      else
        let changed := input.map (mapped old new)
        reading (if w.has 's' then squeezed new changed else changed)
    | _ => .fail fs 1 "tr" "missing operand"

-- ---------------------------------------------------------------------------
-- Numbers
-- ---------------------------------------------------------------------------

def integer? (cs : List Char) : Option Int := (Number.integer? cs).map (·.toInt)

def numbersUpTo (step last : Int) : Nat → Int → List Int
  | 0, _ => []
  | fuel + 1, n =>
    if (0 < step && last < n) || (step < 0 && n < last) then []
    else n :: numbersUpTo step last fuel (n + step)

def seq : Program := fun fs args _ =>
  match args.mapM integer? with
  | some (a :: rest) =>
    let (first, step, last) := match rest with
      | [] => (1, 1, a)
      | [b] => (a, 1, b)
      | b :: c :: _ => (a, b, c)
    if step = 0 || 3 < args.length then .fail fs 1 "seq" "invalid operand"
    else
      let count := ((last - first) / step).toNat + 1
      .print fs (unlines ((numbersUpTo step last count first).map Number.decimalInt))
  | _ => .fail fs 1 "seq" "invalid operand"

def tee : Program :=
  guarded "tee" ⟨"aip", "", [("append", 'a', .nothing)]⟩ 1 fun fs w input =>
    let write (state : File.System × List Char) (path : List Char) : File.System × List Char :=
      let (fs, errors) := state
      let before := if w.has 'a' then ((readBytes fs path).toOption).getD [] else []
      match fs.edit (toPath path) (File.Entry.write (toContents (before ++ input))) with
      | .ok fs => (fs, errors)
      | .error e => (fs, errors ++ complaint "tee" path e)
    let (fs, errors) := w.operands.foldl write (fs, [])
    ⟨if errors.isEmpty then 0 else 1, input, errors, fs, some 0, true⟩

end TreeQuery.Shell.Lines
