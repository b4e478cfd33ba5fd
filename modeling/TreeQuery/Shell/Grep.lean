import TreeQuery.Shell.Bytes
import TreeQuery.Shell.Options
import TreeQuery.Shell.Regex

/-!
# Searching lines

Selects the lines of files in which one of some patterns is found, and prints them, or the parts
that match, or how many there are, or the names of the files. It succeeds if a line is selected;
a file or a pattern that cannot be read makes it fail otherwise.
-/

namespace TreeQuery.Shell.Grep

def table : OptionTable where
  flags := "0123456789abcEFGHhIiLlnoPqRrsTUuVvwxyZz"
  valued := "ABCDdefm"
  names := [("basic-regexp", 'G', .nothing), ("extended-regexp", 'E', .nothing),
    ("fixed-regexp", 'F', .nothing), ("fixed-strings", 'F', .nothing),
    ("perl-regexp", 'P', .nothing), ("after-context", 'A', .value),
    ("before-context", 'B', .value), ("context", 'C', .value), ("group-separator", 'S', .value),
    ("no-group-separator", 'S', .nothing), ("binary-files", 'S', .value),
    ("line-buffered", 'U', .nothing), ("byte-offset", 'b', .nothing), ("count", 'c', .nothing),
    ("color", 'S', .perhaps), ("colour", 'S', .perhaps), ("directories", 'd', .value),
    ("devices", 'D', .value), ("exclude", 'X', .value), ("exclude-dir", 'S', .value),
    ("exclude-from", 'S', .value), ("file", 'f', .value), ("files-with-matches", 'l', .nothing),
    ("files-without-match", 'L', .nothing), ("help", 'V', .nothing), ("include", 'N', .value),
    ("ignore-case", 'i', .nothing), ("no-ignore-case", 'J', .nothing),
    ("initial-tab", 'T', .nothing), ("label", 'S', .value), ("line-number", 'n', .nothing),
    ("line-regexp", 'x', .nothing), ("max-count", 'm', .value), ("no-filename", 'h', .nothing),
    ("no-messages", 's', .nothing), ("null", 'Z', .nothing), ("null-data", 'z', .nothing),
    ("only-matching", 'o', .nothing), ("quiet", 'q', .nothing), ("recursive", 'r', .nothing),
    ("dereference-recursive", 'R', .nothing), ("regexp", 'e', .value),
    ("invert-match", 'v', .nothing), ("silent", 'q', .nothing), ("text", 'a', .nothing),
    ("binary", 'U', .nothing), ("version", 'V', .nothing), ("with-filename", 'H', .nothing),
    ("word-regexp", 'w', .nothing)]

inductive Spelling where
  | basic
  | extended
  | fixed
  | perl
deriving DecidableEq, Repr

def spellingOf? : Given → Option Spelling
  | ⟨'G', _⟩ => some .basic
  | ⟨'E', _⟩ => some .extended
  | ⟨'P', _⟩ => some .perl
  | ⟨'F', _⟩ => some .fixed
  | _ => none

def spelling? (options : List Given) : Option Spelling :=
  match options.filterMap spellingOf? with
  | [] => some .basic
  | s :: others => if others.all (· == s) then some s else none

def ignoresCase (options : List Given) : Bool :=
  options.foldl (fun b g =>
    match g.letter with
    | 'i' | 'y' => true
    | 'J' => false
    | _ => b) false

def patternsOf? (fs : File.System) (input : List Char) (options : List Given) :
    Option (List (List Char)) :=
  (options.mapM fun (g : Given) =>
    match g.letter with
    | 'e' => some (Text.split '\n' g.value)
    | 'f' =>
      if g.value = ['-'] then some (lines input)
      else (readBytes fs g.value).toOption.map lines
    | _ => some []).map List.flatten

def compile? (s : Spelling) (pattern : List Char) : Option Regex :=
  match s with
  | .basic => Regex.ofText? false pattern
  | .extended => Regex.ofText? true pattern
  | .fixed => some (Regex.literal pattern)
  | .perl => Regex.ofText? true (Text.replace ['\\', 'd'] "[0-9]".toList pattern)

structure Search where
  options : Words
  patterns : List Regex
  ignoreCase : Bool
  extent : Regex.Extent
  most : Option Nat

namespace Search

def has (s : Search) (letter : Char) : Bool := s.options.has letter

def ends (s : Search) (p : Regex.Place) : List Regex.Place :=
  s.patterns.flatMap fun r => r.endsWithin s.ignoreCase s.extent p

def selects (s : Search) (line : List Char) : Bool :=
  (s.patterns.any fun r => r.fitsLine s.ignoreCase s.extent line) != s.has 'v'

def linesOf (s : Search) (text : List Char) : List (List Char) :=
  if s.has 'z' then (Text.split '\x00' text).filter (!·.isEmpty) else lines text

def selected (s : Search) (text : List Char) : List (Nat × List Char) :=
  let found := ((s.linesOf text).mapIdx fun i line => (i + 1, line)).filter fun (_, line) =>
    s.selects line
  match s.most with
  | some n => found.take n
  | none => found

def printed (s : Search) (line : List Char) : List (List Char) :=
  if s.has 'o' then
    if s.has 'v' then [] else Regex.parts s.ends (line.length + 1) none line
  else [line]

def terminator (s : Search) : List Char := if s.has 'z' then ['\x00'] else ['\n']

/-- Lines around the selected ones: so many before and after. -/
def context (s : Search) : Nat × Nat :=
  let number (letter : Char) : Option Nat := (s.options.value? letter).bind Number.digits?
  let digits := (s.options.options.map (·.letter)).filter Char.isDigit
  let both := (number 'C').or (Number.digits? digits)
  (((number 'B').or both).getD 0, ((number 'A').or both).getD 0)

/-- The lines in which something is found and those around them; a line of dashes stands between
parts that are not next to each other. -/
def withContext (s : Search) (head : List Char) (text : List Char) : List Char :=
  let (before, after) := s.context
  let hits := (s.selected text).map (·.1)
  let all := (s.linesOf text).mapIdx fun i line => (i + 1, line)
  let shown := all.filter fun (n, _) => hits.any fun h => n ≤ h + after && h ≤ n + before
  let step (out : List Char × Option Nat) (entry : Nat × List Char) : List Char × Option Nat :=
    let (n, line) := entry
    let mark := if hits.contains n then ':' else '-'
    let gap := match out.2 with
      | some last => if last + 1 < n then "--\n".toList else []
      | none => []
    let number := if s.has 'n' then Number.decimal n ++ [mark] else []
    let name := if head.isEmpty then [] else head.dropLast ++ [mark]
    (out.1 ++ gap ++ name ++ number ++ line ++ s.terminator, some n)
  (shown.foldl step ([], none)).1

def report (s : Search) (name head text : List Char) : List Char :=
  let found := s.selected text
  if s.has 'q' then []
  else if s.has 'l' then if found.isEmpty then [] else name ++ ['\n']
  else if s.has 'L' then if found.isEmpty then name ++ ['\n'] else []
  else if s.has 'c' then head ++ Number.decimal found.length ++ ['\n']
  else if text.contains '\x00' && !s.has 'a' && !s.has 'z' then
    if found.isEmpty then [] else "Binary file ".toList ++ name ++ " matches\n".toList
  else if s.context != (0, 0) && !s.has 'o' then s.withContext head text
  else found.flatMap fun (n, line) =>
    let number := if s.has 'n' then Number.decimal n ++ [':'] else []
    let offset := if s.has 'b' then
        Number.decimal (((s.linesOf text).take (n - 1)).flatMap (· ++ ['\n'])).length ++ [':']
      else []
    (s.printed line).flatMap fun part => head ++ number ++ offset ++ part ++ s.terminator

end Search

def isLeftOut (options : Words) (name : List Char) : Bool :=
  options.value? 'X' == some name || (options.value? 'N').any (· != name)

mutual
def below (path : List Char) : File.Entry → List (List Char × List Char)
  | .file contents => [(path, ofContents contents)]
  | .directory l => belowIn path l
  | .program _ | .sink => []
def belowIn (path : List Char) : File.Listing → List (List Char × List Char)
  | .nil => []
  | .cons name e rest =>
    let inner := if path.isEmpty then encode name else path ++ '/' :: encode name
    below inner e ++ belowIn path rest
end

def textsOf (fs : File.System) (options : Words) (input path : List Char) :
    Except File.IoError (List (List Char × List Char)) :=
  if path = ['-'] then .ok [("(standard input)".toList, input)]
  else if options.has 'r' || options.has 'R' || options.value? 'd' == some "recurse".toList then
    (fs.entry (toPath path)).map (below path)
  else if options.value? 'd' == some "skip".toList && fs.isDirectory (toPath path) then .ok []
  else (readBytes fs path).map fun text => [(path, text)]

def search (fs : File.System) (s : Search) (paths : List (List Char)) (input : List Char) :
    Effect :=
  let recursive := s.has 'r' || s.has 'R'
  let paths :=
    if !paths.isEmpty then paths else if recursive then [['.']] else [['-']]
  let results := (paths.filter (!isLeftOut s.options ·)).map fun p =>
    (p, textsOf fs s.options input p)
  let texts := results.flatMap fun (_, r) => r.toOption.getD []
  let named := s.has 'H' || (!s.has 'h' &&
    (1 < paths.length || (recursive && paths.any fun p => fs.isDirectory (toPath p))))
  let hit := texts.any fun (_, text) => !(s.selected text).isEmpty
  let broken := results.any fun (_, r) => r matches .error _
  let complaints := results.flatMap fun (p, r) =>
    match r with
    | .error e => if s.has 's' then [] else complaint "grep" p e
    | .ok _ => []
  let output := texts.flatMap fun (name, text) =>
    s.report name (if named then name ++ [':'] else []) text
  let status := if hit && (s.has 'q' || !broken) then 0 else if broken then 2 else 1
  ⟨status, output, complaints, fs, some 0, paths.contains ['-']⟩

/-- The patterns and the files: without a pattern option the first operand is the pattern. -/
def run : Program := fun fs args input =>
  let words := table.read? true args
  match words, words.bind fun w => spelling? w.options with
  | none, _ => .fail fs 2 "grep" "invalid option"
  | _, none => .fail fs 2 "grep" "conflicting matchers specified"
  | some w, some spelling =>
    let isPattern (g : Given) : Bool := g.letter == 'e' || g.letter == 'f'
    let (options, paths) :=
      if w.options.any isPattern then (w.options, w.operands)
      else (w.options ++ (w.operands.take 1).map (Given.mk 'e'), w.operands.drop 1)
    let most := (w.value? 'm').map Number.digits?
    let counts := ['A', 'B', 'C'].filterMap w.value?
    if w.has 'V' then .exit fs 0
    else if !options.any isPattern || most == some none ||
        counts.any (fun n => (Number.digits? n).isNone) then
      .fail fs 2 "grep" "usage"
    else if most == some (some 0) then .exit fs 1
    else match (patternsOf? fs input options).bind (·.mapM (compile? spelling)) with
      | none => .fail fs 2 "grep" "invalid pattern"
      | some patterns =>
        let extent : Regex.Extent :=
          if w.has 'x' then .line else if w.has 'w' then .words else .part
        search fs ⟨w, patterns, ignoresCase options, extent, most.bind id⟩ paths input

end TreeQuery.Shell.Grep
