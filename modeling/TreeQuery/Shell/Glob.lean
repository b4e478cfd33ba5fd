import TreeQuery.Shell.Bytes
import TreeQuery.Shell.Regex

/-!
# Wildcards

A pattern of characters, of which those that are not quoted may stand for others: a question mark
for any one, a star for any number of them, a set in brackets for one of its members. In a path a
wildcard never stands for a slash, nor for a dot at the start of a name.
-/

namespace TreeQuery.Shell.Glob

abbrev Mark := Char × Bool

inductive Sign where
  | char (c : Char)
  | one
  | many
  | set (negated : Bool) (ranges : List (Char × Char))

def membersFor : Nat → List Mark → Option (List (Char × Char) × List Mark)
  | 0, _ => none
  | _, [] => none
  | fuel + 1, (c, quoted) :: rest =>
    if c = ']' && !quoted then some ([], rest)
    else if c = '[' && !quoted && rest.head? == some (':', false) then
      let name := (rest.tail.takeWhile (·.1 != ':')).map (·.1)
      match Regex.classRanges? name with
      | some rs =>
        (membersFor fuel (rest.drop (name.length + 3))).map fun (more, rest) => (rs ++ more, rest)
      | none => (membersFor fuel rest).map fun (more, rest) => ((c, c) :: more, rest)
    else match rest with
      | ('-', false) :: (high, highQuoted) :: after =>
        if high = ']' && !highQuoted then
          (membersFor fuel rest).map fun (more, rest) => ((c, c) :: more, rest)
        else (membersFor fuel after).map fun (more, rest) => ((c, high) :: more, rest)
      | _ => (membersFor fuel rest).map fun (more, rest) => ((c, c) :: more, rest)

/-- A set behind its opening bracket; a closing bracket that comes first is a member. -/
def set? (ms : List Mark) : Option (Sign × List Mark) :=
  let (negated, ms) := match ms with
    | ('!', false) :: rest | ('^', false) :: rest => (true, rest)
    | _ => (false, ms)
  let (first, ms) := match ms with
    | (']', false) :: rest => ([(']', ']')], rest)
    | _ => ([], ms)
  (membersFor (ms.length + 1) ms).map fun (rs, rest) => (.set negated (first ++ rs), rest)

def signsFor : Nat → List Mark → List Sign
  | 0, _ => []
  | _, [] => []
  | fuel + 1, (c, quoted) :: rest =>
    if quoted then .char c :: signsFor fuel rest
    else match c with
      | '?' => .one :: signsFor fuel rest
      | '*' => .many :: signsFor fuel rest
      | '[' =>
        match set? rest with
        | some (s, rest) => s :: signsFor fuel rest
        | none => .char c :: signsFor fuel rest
      | '\\' =>
        match rest with
        | (d, _) :: rest => .char d :: signsFor fuel rest
        | [] => [.char c]
      | _ => .char c :: signsFor fuel rest

def signs (ms : List Mark) : List Sign := signsFor (ms.length + 1) ms

def tails : List Char → List (List Char)
  | [] => [[]]
  | c :: cs => (c :: cs) :: tails cs

def fits : List Sign → List Char → Bool
  | [], cs => cs.isEmpty
  | .char d :: rest, c :: cs => c == d && fits rest cs
  | .one :: rest, _ :: cs => fits rest cs
  | .set negated ranges :: rest, c :: cs => Regex.inRanges ranges c != negated && fits rest cs
  | .many :: rest, cs => (tails cs).any (fits rest)
  | _ :: _, [] => false

def isWild (ms : List Mark) : Bool :=
  (signs ms).any fun s => !(s matches .char _)

-- ---------------------------------------------------------------------------
-- What is cut off
-- ---------------------------------------------------------------------------

def withoutStart (longest : Bool) (s : List Sign) (cs : List Char) : List Char :=
  let lengths := List.range (cs.length + 1)
  let lengths := if longest then lengths.reverse else lengths
  match lengths.find? fun n => fits s (cs.take n) with
  | some n => cs.drop n
  | none => cs

def withoutEnd (longest : Bool) (s : List Sign) (cs : List Char) : List Char :=
  let lengths := List.range (cs.length + 1)
  let lengths := if longest then lengths else lengths.reverse
  match lengths.find? fun n => fits s (cs.drop n) with
  | some n => cs.take n
  | none => cs

-- ---------------------------------------------------------------------------
-- Paths
-- ---------------------------------------------------------------------------

def namesIn (fs : File.System) (path : List Char) : List (List Char) :=
  match fs.entry (toPath (if path.isEmpty then ['.'] else path)) with
  | .ok (.directory l) => (['.'] :: ['.', '.'] :: l.names.map encode).mergeSort Text.precedes
  | _ => []

def segments (ms : List Mark) : List (List Mark) :=
  ms.foldr (fun m (acc : List (List Mark)) =>
    if m.1 = '/' then [] :: acc
    else match acc with
      | [] => [[m]]
      | s :: rest => (m :: s) :: rest) [[]]

def fitsName (s : List Sign) (name : List Char) : Bool :=
  fits s name && (name.head? != some '.' || (s.head? matches some (.char '.')))

def pathsFor (fs : File.System) (found : List Char) : List (List Mark) → List (List Char)
  | [] => [found]
  | segment :: rest =>
    let put (name : List Char) : List Char :=
      found ++ name ++ (if rest.isEmpty then [] else ['/'])
    if isWild segment then
      ((namesIn fs found).filter (fitsName (signs segment))).flatMap fun name =>
        pathsFor fs (put name) rest
    else pathsFor fs (put (segment.map (·.1))) rest

/-- The paths that a word stands for, in order; the word itself if there are none. -/
def paths (fs : File.System) (ms : List Mark) : List (List Char) :=
  let plain := ms.map (·.1)
  if !isWild ms then [plain]
  else
    match (pathsFor fs [] (segments ms)).filter fun p => (fs.entry (toPath p)) matches .ok _ with
    | [] => [plain]
    | found => found

end TreeQuery.Shell.Glob
