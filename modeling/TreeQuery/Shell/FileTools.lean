import TreeQuery.Shell.Lines

/-!
# Programs that change files

Each works through its operands in order and goes on after one that fails. What has been done up to
then stays done.
-/

namespace TreeQuery.Shell.FileTools

open File (System Entry IoError Path)
open Lines (guarded)

def forEach (program : String) (status : Nat) (operands : List (List Char)) (fs : System)
    (work : System → List Char → Except IoError System) : Effect :=
  operands.foldl (fun effect path =>
    match work effect.files path with
    | .ok fs => { effect with files := fs }
    | .error e =>
      { effect with status := status, errors := effect.errors ++ complaint program path e })
    (.exit fs 0)

def lacking (program : String) (fs : System) : Effect := .fail fs 1 program "missing operand"

-- ---------------------------------------------------------------------------
-- Removing
-- ---------------------------------------------------------------------------

def isDots (path : List Char) : Bool :=
  let segments := (Text.split '/' path).filter (!·.isEmpty)
  segments.getLast?.any fun s => s = ['.'] || s = ['.', '.']

def removeOne (w : Words) (fs : System) (path : List Char) : Except IoError System :=
  let recursive := w.has 'r' || w.has 'R'
  if isDots path then .error .invalid
  else match fs.entry (toPath path) with
    | .error e =>
      if w.has 'f' && (e = .notFound || e = .notDirectory) then .ok fs else .error e
    | .ok (.directory _) =>
      if recursive then fs.edit (toPath path) (Entry.place none)
      else if w.has 'd' then fs.edit (toPath path) Entry.removeDirectory
      else .error .isDirectory
    | .ok _ => fs.removeFile (toPath path)

def rm : Program :=
  guarded "rm" ⟨"dfiIrRv", "", [("force", 'f', .nothing), ("recursive", 'r', .nothing),
    ("dir", 'd', .nothing), ("verbose", 'v', .nothing)]⟩ 1 fun fs w _ =>
    if w.operands.isEmpty then if w.has 'f' then .exit fs 0 else lacking "rm" fs
    else forEach "rm" 1 w.operands fs (removeOne w)

def above (path : List Char) : Nat → List (List Char)
  | 0 => []
  | fuel + 1 =>
    let cut := (path.reverse.dropWhile (· == '/')).dropWhile (· != '/')
    let parent := (cut.dropWhile (· == '/')).reverse
    if parent.isEmpty then [] else parent :: above parent fuel

def rmdir : Program :=
  guarded "rmdir" ⟨"pv", "", [("parents", 'p', .nothing),
    ("ignore-fail-on-non-empty", 'i', .nothing)]⟩ 1 fun fs w _ =>
    let paths := w.operands.flatMap fun p => p :: (if w.has 'p' then above p p.length else [])
    if w.operands.isEmpty then lacking "rmdir" fs
    else forEach "rmdir" 1 paths fs fun fs path =>
      match fs.edit (toPath path) Entry.removeDirectory with
      | .error .notEmpty => if w.has 'i' then .ok fs else .error .notEmpty
      | r => r

-- ---------------------------------------------------------------------------
-- Making
-- ---------------------------------------------------------------------------

def ensureDirectory (fs : System) (path : List Char) : Except IoError System :=
  if fs.isDirectory (toPath path) then .ok fs else fs.edit (toPath path) Entry.makeDirectory

def mkdir : Program :=
  guarded "mkdir" ⟨"pv", "m", [("parents", 'p', .nothing), ("mode", 'm', .value)]⟩ 1 fun fs w _ =>
    if w.operands.isEmpty then lacking "mkdir" fs
    else forEach "mkdir" 1 w.operands fs fun fs path =>
      if w.has 'p' then ((above path path.length).reverse ++ [path]).foldlM ensureDirectory fs
      else fs.edit (toPath path) Entry.makeDirectory

def touch : Program :=
  guarded "touch" ⟨"acmh", "drt", [("no-create", 'c', .nothing), ("date", 'd', .value)]⟩ 1
  fun fs w _ =>
    if w.operands.isEmpty then lacking "touch" fs
    else forEach "touch" 1 w.operands fs fun fs path =>
      match fs.entry (toPath path) with
      | .ok _ => .ok fs
      | .error .notFound =>
        if w.has 'c' then .ok fs
        else if (toPath path).endsInDirectory then .error .notFound
        else fs.edit (toPath path) (Entry.write (.text []))
      | .error e => .error e

/-- Permissions are not kept, so they change for nothing but files that are not there. -/
def chmod : Program :=
  guarded "chmod" ⟨"cfRvrwx", "", [("recursive", 'R', .nothing)]⟩ 1 fun fs w _ =>
    if w.operands.length < 2 && !(w.has 'r' || w.has 'w' || w.has 'x') then lacking "chmod" fs
    else
      let paths := if w.has 'r' || w.has 'w' || w.has 'x' then w.operands else w.operands.drop 1
      forEach "chmod" 1 paths fs fun fs path => (fs.entry (toPath path)).map fun _ => fs

def mktemp : Program :=
  guarded "mktemp" ⟨"dqtu", "p", [("directory", 'd', .nothing)]⟩ 1 fun fs w _ =>
    let names := (List.range 1000).map fun i =>
      "/tmp/tmp.".toList ++ Number.decimal (1000000000 + i)
    match names.find? fun n => (fs.entry (toPath n)) matches .error _ with
    | none => .exit fs 1
    | some name =>
      let change := if w.has 'd' then Entry.makeDirectory else Entry.write (.text [])
      match fs.edit (toPath name) change with
      | .ok fs => .print fs (name ++ ['\n'])
      | .error _ => .exit fs 1

-- ---------------------------------------------------------------------------
-- Moving and copying
-- ---------------------------------------------------------------------------

def lastSegment (path : List Char) : List Char :=
  ((Text.split '/' path).filter (!·.isEmpty)).getLast?.getD []

def destination (fs : System) (exact : Bool) (target source : List Char) : List Char :=
  if !exact && fs.isDirectory (toPath target) then
    if target.getLast? == some '/' then target ++ lastSegment source
    else target ++ '/' :: lastSegment source
  else target

mutual
/-- A copy over what is there: directories are merged, and all else is replaced. -/
def merged : Entry → Option Entry → Entry
  | .directory l, some (.directory old) => .directory (mergedIn l old)
  | e, _ => e
def mergedIn : File.Listing → File.Listing → File.Listing
  | .nil, old => old
  | .cons name e rest, old => mergedIn rest (old.put name (merged e (old.find? name)))
end

/-- Puts an entry at a place; nothing but a directory may stand where a path ends in a slash, and
files and directories do not replace each other. -/
def placeAt (fs : System) (path : List Char) (new : Entry) : Except IoError System :=
  if (toPath path).endsInDirectory && !new.isDirectory then .error .notDirectory
  else fs.edit (toPath path) (Entry.alter fun old =>
    match old with
    | none => .ok (some new)
    | some .sink => .ok (some .sink)
    | some old =>
      if old.isDirectory == new.isDirectory then .ok (some (merged new (some old)))
      else if old.isDirectory then .error .isDirectory
      else .error .notDirectory)

def sameNames (fs : System) (a b : List Char) : Bool :=
  match fs.locate (toPath a), fs.locate (toPath b) with
  | .ok p, .ok q => p == q
  | _, _ => false

def copyOne (w : Words) (target : List Char) (fs : System) (source : List Char) :
    Except IoError System := do
  let e ← fs.entry (toPath source)
  let recursive := w.has 'r' || w.has 'R' || w.has 'a'
  let place := destination fs (w.has 'T') target source
  if e.isDirectory && !recursive then .error .isDirectory
  else if sameNames fs source place then .error .invalid
  else if w.has 'n' && (fs.entry (toPath place) matches .ok _) then .ok fs
  else
    let copy := match e with
      | .sink => Entry.file (.text [])
      | e => e
    placeAt fs place copy

def moveOne (w : Words) (target : List Char) (fs : System) (source : List Char) :
    Except IoError System := do
  let e ← fs.entry (toPath source)
  let place := destination fs (w.has 'T') target source
  let from' ← fs.locate (toPath source)
  if sameNames fs source place then .error .invalid
  else if w.has 'n' && (fs.entry (toPath place) matches .ok _) then .ok fs
  else
    match fs.locate (toPath place) with
    | .ok names => if e.isDirectory && from'.isPrefixOf names then throw .invalid
    | .error _ => pure ()
    match fs.entry (toPath place), e with
    | .ok (.directory l), .directory _ => if !l.isEmpty then throw .notEmpty
    | _, _ => pure ()
    let fs ← placeAt fs place e
    let root ← Entry.place none fs.root from'
    return { fs with root := root }

def transfer (program : String) (table : OptionTable)
    (work : Words → List Char → System → List Char → Except IoError System) : Program :=
  guarded program table 1 fun fs w _ =>
    let (sources, target) := match w.value? 't' with
      | some t => (w.operands, t)
      | none => (w.operands.dropLast, w.operands.getLast?.getD [])
    if sources.isEmpty then lacking program fs
    else if (1 < sources.length || w.has 't') && !fs.isDirectory (toPath target) then
      { Effect.exit fs 1 with errors := complaint program target .notDirectory }
    else forEach program 1 sources fs (work w target)

def cp : Program :=
  transfer "cp" ⟨"aAbdfHiLlnPprRsuvxT", "St", [("recursive", 'r', .nothing),
    ("archive", 'a', .nothing), ("force", 'f', .nothing), ("no-clobber", 'n', .nothing),
    ("target-directory", 't', .value), ("no-target-directory", 'T', .nothing),
    ("preserve", 'p', .perhaps), ("verbose", 'v', .nothing)]⟩ copyOne

def mv : Program :=
  transfer "mv" ⟨"bfinuvTZ", "St", [("force", 'f', .nothing), ("no-clobber", 'n', .nothing),
    ("target-directory", 't', .value), ("no-target-directory", 'T', .nothing),
    ("verbose", 'v', .nothing)]⟩ moveOne

-- ---------------------------------------------------------------------------
-- Looking
-- ---------------------------------------------------------------------------

def namesIn (w : Words) (l : File.Listing) : List (List Char) :=
  let names := (l.names.map encode).mergeSort Text.precedes
  if w.has 'a' then ['.'] :: ['.', '.'] :: names
  else if w.has 'A' then names
  else names.filter fun n => n.head? != some '.'

def ls : Program :=
  guarded "ls" ⟨"1aAdFpqrUv", "", [("all", 'a', .nothing), ("almost-all", 'A', .nothing),
    ("directory", 'd', .nothing), ("reverse", 'r', .nothing)]⟩ 2 fun fs w _ =>
    let operands := if w.operands.isEmpty then [['.']] else w.operands.mergeSort Text.precedes
    let found := operands.map fun p => (p, fs.entry (toPath p))
    let errors := found.flatMap fun (p, r) =>
      match r with
      | .error e => complaint "ls" p e
      | .ok _ => []
    let isListed (e : Entry) : Bool := e.isDirectory && !w.has 'd'
    let plain := found.filterMap fun (p, r) =>
      match r with
      | .ok e => if isListed e then none else some p
      | .error _ => none
    let listings := found.filterMap fun (p, r) =>
      match r with
      | .ok (.directory l) => if w.has 'd' then none else some (p, namesIn w l)
      | _ => none
    let ordered (names : List (List Char)) := if w.has 'r' then names.reverse else names
    let listed := listings.mapIdx fun i (p, names) =>
      let gap := if i = 0 && plain.isEmpty then [] else ['\n']
      let title := if 1 < operands.length then gap ++ p ++ [':', '\n'] else []
      title ++ unlines (ordered names)
    ⟨if errors.isEmpty then 0 else 2, unlines (ordered plain) ++ listed.flatten, errors, fs,
      some 0, false⟩

def compare (program : String) (table : OptionTable)
    (report : Words → List Char → List Char → List Char → List Char → List Char) : Program :=
  guarded program table 2 fun fs w input =>
    let text (p : List Char) : Except IoError (List Char) :=
      if p = ['-'] then .ok input else readBytes fs p
    match w.operands with
    | [a, b] =>
      match text a, text b with
      | .ok x, .ok y =>
        let output := if x == y then [] else report w a b x y
        ⟨if x == y then 0 else 1, output, [], fs, some 0, a = ['-'] || b = ['-']⟩
      | .error e, _ => { Effect.exit fs 2 with errors := complaint program a e }
      | _, .error e => { Effect.exit fs 2 with errors := complaint program b e }
    | _ => .fail fs 2 program "missing operand"

def difference? : List Char → List Char → Nat → Option Nat
  | a :: as, b :: bs, n => if a = b then difference? as bs (n + 1) else some n
  | _, _, _ => none

def cmp : Program :=
  compare "cmp" ⟨"bls", "in", [("silent", 's', .nothing), ("quiet", 's', .nothing)]⟩
    fun w a b x y =>
      match difference? x y 0 with
      | some n =>
        if w.has 's' then []
        else a ++ ' ' :: b ++ " differ: char ".toList ++ Number.decimal (n + 1) ++
          ", line ".toList ++ Number.decimal ((x.take n).count '\n' + 1) ++ ['\n']
      | none => []

def diff : Program :=
  compare "diff" ⟨"abBcdeEilnNpqrstTuwy", "CIU", [("brief", 'q', .nothing),
    ("unified", 'u', .perhaps)]⟩ fun _ a b _ _ =>
      "Files ".toList ++ a ++ " and ".toList ++ b ++ " differ\n".toList

end TreeQuery.Shell.FileTools
