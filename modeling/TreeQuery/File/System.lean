import TreeQuery.File.Path

/-!
# Files and directories

Directories hold files and directories under names. A path is resolved name by name, from the root
or from the working directory; two dots go back to the directory before, and at the root stay
there. Every change is made by `Entry.alter`, which replaces what one list of names leads to.
-/

namespace TreeQuery.File

inductive IoError where
  | notFound
  | denied
  | exists
  | notDirectory
  | isDirectory
  | invalid
  | nameTooLong
  | notEmpty
  | notText
  | nulInPath
  | nulInWord
deriving DecidableEq, Repr

namespace IoError

def number? : IoError → Option Nat
  | .notFound => some 2
  | .denied => some 13
  | .exists => some 17
  | .notDirectory => some 20
  | .isDirectory => some 21
  | .invalid => some 22
  | .nameTooLong => some 36
  | .notEmpty => some 39
  | .notText | .nulInPath | .nulInWord => none

def text : IoError → String
  | .notFound => "No such file or directory"
  | .denied => "Permission denied"
  | .exists => "File exists"
  | .notDirectory => "Not a directory"
  | .isDirectory => "Is a directory"
  | .invalid => "Invalid argument"
  | .nameTooLong => "File name too long"
  | .notEmpty => "Directory not empty"
  | .notText => "stream did not contain valid UTF-8"
  | .nulInPath => "file name contained an unexpected NUL byte"
  | .nulInWord => "nul byte found in provided data"

def message (e : IoError) : String :=
  match e.number? with
  | some n => e.text ++ " (os error " ++ toString n ++ ")"
  | none => e.text

end IoError

inductive Contents where
  | text (cs : List Char)
  | binary (bytes : List UInt8)
deriving DecidableEq, Repr

abbrev Name := List Char

mutual
inductive Entry where
  | file (contents : Contents)
  | directory (entries : Listing)
  | program (name : Name)
  /-- A device that takes whatever is written and is always empty. -/
  | sink
inductive Listing where
  | nil
  | cons (name : Name) (entry : Entry) (rest : Listing)
end

namespace Listing

def find? (name : Name) : Listing → Option Entry
  | .nil => none
  | .cons n e rest => if n = name then some e else rest.find? name

def put (name : Name) (entry : Entry) : Listing → Listing
  | .nil => .cons name entry .nil
  | .cons n e rest => if n = name then .cons n entry rest else .cons n e (rest.put name entry)

def erase (name : Name) : Listing → Listing
  | .nil => .nil
  | .cons n e rest => if n = name then rest.erase name else .cons n e (rest.erase name)

def set (name : Name) : Option Entry → Listing → Listing
  | some entry, l => l.put name entry
  | none, l => l.erase name

def names : Listing → List Name
  | .nil => []
  | .cons n _ rest => n :: rest.names

def isEmpty : Listing → Bool
  | .nil => true
  | .cons .. => false

def ofNames (names : List Name) (entry : Name → Entry) : Listing :=
  names.foldr (fun n l => .cons n (entry n) l) .nil

theorem find?_put_self (l : Listing) (name : Name) (e : Entry) :
    (l.put name e).find? name = some e := by
  fun_induction put name e l <;> simp_all [find?]

theorem find?_put_of_ne (l : Listing) {name other : Name} (e : Entry) (h : other ≠ name) :
    (l.put name e).find? other = l.find? other := by
  fun_induction put name e l <;> simp_all [find?, Ne.symm]

end Listing

namespace Entry

def isDirectory : Entry → Bool
  | .directory _ => true
  | _ => false

def find (e : Entry) : List Name → Except IoError Entry
  | [] => .ok e
  | name :: names =>
    match e with
    | .directory l =>
      if 255 < Text.width name then .error .nameTooLong
      else match l.find? name with
        | none => .error .notFound
        | some e => e.find names
    | _ => .error .notDirectory

/-- Replaces what a list of names leads to. The change is told what is there and says what shall
be there. -/
def alter (change : Option Entry → Except IoError (Option Entry)) (e : Entry) :
    List Name → Except IoError Entry
  | [] => (change (some e)).map (·.getD e)
  | name :: names =>
    match e with
    | .directory l =>
      if 255 < Text.width name then .error .nameTooLong
      else match names, l.find? name with
        | [], found => (change found).map fun new => .directory (l.set name new)
        | _ :: _, none => .error .notFound
        | _ :: _, some inner => (inner.alter change names).map fun e => .directory (l.put name e)
    | _ => .error .notDirectory

def write (contents : Contents) : Entry → List Name → Except IoError Entry :=
  alter fun
    | some (.directory _) => .error .isDirectory
    | some .sink => .ok (some .sink)
    | _ => .ok (some (.file contents))

def remove : Entry → List Name → Except IoError Entry :=
  alter fun
    | some (.directory _) => .error .isDirectory
    | some _ => .ok none
    | none => .error .notFound

def makeDirectory : Entry → List Name → Except IoError Entry :=
  alter fun
    | none => .ok (some (.directory .nil))
    | some _ => .error .exists

def removeDirectory : Entry → List Name → Except IoError Entry :=
  alter fun
    | some (.directory l) => if l.isEmpty then .ok none else .error .notEmpty
    | some _ => .error .notDirectory
    | none => .error .notFound

def place (new : Option Entry) : Entry → List Name → Except IoError Entry := alter fun _ => .ok new

mutual
def files (before : List Name) : Entry → List (List Name × Contents)
  | .file contents => [(before, contents)]
  | .directory l => filesIn before l
  | .program _ | .sink => []
def filesIn (before : List Name) : Listing → List (List Name × Contents)
  | .nil => []
  | .cons name e rest => files (before ++ [name]) e ++ filesIn before rest
end

end Entry

structure System where
  root : Entry
  /-- The names that lead from the root to the working directory. -/
  here : List Name

namespace System

def empty : System := ⟨.directory .nil, []⟩

def isUp (name : Name) : Bool := name = ['.', '.']

/-- Follows names from a directory, given by its names from the root. -/
def follow (s : System) (done : List Name) : List Name → Except IoError (List Name)
  | [] => .ok done
  | name :: names =>
    match s.root.find done with
    | .error e => .error e
    | .ok (.directory _) => s.follow (if isUp name then done.dropLast else done ++ [name]) names
    | .ok _ => .error .notDirectory

def origin (s : System) (p : Path) : List Name := if p.isAbsolute then [] else s.here

/-- The names from the root that a path stands for. What they lead to need not exist. -/
def locate (s : System) (p : Path) : Except IoError (List Name) :=
  if p.text.contains '\x00' then .error .nulInPath
  else if p.text.isEmpty then .error .notFound
  else if 4096 ≤ Text.width p.text then .error .nameTooLong
  else (s.follow (s.origin p) p.names).bind fun names =>
    if p.endsInDirectory then
      match s.root.find names with
      | .ok (.directory _) | .error _ => .ok names
      | .ok _ => .error .notDirectory
    else .ok names

def entry (s : System) (p : Path) : Except IoError Entry :=
  (s.locate p).bind s.root.find

def isDirectory (s : System) (p : Path) : Bool :=
  match s.entry p with
  | .ok (.directory _) => true
  | _ => false

def isFile (s : System) (p : Path) : Bool :=
  match s.entry p with
  | .ok (.file _) | .ok (.program _) => true
  | _ => false

def readText (s : System) (p : Path) : Except IoError (List Char) :=
  match s.entry p with
  | .error e => .error e
  | .ok (.directory _) => .error .isDirectory
  | .ok (.file (.binary _)) | .ok (.program _) => .error .notText
  | .ok (.file (.text cs)) => .ok cs
  | .ok .sink => .ok []

def edit (s : System) (p : Path) (change : Entry → List Name → Except IoError Entry) :
    Except IoError System :=
  (s.locate p).bind fun names => (change s.root names).map fun root => { s with root := root }

def writeText (s : System) (p : Path) (cs : List Char) : Except IoError System :=
  (s.locate p).bind fun names =>
    if p.endsInDirectory then .error .isDirectory
    else (s.root.write (.text cs) names).map fun root => { s with root := root }

def removeFile (s : System) (p : Path) : Except IoError System := s.edit p Entry.remove

/-- Goes into a directory, which is made if nothing is there. -/
def enter (place : System × List Name) (name : Name) : System × List Name :=
  let (s, done) := place
  if isUp name then (s, done.dropLast)
  else match s.root.makeDirectory (done ++ [name]) with
    | .ok root => ({ s with root := root }, done ++ [name])
    | .error _ => (s, done ++ [name])

def put (s : System) (p : Path) (contents : Contents) : System :=
  let (s, place) := p.names.dropLast.foldl enter (s, s.origin p)
  match p.names.getLast? with
  | none => s
  | some name =>
    match s.root.write contents (place ++ [name]) with
    | .ok root => { s with root := root }
    | .error _ => s

def withFiles (s : System) (files : List (Path × Contents)) : System :=
  files.foldl (fun s (p, contents) => s.put p contents) s

def files (s : System) : List (Path × Contents) :=
  match s.root.find s.here with
  | .ok e => (e.files []).map fun (names, contents) => (⟨Text.join ['/'] names⟩, contents)
  | .error _ => []

end System

end TreeQuery.File
