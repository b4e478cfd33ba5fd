import TreeQuery.Text.Find
import TreeQuery.Text.Utf8

/-!
# Paths

A path is kept as it was written. Its segments are separated by slashes; empty segments and single
dots mean nothing, except that a leading dot stands for the working directory.
-/

namespace TreeQuery.File

structure Path where
  text : List Char
deriving DecidableEq, Repr

namespace Path

def segments (p : Path) : List (List Char) := Text.split '/' p.text

def isMeaningless (segment : List Char) : Bool := segment.isEmpty || segment = ['.']

def names (p : Path) : List (List Char) := p.segments.filter fun s => !isMeaningless s

def isAbsolute (p : Path) : Bool := p.text.head? == some '/'

/-- Nothing but a directory can be meant. -/
def endsInDirectory (p : Path) : Bool :=
  match p.segments.getLast? with
  | some last => isMeaningless last
  | none => false

/-- Drops meaningless segments at the end; the first segment stays, which is the root or the
working directory if it is meaningless. -/
def trimmed : List (List Char) → List (List Char)
  | [] => []
  | first :: rest => first :: (rest.reverse.dropWhile isMeaningless).reverse

/-- The last segment, unless it is no name of a file: a dot, two dots, or the root. -/
def fileName? (p : Path) : Option (List Char) :=
  match (trimmed p.segments).getLast? with
  | some name => if isMeaningless name || name = ['.', '.'] then none else some name
  | none => none

def join (p : Path) (name : List Char) : Path :=
  match p.text.getLast? with
  | none => ⟨name⟩
  | some '/' => ⟨p.text ++ name⟩
  | some _ => ⟨p.text ++ '/' :: name⟩

def parent (p : Path) : Path :=
  match trimmed (trimmed p.segments).dropLast with
  | [] => ⟨[]⟩
  | [[]] => ⟨['/']⟩
  | segments => ⟨Text.join ['/'] segments⟩

def sibling (p : Path) (name : List Char) : Path :=
  if p.fileName?.isSome then p.parent.join name else p.join name

def extension? (name : List Char) : Option (List Char) :=
  let after := name.reverse.takeWhile (· != '.')
  let before := name.reverse.dropWhile (· != '.')
  if before.length ≤ 1 then none else some after.reverse

end Path

end TreeQuery.File
