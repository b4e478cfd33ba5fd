import TreeQuery.Text.Utf8

/-!
# Lines and columns

A position counts from one. Only the line feed ends a line, and a column counts characters. The
numbers are those of 32 bits, of which the largest stands for all that are beyond it.
-/

namespace TreeQuery.Text

structure Position where
  line : Nat
  column : Nat
deriving DecidableEq, Repr

namespace Position

def start : Position := ⟨1, 1⟩

def next (p : Position) (c : Char) : Position :=
  if c = '\n' then ⟨p.line + 1, 1⟩ else ⟨p.line, p.column + 1⟩

/-- The longest run of whole characters within `n` bytes. -/
def whole : Nat → List Char → List Char
  | _, [] => []
  | n, c :: cs => if c.utf8Size ≤ n then c :: whole (n - c.utf8Size) cs else []

def largest : Nat := 4294967295

def capped (p : Position) : Position := ⟨min p.line largest, min p.column largest⟩

/-- The position of a byte offset: of the character that the offset splits, of the end of the
text for an offset beyond it. -/
def ofOffset (source : List Char) (offset : Nat) : Position :=
  ((whole offset source).foldl next start).capped

end Position

end TreeQuery.Text
