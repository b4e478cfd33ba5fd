import TreeQuery.Text.Utf8

/-!
# Walks over the bytes of a text

A walk stands at a byte offset of a text. It looks at single bytes, moves on by numbers of bytes,
and takes the text between two offsets, which comes out empty where one of them is no character
boundary. On its way it keeps a value of its own, and it records where it enters and leaves its
routines, which turns its loops make and which texts it takes.

A loop has a turn for each byte of the text and one more (`turns`). A walk that does not come to an
end with these has no result.
-/

namespace TreeQuery.Text

inductive Mark (ρ : Type) where
  | enter (r : ρ) (pos : Nat)
  | leave (r : ρ) (pos : Nat)
  /-- A turn of the loop of a routine, which goes on after it. -/
  | turn (r : ρ) (start stop : Nat)
  | take (text : List Char) (start stop : Nat)
deriving DecidableEq, Repr

/-- Where a walk is, with what it keeps and what it has recorded, the last mark first. -/
structure Cursor (ρ σ : Type) where
  pos : Nat
  store : σ
  marks : List (Mark ρ)
deriving DecidableEq, Repr

abbrev Walk (ρ σ α : Type) := StateT (Cursor ρ σ) Option α

def offsetsFrom (pos : Nat) : List Char → List (Nat × Char)
  | [] => []
  | c :: cs => (pos, c) :: offsetsFrom (pos + c.utf8Size) cs

/-- The offset of the first byte from `start` on that is no digit. -/
def digitsEnd (text : List Char) (start : Nat) : Nat :=
  match slice? start (width text) text with
  | none => start
  | some tail => start + (bytes tail).findIdx fun b => !(Char.ofUInt8 b).isDigit

namespace Walk

variable {ρ σ α : Type}

def position : Walk ρ σ Nat := return (← get).pos

def move (n : Nat) : Walk ρ σ Unit := modify fun c => { c with pos := c.pos + n }

def record (m : Mark ρ) : Walk ρ σ Unit := modify fun c => { c with marks := m :: c.marks }

abbrev within (r : ρ) (x : Walk ρ σ α) : Walk ρ σ α := do
  record (.enter r (← position))
  let a ← x
  record (.leave r (← position))
  return a

def turn (r : ρ) (start : Nat) : Walk ρ σ Unit := do record (.turn r start (← position))

def take (text : List Char) (start stop : Nat) : Walk ρ σ (List Char) := do
  record (.take text start stop)
  return (slice? start stop text).getD []

def peek (source : List Char) : Walk ρ σ (Option Char) :=
  return (bytes source)[(← position)]?.map Char.ofUInt8

def turns (source : List Char) : Nat := width source + 1

def endless : Walk ρ σ α := fun _ => none

def moveLoop (source : List Char) (f : Char → Bool) : Nat → Walk ρ σ Unit
  | 0 => endless
  | n + 1 => do
    if (← peek source).any f then
      move 1
      moveLoop source f n

def moveWhile (source : List Char) (f : Char → Bool) : Walk ρ σ Unit :=
  moveLoop source f (turns source)

end Walk

end TreeQuery.Text
