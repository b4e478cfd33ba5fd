import TreeQuery.Fault

/-!
# Plans of edits

An edit replaces the text of a span; over an empty span it only inserts. A plan applies if every
span lies in the text on character boundaries and no two edits get in each other's way. At one
offset insertions come first, in the order in which they were planned.
-/

namespace TreeQuery

structure Edit where
  span : Span
  text : List Char
deriving DecidableEq

namespace Edit

def replace (span : Span) (text : List Char) : Edit := ⟨span, text⟩

def remove (span : Span) : Edit := ⟨span, []⟩

def insert (offset : Nat) (text : List Char) : Edit := ⟨Span.point offset, text⟩

def isInsertion (e : Edit) : Bool := e.span.isEmpty

def fits (source : List Char) (e : Edit) : Bool :=
  Text.isBoundary e.span.start source && Text.isBoundary e.span.stop source

/-- By offset, an insertion before a replacement that starts there. -/
def before (a b : Edit) : Bool :=
  a.span.start < b.span.start ||
    (a.span.start == b.span.start && (a.isInsertion || !b.isInsertion))

end Edit

structure Plan where
  edits : List Edit
deriving DecidableEq

namespace Plan

def empty : Plan := ⟨[]⟩

def push (p : Plan) (e : Edit) : Plan := ⟨p.edits ++ [e]⟩

def size (p : Plan) : Nat := p.edits.length

def isEmpty (p : Plan) : Bool := p.edits.isEmpty

/-- The edits in the order of the text; edits that compare equal keep their order. -/
def ordered (p : Plan) : List Edit := p.edits.mergeSort Edit.before

/-- The first two neighbours of which the second starts inside the first. -/
def clash? : List Edit → Option (Span × Span)
  | a :: b :: rest =>
    if b.span.start < a.span.stop then some (a.span, b.span) else clash? (b :: rest)
  | _ => none

/-- Splices ordered edits into the text that starts at the byte offset `pos`. -/
def splice (pos : Nat) (rest : List Char) : List Edit → List Char
  | [] => rest
  | e :: es =>
    let (kept, tail) := (Text.cut? (e.span.start - pos) rest).getD ([], rest)
    let (_, after) := (Text.cut? e.span.length tail).getD ([], tail)
    kept ++ e.text ++ splice e.span.stop after es

def apply (p : Plan) (source : List Char) : Except Fault (List Char) :=
  match p.edits.find? fun e => !e.fits source with
  | some e => .error (.outOfBounds e.span (Text.width source))
  | none =>
    match clash? p.ordered with
    | some (first, second) => .error (.overlap first second)
    | none => .ok (splice 0 source p.ordered)

end Plan

end TreeQuery
