import TreeQuery.Text.Utf8
import TreeQuery.Number.Integer

/-!
# Spans

A span is a half-open range of byte offsets into one source text.
-/

namespace TreeQuery

structure Span where
  start : Nat
  stop : Nat
  le : start ≤ stop := by omega
deriving DecidableEq, Repr

namespace Span

/-- The span between two offsets in either order. -/
def between (a b : Nat) : Span := ⟨min a b, max a b, by omega⟩

@[simp] theorem start_between (a n : Nat) : (between a (a + n)).start = a := by
  simp [between]

@[simp] theorem stop_between (a n : Nat) : (between a (a + n)).stop = a + n := by
  simp [between]

def point (n : Nat) : Span := ⟨n, n, Nat.le_refl n⟩

def length (s : Span) : Nat := s.stop - s.start

def isEmpty (s : Span) : Bool := s.start == s.stop

def text? (s : Span) (source : List Char) : Option (List Char) :=
  Text.slice? s.start s.stop source

def render (s : Span) : List Char :=
  Number.decimal s.start ++ '.' :: '.' :: Number.decimal s.stop

end Span

end TreeQuery
