import TreeQuery.Query
import TreeQuery.Tree.Site

/-!
# Matching

`judge p target captures` decides whether a pattern fits a target and returns the captures after
it: the given ones and the new ones behind them. A failed alternative returns nothing, so it
leaves no captures. The target `none` is a child position past the end of a node.
-/

namespace TreeQuery

abbrev Target := Option Site

namespace Target

/-- A missing child or a `nil` leaf. -/
def isAbsent : Target → Bool
  | none => true
  | some s => s.tree.isNil

def isInhabited : Target → Bool
  | none => false
  | some s => !s.tree.children.isEmpty

end Target

namespace Literal

def fitsScalar : Literal → Scalar → Bool
  | .sym name, .sym text => name == text
  | .sym name, .str text => name == text
  | .str name, .str text => name == text
  | .int m, .int n => m == n
  | .float x, .float y => x == y
  | _, _ => false

/-- A bound argument is compared as a tree; a float literal is compared bit by bit. -/
def fits : Literal → Target → Bool
  | .nil, target => target.isAbsent
  | _, none => false
  | .value t, some s => s.tree.same t
  | .sym name, some ⟨_, .node tag _ _⟩ => tag == name
  | _, some ⟨_, .node ..⟩ => false
  | l, some ⟨_, .leaf a _⟩ => l.fitsScalar a

end Literal

namespace Pattern

def keep (condition : Bool) (captures : List Site) : Option (List Site) :=
  if condition then some captures else none

@[simp] theorem keep_eq_some_iff {condition : Bool} {captures after : List Site} :
    keep condition captures = some after ↔ condition = true ∧ captures = after := by
  cases condition <;> simp [keep]

def capture? (captures : List Site) (n : Nat) : Option Site :=
  if n = 0 then none else captures[n - 1]?

def isRepeat (n : Nat) (captures : List Site) (target : Target) : Bool :=
  match capture? captures n, target with
  | some c, some s => s.tree.same c.tree
  | _, _ => false

mutual
def judge : Pattern → Target → List Site → Option (List Site)
  | .wildcard, target, captures => keep (!target.isAbsent) captures
  | .nonempty, target, captures => keep target.isInhabited captures
  | .literal l, target, captures => keep (l.fits target) captures
  | .sequence ps, target, captures =>
    match target with
    | some s => if s.tree.isNode then judgeForm ps s captures else none
    | none => none
  | .union ps, target, captures => judgeSome ps target captures
  | .every ps, target, captures => judgeEvery ps target captures
  | .capture p, target, captures =>
    -- the value stands before what was captured inside it
    (judge p target captures).map fun after =>
      captures ++ target.toList ++ after.drop captures.length
  | .negation p, target, captures => keep (judge p target captures).isNone captures
  | .optional p, target, captures =>
    if target.isAbsent then some captures else judge p target captures
  | .child p, target, captures =>
    match target with
    | some s => (s.children.filter (·.tree.isNode)).findSome? fun c => judge p (some c) captures
    | none => none
  | .backref n, target, captures => keep (isRepeat n captures target) captures
def judgeForm : List Pattern → Site → List Site → Option (List Site)
  | [], _, captures => some captures
  | p :: ps, s, captures => (judge p (some s) captures).bind fun after =>
    judgeChildren ps s.children after
/-- One member for one child. Here `...` only asks for one more child. -/
def judgeChildren : List Pattern → List Site → List Site → Option (List Site)
  | [], _, captures => some captures
  | .nonempty :: ps, cs, captures =>
    if cs.isEmpty then none else judgeChildren ps cs.tail captures
  | p :: ps, cs, captures => (judge p cs.head? captures).bind fun after =>
    judgeChildren ps cs.tail after
def judgeSome : List Pattern → Target → List Site → Option (List Site)
  | [], _, _ => none
  | p :: ps, target, captures =>
    match judge p target captures with
    | some after => some after
    | none => judgeSome ps target captures
def judgeEvery : List Pattern → Target → List Site → Option (List Site)
  | [], _, captures => some captures
  | p :: ps, target, captures => (judge p target captures).bind fun after =>
    judgeEvery ps target after
end

theorem judgeSome_cons (p : Pattern) (ps : List Pattern) (target : Target) (captures : List Site) :
    judgeSome (p :: ps) target captures =
      (judge p target captures).or (judgeSome ps target captures) := by
  rw [judgeSome]
  cases judge p target captures <;> rfl

end Pattern

end TreeQuery
