import TreeQuery.Number.Decimal
import TreeQuery.Span
import TreeQuery.Text.Quoted

/-!
# Syntax trees

A node has a tag and ordered children, a leaf a scalar; both may know where in a source text they
stand. Spans never take part in comparison: `same` looks at tags, shapes and scalars only, and
compares floating-point leaves as numbers.
-/

namespace TreeQuery

inductive Scalar where
  | int (n : Int64)
  | float (x : Binary64)
  | str (text : String)
  | sym (name : String)
  | nil
deriving DecidableEq, Repr

namespace Scalar

def same : Scalar → Scalar → Bool
  | .int m, .int n => m == n
  | .float x, .float y => x.same y
  | .str a, .str b => a == b
  | .sym a, .sym b => a == b
  | .nil, .nil => true
  | _, _ => false

@[simp] theorem same_int (m n : Int64) : (int m).same (int n) = (m == n) := rfl

@[simp] theorem same_float (x y : Binary64) : (float x).same (float y) = x.same y := rfl

@[simp] theorem same_str (a b : String) : (str a).same (str b) = (a == b) := rfl

@[simp] theorem same_sym (a b : String) : (sym a).same (sym b) = (a == b) := rfl

def render : Scalar → List Char
  | .int n => Number.decimalInt n.toInt
  | .float x => x.text
  | .str text => Text.Quoted.encode text.toList
  | .sym name => ':' :: name.toList
  | .nil => "nil".toList

end Scalar

inductive Tree where
  | leaf (scalar : Scalar) (span : Option Span)
  | node (tag : String) (children : List Tree) (span : Option Span)
deriving Repr

namespace Tree

def span : Tree → Option Span
  | .leaf _ s => s
  | .node _ _ s => s

def isNode : Tree → Bool
  | .leaf .. => false
  | .node .. => true

def tag? : Tree → Option String
  | .leaf .. => none
  | .node tag _ _ => some tag

def children : Tree → List Tree
  | .leaf .. => []
  | .node _ cs _ => cs

def isNil : Tree → Bool
  | .leaf .nil _ => true
  | _ => false

mutual
def same : Tree → Tree → Bool
  | .leaf a _, .leaf b _ => a.same b
  | .node s as _, .node t bs _ => s == t && sameList as bs
  | _, _ => false
def sameList : List Tree → List Tree → Bool
  | [], [] => true
  | a :: as, b :: bs => same a b && sameList as bs
  | _, _ => false
end

mutual
/-- The parenthesised text, one space before every child. -/
def render : Tree → List Char
  | .leaf a _ => a.render
  | .node tag cs _ => '(' :: tag.toList ++ renderList cs ++ [')']
def renderList : List Tree → List Char
  | [] => []
  | c :: cs => ' ' :: render c ++ renderList cs
end

mutual
def count : Tree → Nat
  | .leaf .. => 0
  | .node _ cs _ => countList cs + 1
def countList : List Tree → Nat
  | [] => 0
  | c :: cs => count c + countList cs
end

mutual
def bare : Tree → Tree
  | .leaf a _ => .leaf a none
  | .node tag cs _ => .node tag (bareList cs) none
def bareList : List Tree → List Tree
  | [] => []
  | c :: cs => bare c :: bareList cs
end

/-- The text that a tree occupies in its source, its rendering where it has no place there. -/
def textIn (source : List Char) (t : Tree) : List Char :=
  (t.span.bind (·.text? source)).getD t.render

end Tree

end TreeQuery
