import TreeQuery.Tree

/-!
# Patterns

| text         | pattern                                                       |
|--------------|---------------------------------------------------------------|
| `_`          | any value that is present                                     |
| `...`        | a node with at least one child                                |
| `nil`        | an absent child or a `nil` leaf                               |
| `42`, `1.5`  | a number leaf                                                 |
| `"text"`     | a text leaf                                                   |
| `name`       | a node with that tag, or a symbol or text leaf of that text   |
| `(a b c)`    | `a` fits the node, the others fit its children in order       |
| `{a b}`      | some member fits                                              |
| `[a b]`      | every member fits                                             |
| `$p`         | `p`, and the value is captured                                |
| `!p`         | `p` does not fit                                              |
| `?p`         | nothing there, or `p`                                         |
| `^p`         | `p` fits some child node                                      |
| `\N`         | equal to capture `N` so far                                   |
| `%N`         | equal to argument `N`                                         |
-/

namespace TreeQuery

inductive Literal where
  | nil
  | int (n : Int64)
  | float (x : Binary64)
  | str (text : String)
  | sym (name : String)
  | value (t : Tree)
deriving Repr

namespace Literal

def same : Literal → Literal → Bool
  | .nil, .nil => true
  | .int m, .int n => m == n
  | .float x, .float y => x.same y
  | .str a, .str b => a == b
  | .sym a, .sym b => a == b
  | .value s, .value t => s.same t
  | _, _ => false

/-- The names that, written bare, are read as something else. -/
def needsColon (name : List Char) : Bool :=
  name = "nil".toList || name = ['_'] || (name.head?.map Char.isDigit).getD false

def render : Literal → List Char
  | .nil => "nil".toList
  | .int n => Number.decimalInt n.toInt
  | .float x => x.text
  | .str text => Text.Quoted.encode text.toList
  | .sym name => if needsColon name.toList then ':' :: name.toList else name.toList
  | .value t => t.render

end Literal

inductive Bracket where
  | round
  | square
  | curly
deriving DecidableEq, Repr

namespace Bracket

def opener : Bracket → Char
  | .round => '('
  | .square => '['
  | .curly => '{'

def closer : Bracket → Char
  | .round => ')'
  | .square => ']'
  | .curly => '}'

end Bracket

inductive Pattern where
  | wildcard
  | nonempty
  | literal (l : Literal)
  | sequence (members : List Pattern)
  | union (members : List Pattern)
  | every (members : List Pattern)
  | capture (p : Pattern)
  | negation (p : Pattern)
  | optional (p : Pattern)
  | child (p : Pattern)
  | backref (n : Nat)
deriving Repr

namespace Pattern

def group : Bracket → List Pattern → Pattern
  | .round => .sequence
  | .square => .every
  | .curly => .union

mutual
def same : Pattern → Pattern → Bool
  | .wildcard, .wildcard => true
  | .nonempty, .nonempty => true
  | .literal a, .literal b => a.same b
  | .sequence ps, .sequence qs => sameList ps qs
  | .union ps, .union qs => sameList ps qs
  | .every ps, .every qs => sameList ps qs
  | .capture p, .capture q => same p q
  | .negation p, .negation q => same p q
  | .optional p, .optional q => same p q
  | .child p, .child q => same p q
  | .backref m, .backref n => m == n
  | _, _ => false
def sameList : List Pattern → List Pattern → Bool
  | [], [] => true
  | p :: ps, q :: qs => same p q && sameList ps qs
  | _, _ => false
end

mutual
def captures : Pattern → Nat
  | .wildcard | .nonempty | .literal _ | .backref _ => 0
  | .sequence ps | .union ps | .every ps => capturesList ps
  | .capture p => captures p + 1
  | .negation p | .optional p | .child p => captures p
def capturesList : List Pattern → Nat
  | [] => 0
  | p :: ps => captures p + capturesList ps
end

def bracketed (b : Bracket) (members : List (List Char)) : List Char :=
  b.opener :: (List.intersperse [' '] members).flatten ++ [b.closer]

mutual
def render : Pattern → List Char
  | .wildcard => ['_']
  | .nonempty => ['.', '.', '.']
  | .literal l => l.render
  | .sequence ps => bracketed .round (renderList ps)
  | .union ps => bracketed .curly (renderList ps)
  | .every ps => bracketed .square (renderList ps)
  | .capture p => '$' :: render p
  | .negation p => '!' :: render p
  | .optional p => '?' :: render p
  | .child p => '^' :: render p
  | .backref n => '\\' :: Number.decimal n
def renderList : List Pattern → List (List Char)
  | [] => []
  | p :: ps => render p :: renderList ps
end

end Pattern

end TreeQuery
