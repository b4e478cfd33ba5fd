import TreeQuery.Pattern.Parser

/-!
# Queries

A query is a pattern with the text that stands for it.
-/

namespace TreeQuery

structure Query where
  source : List Char
  root : Pattern

namespace Query

/-- Reads a pattern text; `%1`, `%2`, … stand for the arguments. -/
def compile (source : List Char) (args : List Tree) : Except Pattern.Error Query :=
  (Pattern.Token.scan source).bind fun tokens =>
    (Pattern.Parser.parse args tokens).map fun root => ⟨source, root⟩

def ofPattern (root : Pattern) : Query := ⟨root.render, root⟩

def captures (q : Query) : Nat := q.root.captures

end Query

end TreeQuery
