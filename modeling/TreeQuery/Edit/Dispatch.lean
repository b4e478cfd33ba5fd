import TreeQuery.Pattern

/-!
# Tags that a pattern can fit

`Dispatch.ofPattern` reads off a pattern which tags a node has to have for the pattern to fit it.
A pass over a tree tries the pattern only on nodes that the dispatch admits.
-/

namespace TreeQuery

inductive Dispatch where
  | any
  | tags (names : List String)
deriving DecidableEq, Repr

namespace Dispatch

def insert (name : String) : List String → List String
  | [] => [name]
  | x :: xs =>
    if name < x then name :: x :: xs
    else if name = x then x :: xs
    else x :: insert name xs

def union (xs ys : List String) : List String := ys.foldl (fun names y => insert y names) xs

def join : Dispatch → Dispatch → Dispatch
  | .tags xs, .tags ys => .tags (union xs ys)
  | _, _ => .any

def meet : Dispatch → Dispatch → Dispatch
  | .any, d => d
  | d, .any => d
  | .tags xs, .tags ys => .tags (xs.filter ys.contains)

mutual
def ofPattern : Pattern → Dispatch
  | .sequence ps => ofHead ps
  | .literal (.sym name) => .tags [name]
  | .literal (.value (.node tag _ _)) => .tags [tag]
  | .literal _ => .tags []
  | .capture p | .optional p => ofPattern p
  | .union ps => ofUnion ps
  | .every ps => ofEvery ps
  | .wildcard | .nonempty | .negation _ | .child _ | .backref _ => .any
def ofHead : List Pattern → Dispatch
  | [] => .any
  | p :: _ => ofPattern p
def ofUnion : List Pattern → Dispatch
  | [] => .tags []
  | p :: ps => join (ofPattern p) (ofUnion ps)
def ofEvery : List Pattern → Dispatch
  | [] => .any
  | p :: ps => meet (ofPattern p) (ofEvery ps)
end

def admits : Dispatch → String → Bool
  | .any, _ => true
  | .tags names, tag => names.contains tag

/-- The tags in increasing order, or `none` if any tag may fit. -/
def names? : Dispatch → Option (List String)
  | .any => none
  | .tags names => some names

end Dispatch

end TreeQuery
