import TreeQuery.Match.Trace

/-!
# Occurrences

A search goes through the nodes of a tree in pre-order. A node that fits is an occurrence, and
nothing is looked for below it. Occurrences are numbered from one.
-/

namespace TreeQuery

inductive Outcome where
  | noMatch
  | matched
  /-- A fit of a pattern with capture marks, though possibly nothing was captured. -/
  | captures (sites : List Site)

namespace Outcome

def isMatch : Outcome → Bool
  | .noMatch => false
  | _ => true

def sites : Outcome → List Site
  | .captures sites => sites
  | _ => []

end Outcome

structure Occurrence where
  site : Site
  outcome : Outcome
  index : Nat

namespace Occurrence

def tree (o : Occurrence) : Tree := o.site.tree

def capture? (o : Occurrence) (n : Nat) : Option Tree :=
  (Pattern.capture? o.outcome.sites n).map (·.tree)

end Occurrence

namespace Query

def matchSite (q : Query) (s : Site) : Outcome :=
  match q.root.judge (some s) [] with
  | none => .noMatch
  | some sites => if q.captures = 0 then .matched else .captures sites

def matchTree (q : Query) (t : Tree) : Outcome := q.matchSite (Site.root t)

def traceSite (q : Query) (s : Site) : List Event := q.root.trace 0 (some s) []

mutual
/-- The topmost nodes that fit, with their outcomes. -/
def hits (q : Query) (above : List Nat) : Tree → List (Site × Outcome)
  | .leaf .. => []
  | .node tag cs span =>
    let s : Site := ⟨above, .node tag cs span⟩
    let outcome := q.matchSite s
    if outcome.isMatch then [(s, outcome)] else hitsList q above 0 cs
def hitsList (q : Query) (above : List Nat) : Nat → List Tree → List (Site × Outcome)
  | _, [] => []
  | i, t :: ts => hits q (i :: above) t ++ hitsList q above (i + 1) ts
end

mutual
def searchTrace (q : Query) (above : List Nat) : Tree → List Event
  | .leaf .. => []
  | .node tag cs span =>
    let s : Site := ⟨above, .node tag cs span⟩
    q.traceSite s ++ if (q.matchSite s).isMatch then [] else searchTraceList q above 0 cs
def searchTraceList (q : Query) (above : List Nat) : Nat → List Tree → List Event
  | _, [] => []
  | i, t :: ts => searchTrace q (i :: above) t ++ searchTraceList q above (i + 1) ts
end

def numbered (found : List (Site × Outcome)) : List Occurrence :=
  found.zipIdx.map fun ((s, outcome), i) => ⟨s, outcome, i + 1⟩

def search (q : Query) (t : Tree) : List Occurrence := numbered (q.hits [] t)

mutual
def findFrom (q : Query) (above : List Nat) : Tree → Option Occurrence
  | .leaf .. => none
  | .node tag cs span =>
    let s : Site := ⟨above, .node tag cs span⟩
    let outcome := q.matchSite s
    if outcome.isMatch then some ⟨s, outcome, 1⟩ else findFromList q above 0 cs
def findFromList (q : Query) (above : List Nat) : Nat → List Tree → Option Occurrence
  | _, [] => none
  | i, t :: ts =>
    match findFrom q (i :: above) t with
    | some o => some o
    | none => findFromList q above (i + 1) ts
end

def findFirst (q : Query) (t : Tree) : Option Occurrence := q.findFrom [] t

/-- What an occurrence contributes to the values found: its captures, or itself if the pattern
has no capture marks. -/
def payload (o : Occurrence) : List Site :=
  match o.outcome with
  | .captures sites => sites
  | _ => [o.site]

def payloads (q : Query) (t : Tree) : List Site := (q.search t).flatMap payload

end Query

end TreeQuery
