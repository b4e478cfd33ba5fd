import TreeQuery.Match.Trace

/-!
# Matching under observation

An attempt reports that it begins, then judges, and reports its verdict; what it has to try for the
verdict reports one deeper. So the verdict, the captures and the events come from one evaluation.
-/

namespace TreeQuery.Pattern

/-- The captures behind a success, and what has been reported. -/
abbrev Observed := Option (List Site) × List Event

namespace Observed

def silent (result : Option (List Site)) : Observed := (result, [])

def enclose (depth : Nat) (p : Pattern) (target : Target) (o : Observed) : Observed :=
  (o.1, .enter depth p target :: o.2 ++ [.exit depth p target o.1.isSome])

def andThen (o : Observed) (next : List Site → Observed) : Observed :=
  match o with
  | (some after, events) => ((next after).1, events ++ (next after).2)
  | (none, events) => (none, events)

def orElse (o next : Observed) : Observed :=
  match o with
  | (some after, events) => (some after, events)
  | (none, events) => (next.1, events ++ next.2)

def first (observe : Site → Observed) : List Site → Observed
  | [] => silent none
  | c :: cs => (observe c).orElse (first observe cs)

/-- Another result from the same evaluation. -/
def change (f : Option (List Site) → Option (List Site)) (o : Observed) : Observed := (f o.1, o.2)

end Observed

open Observed

mutual
def observe (depth : Nat) : Pattern → Target → List Site → Observed
  | p@(.wildcard), target, captures =>
    enclose depth p target (silent (keep (!target.isAbsent) captures))
  | p@(.nonempty), target, captures =>
    enclose depth p target (silent (keep target.isInhabited captures))
  | p@(.literal l), target, captures =>
    enclose depth p target (silent (keep (l.fits target) captures))
  | p@(.backref n), target, captures =>
    enclose depth p target (silent (keep (isRepeat n captures target) captures))
  | p@(.sequence ps), target, captures =>
    enclose depth p target <|
      match target with
      | some s => if s.tree.isNode then observeForm (depth + 1) ps s captures else silent none
      | none => silent none
  | p@(.union ps), target, captures =>
    enclose depth p target (observeSome (depth + 1) ps target captures)
  | p@(.every ps), target, captures =>
    enclose depth p target (observeEvery (depth + 1) ps target captures)
  | p@(.capture q), target, captures =>
    enclose depth p target <| (observe (depth + 1) q target captures).change
      (·.map fun after => captures ++ target.toList ++ after.drop captures.length)
  | p@(.negation q), target, captures =>
    enclose depth p target <| (observe (depth + 1) q target captures).change
      fun result => keep result.isNone captures
  | p@(.optional q), target, captures =>
    enclose depth p target <|
      if target.isAbsent then silent (some captures) else observe (depth + 1) q target captures
  | p@(.child q), target, captures =>
    enclose depth p target <|
      match target with
      | some s => first (fun c => observe (depth + 1) q (some c) captures)
          (s.children.filter (·.tree.isNode))
      | none => silent none
def observeForm (depth : Nat) : List Pattern → Site → List Site → Observed
  | [], _, captures => silent (some captures)
  | p :: ps, s, captures =>
    (observe depth p (some s) captures).andThen (observeChildren depth ps s.children)
def observeChildren (depth : Nat) : List Pattern → List Site → List Site → Observed
  | [], _, captures => silent (some captures)
  | .nonempty :: ps, cs, captures =>
    if cs.isEmpty then silent none else observeChildren depth ps cs.tail captures
  | p :: ps, cs, captures =>
    (observe depth p cs.head? captures).andThen (observeChildren depth ps cs.tail)
def observeSome (depth : Nat) : List Pattern → Target → List Site → Observed
  | [], _, _ => silent none
  | p :: ps, target, captures =>
    (observe depth p target captures).orElse (observeSome depth ps target captures)
def observeEvery (depth : Nat) : List Pattern → Target → List Site → Observed
  | [], _, captures => silent (some captures)
  | p :: ps, target, captures =>
    (observe depth p target captures).andThen (observeEvery depth ps target)
end

end TreeQuery.Pattern
