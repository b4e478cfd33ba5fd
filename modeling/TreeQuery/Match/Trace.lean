import TreeQuery.Match.Judge

/-!
# Traces of matching

Every pattern that is tried on a target opens with an `enter` and closes with an `exit` that
carries the verdict; between them stand the events of what had to be tried to reach it, one
deeper. A `...` that only asks for one more child leaves no events.
-/

namespace TreeQuery

inductive Event where
  | enter (depth : Nat) (p : Pattern) (target : Target)
  | exit (depth : Nat) (p : Pattern) (target : Target) (matched : Bool)

namespace Event

def isEnter : Event → Bool
  | .enter .. => true
  | .exit .. => false

/-- The tag and the verdict of an attempt that no other attempt encloses. -/
def attempt? : Event → Option (String × Bool)
  | .exit 0 _ target matched => some ((target.bind (·.tree.tag?)).getD "", matched)
  | _ => none

end Event

def evaluations (events : List Event) : Nat := (events.filter Event.isEnter).length

def attempts (events : List Event) : List (String × Bool) := events.filterMap Event.attempt?

namespace Pattern

def around (depth : Nat) (p : Pattern) (target : Target) (captures : List Site)
    (inner : List Event) : List Event :=
  .enter depth p target :: inner ++ [.exit depth p target (judge p target captures).isSome]

def upToFirst (events : Site → List Event) (fits : Site → Bool) : List Site → List Event
  | [] => []
  | c :: cs => events c ++ if fits c then [] else upToFirst events fits cs

mutual
def trace (depth : Nat) : Pattern → Target → List Site → List Event
  | p@(.wildcard), target, captures => around depth p target captures []
  | p@(.nonempty), target, captures => around depth p target captures []
  | p@(.literal _), target, captures => around depth p target captures []
  | p@(.backref _), target, captures => around depth p target captures []
  | p@(.sequence ps), target, captures =>
    around depth p target captures <|
      match target with
      | some s => if s.tree.isNode then traceForm (depth + 1) ps s captures else []
      | none => []
  | p@(.union ps), target, captures =>
    around depth p target captures (traceSome (depth + 1) ps target captures)
  | p@(.every ps), target, captures =>
    around depth p target captures (traceEvery (depth + 1) ps target captures)
  | p@(.capture q), target, captures =>
    around depth p target captures (trace (depth + 1) q target captures)
  | p@(.negation q), target, captures =>
    around depth p target captures (trace (depth + 1) q target captures)
  | p@(.optional q), target, captures =>
    around depth p target captures <|
      if target.isAbsent then [] else trace (depth + 1) q target captures
  | p@(.child q), target, captures =>
    around depth p target captures <|
      match target with
      | some s => upToFirst (fun c => trace (depth + 1) q (some c) captures)
          (fun c => (judge q (some c) captures).isSome) (s.children.filter (·.tree.isNode))
      | none => []
def traceForm (depth : Nat) : List Pattern → Site → List Site → List Event
  | [], _, _ => []
  | p :: ps, s, captures =>
    trace depth p (some s) captures ++
      match judge p (some s) captures with
      | some after => traceChildren depth ps s.children after
      | none => []
def traceChildren (depth : Nat) : List Pattern → List Site → List Site → List Event
  | [], _, _ => []
  | .nonempty :: ps, cs, captures =>
    if cs.isEmpty then [] else traceChildren depth ps cs.tail captures
  | p :: ps, cs, captures =>
    trace depth p cs.head? captures ++
      match judge p cs.head? captures with
      | some after => traceChildren depth ps cs.tail after
      | none => []
def traceSome (depth : Nat) : List Pattern → Target → List Site → List Event
  | [], _, _ => []
  | p :: ps, target, captures =>
    trace depth p target captures ++
      match judge p target captures with
      | some _ => []
      | none => traceSome depth ps target captures
def traceEvery (depth : Nat) : List Pattern → Target → List Site → List Event
  | [], _, _ => []
  | p :: ps, target, captures =>
    trace depth p target captures ++
      match judge p target captures with
      | some after => traceEvery depth ps target after
      | none => []
end

end Pattern

end TreeQuery
