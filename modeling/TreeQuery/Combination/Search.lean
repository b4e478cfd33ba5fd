import TreeQuery.Combination
import Std.Data.TreeSet

/-!
# Searching for a large accepted combination

The search proposes combinations in rounds and is told which ones pass. The first round tries
every occurrence alone, the second all that passed together. If they do not pass together, every
later round tries the unions of two units: a unit is a combination that passed and is not part of
one that passed later. The search ends with a round that has nothing new, with an accepted merge,
or with a round above the limit.
-/

namespace TreeQuery.Combination

structure Round where
  number : Nat
  candidates : List Combination
deriving DecidableEq

def Round.isEmpty (r : Round) : Bool := r.candidates.isEmpty

structure BudgetExceeded where
  round : Nat
  proposed : Nat
  limit : Nat
deriving DecidableEq, Repr

def BudgetExceeded.message (e : BudgetExceeded) : String :=
  s!"round {e.round} proposed {e.proposed} combinations, above the limit of {e.limit}"

structure Search where
  occurrences : Nat
  limit : Nat
  round : Nat
  accepted : List Combination
  rejected : List Combination
  /-- The units of the next round. -/
  active : List Combination
  finished : Bool

namespace Search

def start (occurrences limit : Nat) : Search := ⟨occurrences, limit, 0, [], [], [], false⟩

def isKnown (s : Search) (c : Combination) : Bool :=
  s.rejected.contains c || s.accepted.contains c

def singletons (s : Search) : List Combination :=
  (List.range s.occurrences).map fun i => Combination.singleton (i + 1)

/-- All units together, if there are two and they were not tried yet. -/
def merge (s : Search) : List Combination :=
  if s.active.length < 2 then []
  else
    let all := s.active.foldl Combination.union Combination.empty
    if s.isKnown all then [] else [all]

def unions : List Combination → List Combination
  | [] => []
  | c :: cs => cs.map c.union ++ unions cs

def known (s : Search) : Std.TreeSet (List Nat) :=
  (s.accepted ++ s.rejected).foldl (fun seen c => seen.insert c.indices) ∅

/-- Each combination that is neither in `seen` nor earlier in the list. -/
def fresh (seen : Std.TreeSet (List Nat)) (cs : List Combination) : List Combination :=
  (cs.foldl (fun (seen, found) c =>
    if seen.contains c.indices then (seen, found) else (seen.insert c.indices, c :: found))
    (seen, [])).2.reverse

def propose (s : Search) : Nat → List Combination
  | 1 => s.singletons
  | 2 => s.merge
  | _ => fresh s.known (unions s.active)

/-- The next round, and the search after it. A finished search answers with an empty round. -/
def next (s : Search) : Except BudgetExceeded Round × Search :=
  if s.finished then (.ok ⟨s.round, []⟩, s)
  else
    let number := s.round + 1
    let candidates := s.propose number
    if s.limit < candidates.length then
      (.error ⟨number, candidates.length, s.limit⟩, { s with round := number, finished := true })
    else
      (.ok ⟨number, candidates⟩, { s with round := number, finished := candidates.isEmpty })

def insertRejected (c : Combination) : List Combination → List Combination
  | [] => [c]
  | d :: ds =>
    if c.indices < d.indices then c :: d :: ds
    else if c = d then d :: ds
    else d :: insertRejected c ds

def record (s : Search) (c : Combination) (passed : Bool) : Search :=
  if !passed then { s with rejected := insertRejected c s.rejected }
  else
    let s := { s with accepted := s.accepted ++ [c] }
    match s.round with
    | 1 => { s with active := s.active ++ [c] }
    | 2 => { s with finished := true }
    | _ => { s with active := s.active.filter (fun unit => !unit.isSubset c) ++ [c] }

/-- The largest combination that passed, the latest one among equals. -/
def best? (s : Search) : Option Combination :=
  s.accepted.foldl (fun best c =>
    match best with
    | some b => if b.size ≤ c.size then some c else some b
    | none => some c) none

def recordAll (s : Search) (accepts : Combination → Bool) (cs : List Combination) : Search :=
  cs.foldl (fun s c => s.record c (accepts c)) s

/-- Drives a search for at most `fuel` rounds: the rounds up to the first that is empty or above
the limit, and the search after them. -/
def driveFor (accepts : Combination → Bool) :
    Nat → Search → List (Except BudgetExceeded Round) × Search
  | 0, s => ([], s)
  | fuel + 1, s =>
    match s.next with
    | (.error e, s) => ([.error e], s)
    | (.ok r, s) =>
      if r.isEmpty then ([.ok r], s)
      else
        let (rounds, s) := driveFor accepts fuel (s.recordAll accepts r.candidates)
        (.ok r :: rounds, s)

/-- No combination is tried twice, so `2 ^ n` rounds are enough for `n` occurrences. -/
def drive (accepts : Combination → Bool) (s : Search) :
    List (Except BudgetExceeded Round) × Search :=
  driveFor accepts (Nat.pow 2 s.occurrences + 2) s

end Search

structure Acceptance where
  maxSize : Option Nat
  forbidden : List Combination
  /-- If given, of the combinations with more than one member only these pass. -/
  only : Option (List Combination)

def Acceptance.admits (a : Acceptance) (c : Combination) : Bool :=
  a.maxSize.all (c.size ≤ ·) && a.forbidden.all (fun f => !f.isSubset c) &&
    a.only.all fun cs => c.size == 1 || cs.contains c

end TreeQuery.Combination
