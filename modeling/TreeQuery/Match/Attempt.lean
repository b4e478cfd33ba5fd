import TreeQuery.Match.Judge

/-!
# Matching on one list of captures

An attempt is handed a list of captures, which it may change, and answers whether the pattern fits.
Where an alternative may fail, it works on a copy, and the copy takes the place of the list only if
the alternative fits. A negation works on a copy that is thrown away.
-/

namespace TreeQuery.Pattern

/-- The verdict, and the list of captures as it is left. -/
abbrev Attempt := List Site → Bool × List Site

namespace Attempt

/-- The attempt on a copy, which is kept if it succeeds. -/
def onCopy (a : Attempt) : Attempt := fun captures =>
  match a captures with
  | (true, copy) => (true, copy)
  | (false, _) => (false, captures)

def andThen (a b : Attempt) : Attempt := fun captures =>
  match a captures with
  | (true, left) => b left
  | (false, left) => (false, left)

def orElse (a b : Attempt) : Attempt := fun captures =>
  match a captures with
  | (true, left) => (true, left)
  | (false, left) => b left

def test (condition : List Site → Bool) : Attempt := fun captures => (condition captures, captures)

def first : List Attempt → Attempt
  | [] => .test fun _ => false
  | a :: as => a.orElse (first as)

end Attempt

mutual
def attempt : Pattern → Target → Attempt
  | .wildcard, target => .test fun _ => !target.isAbsent
  | .nonempty, target => .test fun _ => target.isInhabited
  | .literal l, target => .test fun _ => l.fits target
  | .sequence ps, target =>
    match target with
    | some s => if s.tree.isNode then (attemptForm ps s).onCopy else .test fun _ => false
    | none => .test fun _ => false
  | .union ps, target => attemptSome ps target
  | .every ps, target => (attemptEvery ps target).onCopy
  | .capture p, target => fun captures =>
    match attempt p target captures with
    | (true, copy) =>
      -- what was captured inside is taken off the copy and put behind the value
      (true, captures ++ target.toList ++ copy.drop captures.length)
    | (false, _) => (false, captures)
  | .negation p, target => .test fun captures => !(attempt p target captures).1
  | .optional p, target =>
    if target.isAbsent then .test fun _ => true else (attempt p target).onCopy
  | .child p, target =>
    match target with
    | some s => .first <| (s.children.filter (·.tree.isNode)).map fun c =>
        (attempt p (some c)).onCopy
    | none => .test fun _ => false
  | .backref n, target => .test fun captures => isRepeat n captures target
def attemptForm : List Pattern → Site → Attempt
  | [], _ => .test fun _ => true
  | p :: ps, s => (attempt p (some s)).andThen (attemptChildren ps s.children)
def attemptChildren : List Pattern → List Site → Attempt
  | [], _ => .test fun _ => true
  | .nonempty :: ps, cs => (Attempt.test fun _ => !cs.isEmpty).andThen (attemptChildren ps cs.tail)
  | p :: ps, cs => (attempt p cs.head?).andThen (attemptChildren ps cs.tail)
def attemptSome : List Pattern → Target → Attempt
  | [], _ => .test fun _ => false
  | p :: ps, target => (attempt p target).onCopy.orElse (attemptSome ps target)
def attemptEvery : List Pattern → Target → Attempt
  | [], _ => .test fun _ => true
  | p :: ps, target => (attempt p target).andThen (attemptEvery ps target)
end

end TreeQuery.Pattern
