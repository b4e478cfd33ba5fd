import TreeQuery.Edit.Dispatch
import TreeQuery.Edit.Plan
import TreeQuery.Match.Search

/-!
# Editing passes

A pass goes through a tree once, tries the query on the nodes that its dispatch admits, and asks
an editor for the edits of each occurrence. The editor may refuse, which ends the pass. All edits
together are one plan for the source text.
-/

namespace TreeQuery

/-- The edits that an occurrence calls for. -/
abbrev Editor := Occurrence → Except Fault (List Edit)

structure Pass where
  visited : List Occurrence
  events : List Event
  plan : Plan

namespace Pass

def start : Pass := ⟨[], [], Plan.empty⟩

def visit (p : Pass) (s : Site) (outcome : Outcome) (edit : Editor) : Pass × Option Fault :=
  let o : Occurrence := ⟨s, outcome, p.visited.length + 1⟩
  let p := { p with visited := p.visited ++ [o] }
  match edit o with
  | .ok edits => ({ p with plan := ⟨p.plan.edits ++ edits⟩ }, none)
  | .error e => (p, some e)

mutual
def walk (q : Query) (d : Dispatch) (edit : Editor) (above : List Nat) :
    Tree → Pass → Pass × Option Fault
  | .leaf .., p => (p, none)
  | .node tag cs span, p =>
    let s : Site := ⟨above, .node tag cs span⟩
    if d.admits tag then
      let p := { p with events := p.events ++ q.traceSite s }
      let outcome := q.matchSite s
      if outcome.isMatch then p.visit s outcome edit else walkList q d edit above 0 cs p
    else walkList q d edit above 0 cs p
def walkList (q : Query) (d : Dispatch) (edit : Editor) (above : List Nat) :
    Nat → List Tree → Pass → Pass × Option Fault
  | _, [], p => (p, none)
  | i, t :: ts, p =>
    match walk q d edit (i :: above) t p with
    | (p, none) => walkList q d edit above (i + 1) ts p
    | (p, some e) => (p, some e)
end

end Pass

structure Revision where
  output : List Char
  occurrences : Nat
  edits : Nat

namespace Revision

def hasChanges (r : Revision) : Bool := 0 < r.edits

end Revision

namespace Query

def dispatch (q : Query) : Dispatch := Dispatch.ofPattern q.root

/-- The pass of an editor over a tree, and the fault that ended it early. -/
def pass (q : Query) (t : Tree) (edit : Editor) : Pass × Option Fault :=
  Pass.walk q q.dispatch edit [] t Pass.start

def revise (q : Query) (t : Tree) (source : List Char) (edit : Editor) : Except Fault Revision :=
  match q.pass t edit with
  | (_, some e) => .error e
  | (p, none) => (p.plan.apply source).map fun output => ⟨output, p.visited.length, p.plan.size⟩

end Query

end TreeQuery
