import TreeQuery.Edit.Pass

/-!
# Edit scripts

A script is a list of actions that run in order for each occurrence that they concern. An action
on a place that the occurrence does not have is skipped.
-/

namespace TreeQuery

namespace Script

inductive Place where
  | node
  | span (s : Span)
  | capture (n : Nat)
deriving DecidableEq, Repr

inductive Edge where
  | start
  | stop
deriving DecidableEq, Repr

inductive Deed where
  | replace (place : Place) (text : List Char)
  | remove (place : Place)
  | insert (place : Place) (edge : Edge) (text : List Char)
  | fail (text : String)

structure Action where
  /-- The number of the occurrence, every one if absent. -/
  on : Option Nat
  deed : Deed

def Place.span? (o : Occurrence) : Place → Option Span
  | .node => o.tree.span
  | .span s => some s
  | .capture n => (o.capture? n).bind (·.span)

def Deed.edits (o : Occurrence) : Deed → Except Fault (List Edit)
  | .replace place text => .ok ((place.span? o).map (Edit.replace · text)).toList
  | .remove place => .ok ((place.span? o).map Edit.remove).toList
  | .insert place edge text =>
    .ok ((place.span? o).map fun s =>
      Edit.insert (match edge with | .start => s.start | .stop => s.stop) text).toList
  | .fail text => .error (.refused text)

def run (o : Occurrence) : List Action → Except Fault (List Edit)
  | [] => .ok []
  | a :: rest =>
    if a.on.all (· == o.index) then
      (a.deed.edits o).bind fun first => (run o rest).map (first ++ ·)
    else run o rest

def editor (script : List Action) : Editor := fun o => run o script

end Script

end TreeQuery
