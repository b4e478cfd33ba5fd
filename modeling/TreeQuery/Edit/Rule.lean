import TreeQuery.Edit.Pass
import TreeQuery.Edit.Template

/-!
# Replacement rules

A rule replaces occurrences of a query by what a template says about them. It may be restricted to
the occurrence with one number.
-/

namespace TreeQuery

structure Rule where
  query : Query
  template : List Char
  only : Option Nat

namespace Rule

/-- A rule for every occurrence, if the pattern has all the captures that the template names. -/
def make (query : Query) (template : List Char) : Except Fault Rule :=
  match (Template.references template).find? (query.captures < ·) with
  | some n => .error (.unknownCapture n query.captures)
  | none => .ok ⟨query, template, none⟩

def restrict (r : Rule) (index : Nat) : Rule := { r with only := some index }

def textOf (o : Occurrence) (source : List Char) : Nat → List Char
  | 0 => o.tree.textIn source
  | n => ((o.capture? n).map (·.textIn source)).getD []

def render (r : Rule) (o : Occurrence) (source : List Char) : List Char :=
  Template.expand (textOf o source) r.template

/-- The replacement of one occurrence, whatever the restriction. -/
def replace (r : Rule) (source : List Char) : Editor := fun o =>
  match o.tree.span with
  | some span => .ok [Edit.replace span (r.render o source)]
  | none => .error (.noSpan (o.tree.tag?.getD ""))

def edit (r : Rule) (source : List Char) : Editor := fun o =>
  if r.only.all (· == o.index) then r.replace source o else .ok []

def apply (r : Rule) (t : Tree) (source : List Char) : Except Fault Revision :=
  r.query.revise t source (r.edit source)

end Rule

end TreeQuery
