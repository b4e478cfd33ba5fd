import TreeQuery.Edit.Rule
import TreeQuery.Edit.Script
import TreeQuery.Experiment.Policy

/-!
# Experiments

An experiment edits the occurrences of a query in files and lets a policy judge the result.
-/

namespace TreeQuery

structure Experiment (σ : Type) where
  name : List Char
  query : Query
  edit : List Char → Editor
  policy : Experiment.Policy σ
  reader : Experiment.Reader
  lookup : List File.Path

namespace Experiment

def spanless : Reader := fun text => (Sexp.parseChars text).map Tree.bare

/-- The experiment of a rule. It takes the query and the template from the rule and does not look at
its restriction. -/
def ofRule (name : List Char) (r : Rule) (policy : Policy σ) (reader : Reader)
    (lookup : List File.Path) : Experiment σ :=
  ⟨name, r.query, r.replace, policy, reader, lookup⟩

def ofScript (name : List Char) (q : Query) (script : List Script.Action) (policy : Policy σ)
    (reader : Reader) (lookup : List File.Path) : Experiment σ :=
  ⟨name, q, fun _ => Script.editor script, policy, reader, lookup⟩

def describe (e : Experiment σ) : List Char :=
  let paths := e.lookup.map fun p => Text.Escaped.text p.text
  "Experiment \x7b name: ".toList ++ Text.Escaped.text e.name ++
    ", pattern: ".toList ++ Text.Escaped.text e.query.source ++
    ", lookup: [".toList ++ Text.join [',', ' '] paths ++ "], .. \x7d".toList

end Experiment

end TreeQuery
