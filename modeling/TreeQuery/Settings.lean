import TreeQuery.Number.Integer
import TreeQuery.Text.Class

/-!
# Settings

The six settings of a run, with their defaults. The accessors give what the settings mean: at
least one worker, no time limit for zero seconds, an extension without dots before it.
-/

namespace TreeQuery

inductive LogFormat where
  | json
  | compact
deriving DecidableEq, Repr

namespace LogFormat

def name : LogFormat → String
  | .json => "json"
  | .compact => "compact"

def ofName? (cs : List Char) : Option LogFormat :=
  if cs = "json".toList then some .json
  else if cs = "compact".toList then some .compact
  else none

def ofText? (cs : List Char) : Option LogFormat := ofName? (Text.lower cs)

end LogFormat

structure Settings where
  logFilter : List Char
  logFormat : LogFormat
  maxCombinations : Nat
  jobs : Nat
  policyTimeoutSecs : Nat
  experimentExtension : List Char
deriving DecidableEq, Repr

namespace Settings

def default : Settings := ⟨"info".toList, .compact, 1000, 1, 0, "sexp".toList⟩

def workers (s : Settings) : Nat := max s.jobs 1

/-- The seconds that a policy may take; zero stands for no limit. -/
def timeoutSecs? (s : Settings) : Option Nat :=
  if s.policyTimeoutSecs = 0 then none else some s.policyTimeoutSecs

def extension (s : Settings) : List Char := s.experimentExtension.dropWhile (· == '.')

/-- A value as a layer gives it, before it is known which setting it is for. -/
inductive Value where
  | number (n : Int)
  | text (cs : List Char)
  | bare (name : List Char)
  | other
deriving DecidableEq, Repr

inductive Key where
  | logFilter
  | logFormat
  | maxCombinations
  | jobs
  | policyTimeoutSecs
  | experimentExtension
deriving DecidableEq, Repr

namespace Key

def all : List Key :=
  [.logFilter, .logFormat, .maxCombinations, .jobs, .policyTimeoutSecs, .experimentExtension]

def name : Key → String
  | .logFilter => "log_filter"
  | .logFormat => "log_format"
  | .maxCombinations => "max_combinations"
  | .jobs => "jobs"
  | .policyTimeoutSecs => "policy_timeout_secs"
  | .experimentExtension => "experiment_extension"

def ofName? (name : List Char) : Option Key := all.find? fun k => k.name.toList == name

end Key

def word? (n : Int) : Option Nat := if 0 ≤ n && n < 0x10000000000000000 then some n.toNat else none

def set? (s : Settings) : Key → Value → Option Settings
  | .logFilter, .text cs => some { s with logFilter := cs }
  | .logFormat, .text cs | .logFormat, .bare cs =>
    (LogFormat.ofName? cs).map fun f => { s with logFormat := f }
  | .maxCombinations, .number n => (word? n).map fun n => { s with maxCombinations := n }
  | .jobs, .number n => (word? n).map fun n => { s with jobs := n }
  | .policyTimeoutSecs, .number n => (word? n).map fun n => { s with policyTimeoutSecs := n }
  | .experimentExtension, .text cs => some { s with experimentExtension := cs }
  | _, _ => none

abbrev Layer := List (List Char × Value)

def overlay (s : Settings) (layer : Layer) : Option Settings :=
  layer.foldlM (fun s (name, value) =>
    match Key.ofName? name with
    | some key => s.set? key value
    | none => some s) s

/-- Two layers as one, in which the upper one decides what both give. -/
def Layer.below (lower upper : Layer) : Layer :=
  lower.filter (fun (name, _) => !upper.any (·.1 == name)) ++ upper

/-- The settings whose values are given in order; those that are missing at the end keep their
defaults. -/
def ofValues? (values : List Value) : Option Settings :=
  if Key.all.length < values.length then none
  else default.overlay ((Key.all.map fun k => k.name.toList).zip values)

def toLayer (s : Settings) : Layer :=
  [(Key.logFilter.name.toList, .text s.logFilter),
    (Key.logFormat.name.toList, .text s.logFormat.name.toList),
    (Key.maxCombinations.name.toList, .number s.maxCombinations),
    (Key.jobs.name.toList, .number s.jobs),
    (Key.policyTimeoutSecs.name.toList, .number s.policyTimeoutSecs),
    (Key.experimentExtension.name.toList, .text s.experimentExtension)]

end Settings

end TreeQuery
