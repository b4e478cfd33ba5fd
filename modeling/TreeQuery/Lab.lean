import TreeQuery.Experiment.Registry
import TreeQuery.Experiment.Runner

/-!
# Laboratories

A laboratory keeps a working directory, a registry of experiments whose policies record their
calls, and one cancellation flag for all runs: once set, it stays set.
-/

namespace TreeQuery

open Experiment (Call Registry RegistryError Policy World FileOutcome Options)

structure Lab where
  files : File.System
  registry : Registry (List Call)
  cancelled : Bool
  calls : List Call

namespace Lab

def start (files : File.System) : Lab := ⟨files, .empty, false, []⟩

def register (lab : Lab) (e : Experiment (List Call)) : Except RegistryError Lab :=
  (lab.registry.register e).map fun registry => { lab with registry := registry }

def remove (lab : Lab) (name : List Char) : Option (Experiment (List Call)) × Lab :=
  (lab.registry.get? name, { lab with registry := lab.registry.remove name })

def write (lab : Lab) (path : File.Path) (text : List Char) : Lab :=
  { lab with files := lab.files.put path (.text text) }

def cancel (lab : Lab) : Lab := { lab with cancelled := true }

def evaluate (lab : Lab) (name : List Char) (path : File.Path) :
    Except RegistryError (Except Experiment.Failure Bool × Lab) :=
  (lab.registry.require name).map fun e =>
    let (j, calls) := e.policy.judge lab.files path lab.calls
    (j.verdict,
      { lab with files := j.files, calls := calls, cancelled := lab.cancelled || j.cancel })

/-- Runs an experiment on one file, or on its lookup paths, with an empty record of calls. -/
def run (lab : Lab) (name : List Char) (file : Option File.Path) (o : Options) :
    Except RegistryError (List FileOutcome × Lab) :=
  (lab.registry.require name).map fun e =>
    let w : World (List Call) := ⟨lab.files, lab.cancelled, [], [], []⟩
    let (outcomes, w) := match file with
      | some path => let (outcome, w) := Experiment.runFile o e path w; ([outcome], w)
      | none => Experiment.run o e w
    (outcomes, { lab with files := w.files, cancelled := w.cancelled, calls := w.state })

end Lab

end TreeQuery
