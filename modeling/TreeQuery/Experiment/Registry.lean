import TreeQuery.Experiment.Basic

/-!
# Registries

Experiments under their names, each name once.
-/

namespace TreeQuery.Experiment

inductive RegistryError where
  | duplicate (name : List Char)
  | notFound (name : List Char)
deriving DecidableEq, Repr

def RegistryError.message : RegistryError → String
  | .duplicate name => "experiment '" ++ String.ofList name ++ "' is already registered"
  | .notFound name => "experiment '" ++ String.ofList name ++ "' not found in registry"

structure Registry (σ : Type) where
  experiments : List (Experiment σ)

namespace Registry

def empty : Registry σ := ⟨[]⟩

def get? (r : Registry σ) (name : List Char) : Option (Experiment σ) :=
  r.experiments.find? (·.name == name)

def require (r : Registry σ) (name : List Char) : Except RegistryError (Experiment σ) :=
  match r.get? name with
  | some e => .ok e
  | none => .error (.notFound name)

def register (r : Registry σ) (e : Experiment σ) : Except RegistryError (Registry σ) :=
  if (r.get? e.name).isSome then .error (.duplicate e.name)
  else .ok ⟨r.experiments ++ [e]⟩

def remove (r : Registry σ) (name : List Char) : Registry σ :=
  ⟨r.experiments.filter (·.name != name)⟩

def size (r : Registry σ) : Nat := r.experiments.length

def names (r : Registry σ) : List (List Char) :=
  (r.experiments.map (·.name)).mergeSort Text.precedes

end Registry

end TreeQuery.Experiment
