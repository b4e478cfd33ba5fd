import TreeQuery.Experiment.Policy
import TreeQuery.Shell.Run

/-!
# Programs as policies

A command is run with the path of the candidate among its arguments. The candidate passes if the
program succeeds in time, and what the program does to the files stays.
-/

namespace TreeQuery.Experiment

structure Command where
  program : List Char
  args : List (List Char)
  /-- The time it may take, in milliseconds. -/
  timeout : Option Nat
deriving DecidableEq

namespace Command

def placeholder : List Char := ['{', 'f', 'i', 'l', 'e', '}']

def ofWords? : List (List Char) → Option Command
  | [] => none
  | program :: args => some ⟨program, args, none⟩

/-- The arguments with the path in every placeholder, or behind them if there is none. -/
def argumentsFor (c : Command) (path : File.Path) : List (List Char) :=
  let filled := c.args.map (Text.replace placeholder path.text)
  if c.args.any (Text.contains placeholder) then filled else filled ++ [path.text]

/-- Somebody looks every so many milliseconds whether the program has ended. -/
def interval : Nat := 50

/-- When a program that is still running is stopped: at the first look when its time is over. -/
def deadline (c : Command) : Option Nat :=
  c.timeout.map fun t => (t + interval - 1) / interval * interval

def judge (c : Command) (fs : File.System) (path : File.Path) : Judgement :=
  let program : String × Log.Value := ("program", .plain c.program)
  let running : Log.Entry :=
    ⟨.debug, Policy.target, "running policy command",
      [program, ("candidate", .plain path.text)]⟩
  match Shell.start fs c.deadline c.program (c.argumentsFor path) with
  | .error e => ⟨.error (.start c.program e), [running], false, fs⟩
  | .ok ending =>
    let accepted := ending.succeeds && !ending.late
    let expired : List Log.Entry :=
      if ending.late then
        [⟨.warn, Policy.target, "policy timed out, killing process",
          [program, ("timeout_ms", .number (c.timeout.getD 0))]⟩]
      else []
    let finished : Log.Entry :=
      ⟨.debug, Policy.target, "policy command finished", [program, ("accepted", .flag accepted)]⟩
    ⟨.ok accepted, running :: expired ++ [finished], false, ending.files⟩

def policy (c : Command) : Policy σ where
  judge fs path state := (c.judge fs path, state)

end Command

end TreeQuery.Experiment
