import TreeQuery.Experiment.Runner

/-!
# Workers that share the files of a run

With more than one job the files are worked on by workers who move in any order. Each takes the
next position of the list, runs the experiment on the file there and sends the outcome with its
position; one that finds no file at its position stops. At the end the outcomes are put in the order
of their positions.
-/

namespace TreeQuery.Experiment

/-- Where a worker stands in its loop. -/
inductive Worker where
  | ready
  | running (position : Nat) (path : File.Path)
  | sending (position : Nat) (outcome : FileOutcome)
  | stopped

structure Shared (σ : Type) where
  world : World σ
  next : Nat
  sent : List (Nat × FileOutcome)

/-- What a worker does next, if it has not stopped. Taking a position is one step, so that no two
workers take the same. -/
def Worker.move (o : Options) (e : Experiment σ) (paths : List File.Path) :
    Worker → Shared σ → Option (Worker × Shared σ)
  | .ready, d =>
    let worker : Worker := match paths[d.next]? with
      | some path => .running d.next path
      | none => .stopped
    some (worker, { d with next := d.next + 1 })
  | .running position path, d =>
    let (outcome, world) := runFile o e path d.world
    some (.sending position outcome, { d with world := world })
  | .sending position outcome, d =>
    some (.ready, { d with sent := d.sent ++ [(position, outcome)] })
  | .stopped, _ => none

structure Pool (σ : Type) where
  workers : List Worker
  shared : Shared σ

namespace Pool

def start (workers : Nat) (w : World σ) : Pool σ := ⟨.replicate workers .ready, ⟨w, 0, []⟩⟩

def move (o : Options) (e : Experiment σ) (paths : List File.Path) (k : Nat) (s : Pool σ) :
    Option (Pool σ) :=
  match s.workers[k]? with
  | none => none
  | some worker =>
    match worker.move o e paths s.shared with
    | none => none
    | some (worker, shared) => some ⟨s.workers.set k worker, shared⟩

def follow (o : Options) (e : Experiment σ) (paths : List File.Path) :
    List Nat → Pool σ → Option (Pool σ)
  | [], s => some s
  | k :: schedule, s =>
    match s.move o e paths k with
    | none => none
    | some s => follow o e paths schedule s

def finished (s : Pool σ) : Bool :=
  s.workers.all fun
    | .stopped => true
    | _ => false

def outcomes (s : Pool σ) : List FileOutcome :=
  (s.shared.sent.mergeSort fun a b => a.1 ≤ b.1).map (·.2)

end Pool

/-- The outcomes if the workers move in the order of a schedule; `none` if they cannot or are not
done. No more workers are started than there are files, and a single one needs no others. -/
def runFilesUnder (o : Options) (e : Experiment σ) (paths : List File.Path) (schedule : List Nat)
    (w : World σ) : Option (List FileOutcome × World σ) :=
  let workers := min o.jobs paths.length
  if workers ≤ 1 then some (runFiles o e paths w)
  else
    match (Pool.start workers w).follow o e paths schedule with
    | none => none
    | some s => if s.finished then some (s.outcomes, s.shared.world) else none

end TreeQuery.Experiment
