import TreeQuery.Shell.Attachment

/-!
# Ends, signals and other shells

The commands that leave loops, functions and shells, those that send signals and wait for commands
in the background, and shells that are started by a shell.
-/

namespace TreeQuery.Shell

def numberArgument (command : String) (word : List Char) : Session Nat :=
  match (Number.digits? word).filter (· < 0x80000000) with
  | some n => return n
  | none => abort (command.toList ++ ": Illegal number: ".toList ++ word)

def leaveLoops (command : String) (flow : Nat → Flow) (args : List (List Char)) : Session Unit := do
  let n ← match args with
    | [] => pure 1
    | word :: _ => numberArgument command word
  if n = 0 then abort (command.toList ++ ": Illegal number: 0".toList)
  setStatus 0
  let s ← get
  if 0 < s.loops then throw (flow (min n s.loops))

/-- Ends the shell. Without a number the status is the last one, or the one before a trap. -/
def exitShell (args : List (List Char)) : Session Unit := do
  match args with
  | [] => modify fun s => { s with status := s.trapStatus.getD s.status }
  | word :: _ => setStatus ((← numberArgument "exit" word) % 256)
  throw .exit

def returnCall (args : List (List Char)) : Session Unit := do
  match args with
  | [] => pure ()
  | word :: _ => setStatus (← numberArgument "return" word)
  throw (if (← get).calls = 0 then .exit else .back)

-- ---------------------------------------------------------------------------
-- Signals
-- ---------------------------------------------------------------------------

/-- The first shell of all has this number, and each one inside another the next. -/
def firstProcess : Nat := 4242

def State.send (s : State) (signal process : Nat) : Option State :=
  if firstProcess ≤ process && process ≤ s.process then
    some (if signal = 0 then s else { s with signals := s.signals ++ [(process, signal)] })
  else
    (s.jobs.find? fun j => j.id == process && !j.gone).map fun _ =>
      { s with jobs := s.jobs.map fun j =>
          if j.id == process && signal != 0 && j.finish.all (s.clock < ·) then
            { j with status := 128 + signal, finish := some s.clock }
          else j }

def sendAll (signal : Nat) : List (List Char) → Session Unit
  | [] => return
  | word :: rest => do
    let s ← get
    match s.send signal (← numberArgument "kill" word) with
    | some s => set s
    | none =>
      complain "kill: No such process".toList
      setStatus 1
    sendAll signal rest

def killWords? : List (List Char) → Option (Nat × List (List Char))
  | ['-', 's'] :: name :: rest => (signal? name).map fun (_, n) => (n, rest)
  | ['-', '-'] :: rest => some (15, rest)
  | ('-' :: name) :: rest => (signal? name).map fun (_, n) => (n, rest)
  | args => some (15, args)

def kill (args : List (List Char)) : Session Unit := do
  match args with
  | ['-', 'l'] :: words =>
    let named := words.filterMap fun w =>
      (Number.digits? w).bind fun n => signal? (Number.decimal (n % 128))
    let names := if words.isEmpty then signalTable.drop 1 else named
    setStatus 0
    modify (·.emit 1 (unlines (names.map (·.1.toList))))
  | _ =>
    match killWords? args with
    | some (signal, word :: rest) =>
      setStatus 0
      sendAll signal (word :: rest)
    | _ => abort "kill: Usage".toList

def isHarmless (signal : Nat) : Bool := [17, 18, 23, 28].contains signal

def stops (signal : Nat) : Bool := [19, 20, 21, 22].contains signal

-- ---------------------------------------------------------------------------
-- The background
-- ---------------------------------------------------------------------------

def awaitJob (j : Job) : Session Unit := do
  let s ← get
  pass (j.finish.map (· - s.clock))
  modify fun s => { s with
    jobs := s.jobs.map fun k => if k.id == j.id then { k with gone := true } else k }

def awaitJobs : List (List Char) → Session Unit
  | [] => return
  | word :: rest => do
    let s ← get
    let id ← numberArgument "wait" word
    match s.jobs.find? fun j => j.id == id && !j.gone with
    | some j =>
      awaitJob j
      setStatus j.status
    | none => setStatus 127
    awaitJobs rest

def wait (args : List (List Char)) : Session Unit := do
  if args.isEmpty then
    ((← get).jobs.filter (!·.gone)).forM awaitJob
    setStatus 0
  else awaitJobs args

-- ---------------------------------------------------------------------------
-- Other shells
-- ---------------------------------------------------------------------------

def fork (body : Session Unit) : Session Unit := fun s =>
  let (result, c) := body s.child
  let after := s.rejoin c
  match result with
  | .error .late => (.error .late, after)
  | .error (.killed n) => (.ok (), { after with status := 128 + n })
  | _ => (.ok (), after)

def detached (body : Session Unit) : Session Unit := fun s =>
  let (result, c) := body (s.child.attach 0 .nothing)
  let after := s.rejoin c
  let job : Job :=
    { id := firstProcess + 10000 * (s.jobs.length + 1)
      status := match result with
        | .error (.killed n) => 128 + n
        | _ => c.status
      finish := match result with
        | .error .late => none
        | _ => some c.clock
      gone := false }
  (.ok (), { after with clock := s.clock, status := 0, jobs := s.jobs ++ [job] })

def Flags.initial : Flags := ⟨false, false, false, false, false, false⟩

def State.fresh (s : State) (flags : Flags) (name : List Char) (args : List (List Char)) : State :=
  { s with
    vars := (s.vars.filter (·.exported)).map fun v => { v with readonly := false }
    functions := []
    name := name
    args := args
    status := 0
    outputStatus := 0
    flags := flags
    traps := s.traps.filter (·.2.isEmpty)
    trapStatus := none
    jobs := []
    process := s.process + 1
    level := 0
    loops := 0
    calls := 0
    aside := []
    optionPlace := none }

/-- Runs a shell as a program. Shells inside shells without an end never come to one. -/
def runShell (flags : Flags) (name : List Char) (args : List (List Char)) (body : Session Unit) :
    Session Unit := fun s =>
  if firstProcess + 100 < s.process then (.error .late, s)
  else
    let (result, c) := body (s.fresh flags name args)
    let after := s.rejoin c
    match result with
    | .error .late => (.error .late, after)
    | .error (.killed n) => (.ok (), { after with status := 128 + n })
    | _ => (.ok (), after)

inductive Source where
  | text (script : List Char)
  | file (path : List Char)
  | input

structure ShellOptions where
  flags : Flags
  takesScript : Bool
  takesInput : Bool

def ShellOptions.letter? (o : ShellOptions) : Char → Option ShellOptions
  | 'c' => some { o with takesScript := true }
  | 's' => some { o with takesInput := true }
  | c => (o.flags.letter? true c).map fun f => { o with flags := f }

def ShellOptions.read? (o : ShellOptions) :
    List (List Char) → Option (ShellOptions × List (List Char))
  | ['-', '-'] :: rest | ['-'] :: rest => some (o, rest)
  | ['-', 'o'] :: word :: rest =>
    (o.flags.word? true word).bind fun f => { o with flags := f }.read? rest
  | ['+', 'o'] :: word :: rest =>
    (o.flags.word? false word).bind fun f => { o with flags := f }.read? rest
  | ('-' :: c :: cs) :: rest =>
    ((c :: cs).foldlM (fun (o : ShellOptions) c => o.letter? c) o).bind fun o => o.read? rest
  | ('+' :: c :: cs) :: rest =>
    ((c :: cs).foldlM (fun (f : Flags) c => f.letter? false c) o.flags).bind fun f =>
      { o with flags := f }.read? rest
  | words => some (o, words)

def shellCall? (name : List Char) (words : List (List Char)) :
    Option (Flags × Source × List Char × List (List Char)) := do
  let (o, rest) ← ShellOptions.read? ⟨.initial, false, false⟩ words
  if o.takesScript then
    match rest with
    | [] => none
    | [script] => return (o.flags, .text script, name, [])
    | script :: zero :: args => return (o.flags, .text script, zero, args)
  else if o.takesInput then return (o.flags, .input, name, rest)
  else match rest with
    | [] => return (o.flags, .input, name, [])
    | path :: args => return (o.flags, .file path, path, args)

end TreeQuery.Shell
