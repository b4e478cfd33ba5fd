import TreeQuery.Shell.Wrapper

/-!
# Running scripts and programs

Commands are run one after the other, each on the state that the one before has left. `tested` says
that somebody looks at the status of a command, so that its failure ends nothing. Every command is
run with less fuel than the one that contains it, and every round of a loop with less than the round
before; what has none left would, for all we know, never end.
-/

namespace TreeQuery.Shell

-- ---------------------------------------------------------------------------
-- Commands that run no others
-- ---------------------------------------------------------------------------

def umask (args : List (List Char)) : Session Unit :=
  match args with
  | [] => modify fun s => { s with status := 0 }.emit 1 "0022\n".toList
  | word :: _ =>
    if word.all Printing.isOctal || word.contains '=' || word = ['-', 'S'] then setStatus 0
    else abort "umask: Illegal mode".toList

def hash (args : List (List Char)) : Session Unit := do
  let s ← get
  let isKnown (name : List Char) : Bool :=
    name.head? == some '-' || builtinNames.contains (String.ofList name) ||
      (s.functions.lookup name).isSome || (s.findProgram? name).isSome
  setStatus (if args.all isKnown then 0 else 1)

def ownCommand (name : String) (args : List (List Char)) : Session Unit :=
  match name with
  | ":" | "true" | "times" | "jobs" => setStatus 0
  | "false" => setStatus 1
  | "break" => leaveLoops name .leave args
  | "continue" => leaveLoops name .again args
  | "exit" => exitShell args
  | "return" => returnCall args
  | "export" =>
    if args.all (· == ['-', 'p']) then printVariables "export ".toList (·.exported)
    else markVariables (fun v => { v with exported := true }) args
  | "readonly" =>
    if args.all (· == ['-', 'p']) then printVariables "readonly ".toList (·.readonly)
    else markVariables (fun v => { v with readonly := true }) args
  | "set" => setOptions args
  | "shift" => shift args
  | "trap" => trap args
  | "unset" => unset args
  | "local" => do
    if (← get).aside.isEmpty then abort "local: not in a function".toList
    setLocals args
  | "[" => runProgram Condition.bracketBuiltin args
  | "test" => runProgram Condition.builtin args
  | "echo" => runProgram Printing.echoBuiltin args
  | "printf" => runProgram Printing.printfBuiltin args
  | "cd" | "chdir" => changeDirectory args
  | "pwd" => printDirectory args
  | "read" => readVariables args
  | "kill" => kill args
  | "wait" => wait args
  | "umask" => umask args
  | "hash" => hash args
  | "getopts" => getOptions args
  | "type" => do
    setStatus 0
    describe false args
  | "ulimit" => modify fun s => { s with status := 0 }.emit 1 "unlimited\n".toList
  | "alias" | "unalias" => setStatus (if args.all fun w => w.contains '=' then 0 else 1)
  | _ => abort "No current job".toList

def permitted (body : Session Unit) : Session Unit := fun s =>
  match body s with
  | (.error .failed, s) => (.ok (), s)
  | result => result

def State.resolve (s : State) (name : List Char) : Except Nat File.Name :=
  match s.findProgram? name with
  | some (_, program) => .ok program
  | none =>
    if !name.contains '/' then .error 127
    else match s.files.entry (toPath name) with
      | .ok _ => .error 126
      | .error _ => .error 127

def State.putBack (s : State) (old : List (List Char × Option Variable)) : State :=
  old.foldl (fun s (name, v) =>
    match v with
    | some v => s.putVariable v
    | none => s.removeVariable name) s

inductive Turn where
  | next
  | done
  | out (flow : Flow)

def Turn.of : Except Flow Unit → Turn
  | .ok _ => .next
  | .error (.leave n) => if n ≤ 1 then .done else .out (.leave (n - 1))
  | .error (.again n) => if n ≤ 1 then .next else .out (.again (n - 1))
  | .error flow => .out flow

-- ---------------------------------------------------------------------------
-- The interpreter
-- ---------------------------------------------------------------------------

mutual
def exec : Nat → Bool → Script → Session Unit
  | 0, _, _ => throw .late
  | fuel + 1, tested, script => do
    if (← get).flags.readOnly then return
    match script with
    | .nothing => setStatus 0
    | .simple assignments words redirections => do
      simple fuel tested assignments words redirections
      settle fuel tested
    | .pipeline stages => do
      let s ← get
      restoring (fun t => { t.reattach s [0, 1] with clock := max s.clock t.clock })
        (pipeline fuel tested s.clock s.clock stages)
      settle fuel tested
    | .negated s => do
      exec fuel true s
      modify fun s => { s with status := if s.status = 0 then 1 else 0 }
    | .both a b => do
      exec fuel true a
      if (← get).status = 0 then exec fuel tested b
    | .either a b => do
      exec fuel true a
      if (← get).status != 0 then exec fuel tested b
    | .sequence a b => do
      exec fuel tested a
      exec fuel tested b
    | .background s => detached (closing fuel (exec fuel false s))
    | .subshell s => do
      fork (closing fuel (exec fuel tested s))
      settle fuel tested
    | .redirected s redirections => do
      if !(← redirected (subshell fuel) fuel false redirections (exec fuel tested s)) then
        settle fuel tested
    | .branch condition yes no => do
      exec fuel true condition
      if (← get).status = 0 then exec fuel tested yes else exec fuel tested no
    | .loop outcome condition body => do
      modify fun s => { s with loops := s.loops + 1 }
      restoring (fun s => { s with loops := s.loops - 1 })
        (rounds fuel tested outcome condition body 0)
    | .each name words body => do
      let values ← match words with
        | some ws => Expansion.fields (subshell fuel) fuel ws
        | none => pure (← get).args
      if values.isEmpty then setStatus 0
      modify fun s => { s with loops := s.loops + 1 }
      restoring (fun s => { s with loops := s.loops - 1 }) (turns fuel tested name body values)
    | .select word arms => do
      let text ← Expansion.wordText (subshell fuel) fuel word
      choose fuel tested text arms
    | .define name body =>
      modify fun s => { s with
        functions := (name, body) :: s.functions.filter (·.1 != name), status := 0 }

def subshell : Nat → Script → Session Unit
  | 0, _ => throw .late
  | fuel + 1, script => do
    fork (closing fuel (exec fuel false script))

def rounds : Nat → Bool → Bool → Script → Script → Nat → Session Unit
  | 0, _, _, _, _, _, s => (.error .late, s)
  | fuel + 1, tested, outcome, condition, body, last, s =>
    let (result, s) := exec fuel true condition s
    match result, Turn.of result with
    | _, .out flow => (.error flow, s)
    | _, .done => (.ok (), { s with status := last })
    | .error _, .next => rounds fuel tested outcome condition body last s
    | .ok _, .next =>
      if (s.status == 0) != outcome then (.ok (), { s with status := last })
      else
        let (result, s) := exec fuel tested body s
        match Turn.of result with
        | .out flow => (.error flow, s)
        | .done => (.ok (), s)
        | .next => rounds fuel tested outcome condition body s.status s

def turns : Nat → Bool → List Char → Script → List (List Char) → Session Unit
  | 0, _, _, _, _, s => (.error .late, s)
  | _, _, _, _, [], s => (.ok (), s)
  | fuel + 1, tested, name, body, value :: values, s =>
    let step : Session Unit := do
      assign name value
      exec fuel tested body
    let (result, s) := step s
    match Turn.of result with
    | .out flow => (.error flow, s)
    | .done => (.ok (), s)
    | .next => turns fuel tested name body values s

def choose : Nat → Bool → List Char → List (List (List Part) × Script) → Session Unit
  | 0, _, _, _ => throw .late
  | _, _, _, [] => setStatus 0
  | fuel + 1, tested, text, (patterns, body) :: arms => do
    if ← fitsAny fuel text patterns then exec fuel tested body else choose fuel tested text arms

def fitsAny : Nat → List Char → List (List Part) → Session Bool
  | 0, _, _ => throw .late
  | _, _, [] => return false
  | fuel + 1, text, pattern :: patterns => do
    if Glob.fits (← Expansion.wordSigns (subshell fuel) fuel pattern) text then return true
    else fitsAny fuel text patterns

def pipeline : Nat → Bool → Nat → Nat → List Script → Session Unit
  | 0, _, _, _, _ => throw .late
  | _, _, _, _, [] => return
  | fuel + 1, tested, start, finish, stage :: rest => do
    let before ← get
    let (id, s) := { before with clock := start }.openStream []
    set (if rest.isEmpty then s else s.attach 1 (.stream id))
    fork (closing fuel (exec fuel tested stage))
    modify fun s =>
      let s := { s with channels := before.channels, clock := max finish s.clock }
      if rest.isEmpty then s else { s with status := before.status }.attach 0 (.stream id)
    pipeline fuel tested start (← get).clock rest

/-- What is due behind a command: signals arrive, and a failure may end the shell. -/
def settle : Nat → Bool → Session Unit
  | 0, _ => throw .late
  | fuel + 1, tested => do
    deliver fuel
    let s ← get
    if s.flags.exitOnFailure && !tested && s.status != 0 then throw .exit

/-- Signals arrive at the shell that they were sent to, once it waits for no other. -/
def deliver : Nat → Session Unit
  | 0 => throw .late
  | fuel + 1 => do
    let s ← get
    if s.level != 0 then return
    match s.signals.find? (·.1 == s.process) with
    | none => return
    | some (process, signal) =>
      set { s with signals := s.signals.erase (process, signal) }
      if signal = 9 then throw (.killed 9)
      let name := ((signalTable.find? (·.2 == signal)).map (·.1)).getD ""
      match s.traps.lookup name with
      | some action =>
        set { s with signals := s.signals.erase (process, signal), trapStatus := some s.status }
        runLines fuel true false action
        modify fun t => { t with status := s.status, trapStatus := s.trapStatus }
      | none =>
        if stops signal then throw .late
        if !isHarmless signal then throw (.killed signal)
      deliver fuel

/-- Runs a script line by line. A script without commands succeeds. -/
def runLines : Nat → Bool → Bool → List Char → Session Unit
  | 0, _, _, _ => throw .late
  | fuel + 1, ran, tested, text => do
    match Reader.nextLine text with
    | .finished => if !ran then setStatus 0
    | .malformed => abort "Syntax error".toList
    | .commands script rest =>
      exec fuel tested script
      runLines fuel true tested rest

def closing : Nat → Session Unit → Session Unit
  | 0, _, s => (.error .late, s)
  | fuel + 1, body, s =>
    match body s with
    | (.error .late, s) => (.error .late, s)
    | (.error (.killed n), s) => (.error (.killed n), s)
    | (_, s) =>
      match s.traps.lookup "EXIT" with
      | none => (.ok (), s)
      | some action =>
        let inner := { s with
          traps := s.traps.filter (·.1 != "EXIT"), trapStatus := some s.status, calls := 0
          loops := 0 }
        match runLines fuel true false action inner with
        | (.error .late, s) => (.error .late, s)
        | (.error (.killed n), s) => (.error (.killed n), s)
        | (.error .exit, s) | (.error .failed, s) => (.ok (), s)
        | (_, t) => (.ok (), { t with status := s.status })

def assignAll : Nat → Bool → List (List Char × List Part) → Session Unit
  | 0, _, _ => throw .late
  | _, _, [] => return
  | fuel + 1, exported, (name, word) :: rest => do
    assign name (← Expansion.wordText (subshell fuel) fuel word)
    if exported then
      modify fun s => match s.var? name with
        | some v => s.putVariable { v with exported := true }
        | none => s
    assignAll fuel exported rest

def simple : Nat → Bool → List (List Char × List Part) → List (List Part) → List Redirection →
    Session Unit
  | 0, _, _, _, _ => throw .late
  | fuel + 1, tested, assignments, words, redirections => do
    modify fun s => { s with outputStatus := 0 }
    match ← Expansion.fields (subshell fuel) fuel words with
    | [] =>
      let _ ← redirected (subshell fuel) fuel false redirections do
        assignAll fuel false assignments
        modify fun s => { s with status := s.outputStatus }
    | [['e', 'x', 'e', 'c']] =>
      assignAll fuel false assignments
      if ← attachAll (subshell fuel) fuel redirections then setStatus 0
      else
        setStatus 2
        throw .failed
    | name :: args =>
      if specialNames.contains (String.ofList name) then
        let _ ← redirected (subshell fuel) fuel true redirections do
          assignAll fuel false assignments
          builtin fuel tested (String.ofList name) args
      else
        let _ ← redirected (subshell fuel) fuel false redirections do
          let s ← get
          let old := assignments.map fun (n, _) => (n, s.var? n)
          restoring (·.putBack old) do
            assignAll fuel true assignments
            invoke fuel tested name args

def invoke : Nat → Bool → List Char → List (List Char) → Session Unit
  | 0, _, _, _ => throw .late
  | fuel + 1, tested, name, args => do
    match (← get).functions.lookup name with
    | some body => call fuel tested args (exec fuel tested body)
    | none =>
      if builtinNames.contains (String.ofList name) then
        permitted (builtin fuel tested (String.ofList name) args)
      else external fuel name args

def call : Nat → Bool → List (List Char) → Session Unit → Session Unit
  | 0, _, _, _, s => (.error .late, s)
  | _ + 1, _, args, body, s =>
    if 1000 ≤ s.calls then abort "Maximum function recursion depth (1000) reached".toList s
    else
      let inner := { s with args := args, calls := s.calls + 1, loops := 0, aside := [] :: s.aside }
      let (result, t) := body inner
      let t := t.putBack (t.aside.headD [])
      let t := { t with args := s.args, calls := s.calls, loops := s.loops, aside := s.aside }
      match result with
      | .error .back => (.ok (), t)
      | _ => (result, t)

def builtin : Nat → Bool → String → List (List Char) → Session Unit
  | 0, _, _, _ => throw .late
  | fuel + 1, tested, name, args => do
    match name, args with
    | "eval", _ => runLines fuel false tested (Text.join [' '] args)
    | ".", path :: _ =>
      let s ← get
      let found := if path.contains '/' then (readBytes s.files path).toOption else none
      match found with
      | none => abort (".: ".toList ++ path ++ ": not found".toList)
      | some text =>
        let inner := { s with calls := s.calls + 1 }
        if 1000 ≤ s.calls then abort "too many open files".toList
        set inner
        fun s =>
          let (result, t) := runLines fuel false false text s
          let t := { t with calls := t.calls - 1 }
          match result with
          | .error .back => (.ok (), t)
          | _ => (result, t)
    | ".", [] => setStatus 0
    | "exec", program :: rest =>
      modify fun s => { s with jobs := [] }
      match (← get).resolve program with
      | .error status =>
        complain ("exec: ".toList ++ program ++ ": not found".toList)
        setStatus status
        throw .failed
      | .ok _ =>
        modify fun s => { s with traps := s.traps.filter (·.2.isEmpty) }
        external fuel program rest
        deliver fuel
        throw .exit
    | "command", _ =>
      match args with
      | [] => setStatus 0
      | ['-', 'v'] :: names =>
        setStatus 0
        describe true names
      | ['-', 'V'] :: names =>
        setStatus 0
        describe false names
      | ['-', 'p'] :: name :: rest | ['-', '-'] :: name :: rest => directly fuel tested name rest
      | ['-', 'p'] :: [] | ['-', '-'] :: [] => setStatus 0
      | ('-' :: _ :: _) :: _ => abort "command: Illegal option".toList
      | name :: rest => directly fuel tested name rest
    | _, _ => ownCommand name args

def directly : Nat → Bool → List Char → List (List Char) → Session Unit
  | 0, _, _, _ => throw .late
  | fuel + 1, tested, name, args =>
    if builtinNames.contains (String.ofList name) then
      permitted (builtin fuel tested (String.ofList name) args)
    else external fuel name args

def external : Nat → List Char → List (List Char) → Session Unit
  | 0, _, _ => throw .late
  | fuel + 1, name, args => do
    match (← get).resolve name with
    | .error status =>
      complain (name ++ ": not found".toList)
      setStatus status
    | .ok program => runNamed fuel program name args

def runNamed : Nat → File.Name → List Char → List (List Char) → Session Unit
  | 0, _, _, _ => throw .late
  | fuel + 1, program, name, args => do
    match String.ofList program with
    | "sh" | "dash" =>
      match shellCall? name args with
      | none => setStatus 2
      | some (flags, source, name, args) =>
        match source with
        | .text script => runShell flags name args (closing fuel (runLines fuel false false script))
        | .input =>
          let script := (← get).pending 0
          modify (·.setPending 0 [])
          runShell flags name args (closing fuel (runLines fuel false false script))
        | .file path =>
          match readBytes (← get).files path with
          | .ok script => runShell flags name args (closing fuel (runLines fuel false false script))
          | .error _ =>
            complain ("cannot open ".toList ++ path)
            setStatus 2
    | "env" =>
      match envCall? args with
      | none => setStatus 125
      | some c =>
        let before ← get
        restoring (fun s => { s with vars := before.vars }) do
          modify c.apply
          match c.command with
          | [] => modify fun s => { s with status := 0 }.emit 1 s.environmentText
          | program :: rest => external fuel program rest
    | "timeout" =>
      match timeoutCall? args with
      | none => setStatus 125
      | some c => c.limited (external fuel (c.command.headD []) c.command.tail)
    | "xargs" =>
      match xargsCall? args with
      | none => setStatus 1
      | some c =>
        match c.commands? ((← get).pending 0) with
        | none => setStatus 1
        | some commands =>
          modify (·.setPending 0 [])
          batches fuel 0 commands
    | "kill" => permitted (kill args)
    | "pwd" => permitted (printDirectory args)
    | _ =>
      match program? program with
      | some p => runProgram p args
      | none => setStatus 127

def batches : Nat → Nat → List (List (List Char)) → Session Unit
  | 0, _, _ => throw .late
  | _, status, [] => setStatus status
  | fuel + 1, status, command :: rest => do
    external fuel (command.headD []) command.tail
    match (← get).status with
    | 0 => batches fuel status rest
    | 126 => setStatus 126
    | 127 => setStatus 127
    | 255 => setStatus 124
    | n => if 128 < n then setStatus 125 else batches fuel 123 rest
end

-- ---------------------------------------------------------------------------
-- Starting a program
-- ---------------------------------------------------------------------------

structure Ending where
  succeeds : Bool
  late : Bool
  files : File.System

def surroundings (fs : File.System) : List Variable :=
  let passed (name : String) (value : List Char) : Variable :=
    ⟨name.toList, some value, true, false⟩
  [passed "HOME" "/root".toList,
    passed "PATH" "/usr/local/sbin:/usr/local/bin:/usr/sbin:/usr/bin:/sbin:/bin".toList,
    passed "PWD" (directoryText fs.here)]

def State.initial (fs : File.System) (limit : Option Nat) : State where
  files := fs
  clock := 0
  limit := limit
  streams := []
  channels := [(0, .nothing), (1, .nothing), (2, .nothing)]
  vars := surroundings fs
  functions := []
  name := []
  args := []
  status := 0
  outputStatus := 0
  flags := .initial
  traps := []
  trapStatus := none
  jobs := []
  process := firstProcess - 1
  level := 0
  signals := []
  loops := 0
  calls := 0
  aside := []
  optionPlace := none

/-- More rounds and commands than any script that is worth waiting for has inside each other. -/
def patience : Nat := 50000

def findProgram (fs : File.System) (name : List Char) : Except File.IoError File.Name :=
  if name.contains '/' then
    match fs.entry ⟨name⟩ with
    | .ok (.program program) => .ok program
    | .ok _ => .error .denied
    | .error e => .error e
  else if name.isEmpty then .error .notFound
  else
    match fs.entry ⟨"/usr/bin/".toList ++ name⟩ with
    | .ok (.program program) => .ok program
    | .ok _ => .error .denied
    | .error e => .error e

def start (fs : File.System) (limit : Option Nat) (name : List Char) (args : List (List Char)) :
    Except File.IoError Ending :=
  if (name :: args).any (·.contains '\x00') then .error .nulInWord
  else (findProgram fs name).bind fun program =>
    if limit == some 0 then .ok ⟨false, true, fs⟩
    else
      let run := runNamed patience program (encode name) (args.map encode)
      let (result, s) := run (.initial fs limit)
      let files := { s.files with here := fs.here }
      match result with
      | .error .late => .ok ⟨false, true, files⟩
      | _ => .ok ⟨s.status == 0, false, files⟩

end TreeQuery.Shell
