import TreeQuery.Shell.Reader
import TreeQuery.Shell.Session

/-!
# Commands of the shell itself

The commands that change the state of the shell and run no other command, and the table of the
programs that need no shell.
-/

namespace TreeQuery.Shell

def setStatus (status : Nat) : Session Unit := modify fun s => { s with status := status }

def complain (message : List Char) : Session Unit := modify fun s =>
  s.emit 2 (s.name ++ ": 1: ".toList ++ message ++ ['\n'])

def abort (message : List Char) : Session α := do
  complain message
  setStatus 2
  throw .failed

def pass (millis : Option Nat) : Session Unit := do
  match millis with
  | none => throw .late
  | some 0 => return
  | some m =>
    let s ← get
    set { s with clock := s.clock + m }
    if s.limit.any (· ≤ s.clock + m) then throw .late

def assign (name value : List Char) : Session Unit := do
  let s ← get
  if (s.var? name).any (·.readonly) then abort (name ++ ": is read only".toList)
  else set (s.assign name value)

def runProgram (p : Program) (args : List (List Char)) : Session Unit := do
  let s ← get
  let effect := p s.files args (s.pending 0)
  let lost := !effect.output.isEmpty && !s.isOpen 1
  let s := { s with files := effect.files, status := if lost then 1 else effect.status }
  let s := if effect.reads then s.setPending 0 [] else s
  set ((s.emit 2 effect.errors).emit 1 effect.output)
  pass effect.millis

def program? (name : List Char) : Option Program :=
  match String.ofList name with
  | "true" => some fun fs _ _ => .exit fs 0
  | "false" => some fun fs _ _ => .exit fs 1
  | "test" => some Condition.program
  | "[" => some Condition.bracketProgram
  | "grep" => some Grep.run
  | "sleep" => some Printing.sleep
  | "echo" => some Printing.echoProgram
  | "printf" => some Printing.printfProgram
  | "basename" => some Printing.basename
  | "dirname" => some Printing.dirname
  | "expr" => some Printing.expr
  | "cat" => some Lines.cat
  | "head" => some Lines.head
  | "tail" => some Lines.tail
  | "wc" => some Lines.wc
  | "sort" => some Lines.sort
  | "uniq" => some Lines.uniq
  | "cut" => some Lines.cut
  | "tr" => some Lines.tr
  | "seq" => some Lines.seq
  | "tee" => some Lines.tee
  | "rm" => some FileTools.rm
  | "rmdir" => some FileTools.rmdir
  | "mkdir" => some FileTools.mkdir
  | "touch" => some FileTools.touch
  | "chmod" => some FileTools.chmod
  | "mktemp" => some FileTools.mktemp
  | "cp" => some FileTools.cp
  | "mv" => some FileTools.mv
  | "ls" => some FileTools.ls
  | "cmp" => some FileTools.cmp
  | "diff" => some FileTools.diff
  | _ => none

-- ---------------------------------------------------------------------------
-- Variables and settings
-- ---------------------------------------------------------------------------

def definition (word : List Char) : List Char × Option (List Char) :=
  let name := word.takeWhile (· != '=')
  (name, if name.length < word.length then some (word.drop (name.length + 1)) else none)

def quotedText (cs : List Char) : List Char :=
  '\x27' :: Text.replace ['\x27'] ['\x27', '"', '\x27', '"', '\x27'] cs ++ ['\x27']

def printVariables (command : List Char) (isMeant : Variable → Bool) : Session Unit := do
  let s ← get
  let meant := (s.vars.filter isMeant).mergeSort fun a b => Text.precedes a.name b.name
  let line (v : Variable) : List Char :=
    command ++ v.name ++ (match v.value with
      | some cs => '=' :: quotedText cs
      | none => [])
  set ({ s with status := 0 }.emit 1 (unlines (meant.map line)))

def markVariables (mark : Variable → Variable) : List (List Char) → Session Unit
  | [] => setStatus 0
  | word :: rest => do
    let (name, value) := definition word
    if word = ['-', 'p'] then markVariables mark rest
    else if !Reader.isName name then abort (name ++ ": bad variable name".toList)
    else
      match value with
      | some v => assign name v
      | none => pure ()
      modify fun s => s.putVariable (mark ((s.var? name).getD ⟨name, none, false, false⟩))
      markVariables mark rest

def setLocals : List (List Char) → Session Unit
  | [] => setStatus 0
  | word :: rest => do
    let (name, value) := definition word
    modify fun s => { s with aside := match s.aside with
      | frame :: frames => ((name, s.var? name) :: frame) :: frames
      | [] => [] }
    match value with
    | some v => assign name v
    | none => pure ()
    setLocals rest

def unsetAll (functions : Bool) : List (List Char) → Session Unit
  | [] => setStatus 0
  | name :: rest => do
    let s ← get
    if functions then set { s with functions := s.functions.filter (·.1 != name) }
    else if !Reader.isName name then abort (name ++ ": bad variable name".toList)
    else if (s.var? name).any (·.readonly) then abort (name ++ ": is read only".toList)
    else set (s.removeVariable name)
    unsetAll functions rest

def unset (args : List (List Char)) : Session Unit :=
  match args with
  | ['-', 'f'] :: rest => unsetAll true rest
  | ['-', 'v'] :: rest | ['-', '-'] :: rest => unsetAll false rest
  | _ => unsetAll false args

def Flags.letter? (f : Flags) (on : Bool) : Char → Option Flags
  | 'e' => some { f with exitOnFailure := on }
  | 'u' => some { f with failOnUnset := on }
  | 'f' => some { f with noPaths := on }
  | 'C' => some { f with keepFiles := on }
  | 'n' => some { f with readOnly := on }
  | 'a' => some { f with exportAll := on }
  | 'x' | 'v' | 'h' | 'm' | 'b' | 'i' | 's' | 'I' | 'E' | 'V' | 'l' => some f
  | _ => none

def Flags.word? (f : Flags) (on : Bool) (word : List Char) : Option Flags :=
  match String.ofList word with
  | "errexit" => f.letter? on 'e'
  | "nounset" => f.letter? on 'u'
  | "noglob" => f.letter? on 'f'
  | "noclobber" => f.letter? on 'C'
  | "noexec" => f.letter? on 'n'
  | "allexport" => f.letter? on 'a'
  | "xtrace" | "verbose" | "ignoreeof" | "interactive" | "monitor" | "stdin" | "vi" | "emacs" |
    "notify" | "nolog" | "debug" => some f
  | _ => none

def Flags.read? (f : Flags) : List (List Char) → Option (Flags × Option (List (List Char)))
  | [] => some (f, none)
  | ['-', '-'] :: rest => some (f, some rest)
  | ['-'] :: rest => some (f, some rest)
  | ['-', 'o'] :: word :: rest => (f.word? true word).bind fun f => f.read? rest
  | ['+', 'o'] :: word :: rest => (f.word? false word).bind fun f => f.read? rest
  | [['-', 'o']] | [['+', 'o']] => some (f, none)
  | ('-' :: c :: cs) :: rest =>
    ((c :: cs).foldlM (fun (f : Flags) c => f.letter? true c) f).bind fun f => f.read? rest
  | ('+' :: c :: cs) :: rest =>
    ((c :: cs).foldlM (fun (f : Flags) c => f.letter? false c) f).bind fun f => f.read? rest
  | args => some (f, some args)

def setOptions (args : List (List Char)) : Session Unit := do
  if args.isEmpty then printVariables [] (·.value.isSome)
  let s ← get
  match s.flags.read? args with
  | none => abort "Illegal option".toList
  | some (flags, operands) =>
    set { s with flags := flags, args := operands.getD s.args, status := 0 }

def shift (args : List (List Char)) : Session Unit := do
  let s ← get
  match (match args with
    | [] => some 1
    | n :: _ => Number.digits? n) with
  | none => abort "Illegal number".toList
  | some n =>
    if s.args.length < n then abort "can't shift that many".toList
    else set { s with args := s.args.drop n, status := 0 }

-- ---------------------------------------------------------------------------
-- Directories
-- ---------------------------------------------------------------------------

def directoryText (names : List File.Name) : List Char :=
  '/' :: encode (Text.join ['/'] names)

def changeDirectory (args : List (List Char)) : Session Unit := do
  let s ← get
  let args := match args with
    | ['-', 'P'] :: rest | ['-', 'L'] :: rest | ['-', '-'] :: rest => rest
    | _ => args
  let target := match args with
    | [] => (s.value? "HOME".toList).getD []
    | ['-'] :: _ => (s.value? "OLDPWD".toList).getD []
    | path :: _ => path
  match s.files.locate (toPath target), s.files.isDirectory (toPath target) with
  | .ok names, true =>
    let moved := { s with files := { s.files with here := names }, status := 0 }
    let moved := (moved.assign "OLDPWD".toList (directoryText s.files.here)).assign "PWD".toList
      (directoryText names)
    set (if args.head? == some ['-'] then moved.emit 1 (directoryText names ++ ['\n']) else moved)
  | _, _ =>
    complain ("cd: can't cd to ".toList ++ target)
    setStatus 2

def printDirectory (args : List (List Char)) : Session Unit := do
  if args.any fun w => w.head? == some '-' && w != ['-', 'L'] && w != ['-', 'P'] then
    abort "pwd: Illegal option".toList
  modify fun s => { s with status := 0 }.emit 1 (directoryText s.files.here ++ ['\n'])

-- ---------------------------------------------------------------------------
-- Reading
-- ---------------------------------------------------------------------------

/-- One line of what is pending: its characters with marks for those behind a backslash, what
remains, and whether the line was complete. -/
def takeLine (raw : Bool) : List Char → List Glyph × List Char × Bool
  | [] => ([], [], false)
  | '\n' :: rest => ([], rest, true)
  | '\\' :: c :: rest =>
    if raw then
      let (gs, rest, complete) := takeLine raw (c :: rest)
      (.char '\\' false true :: gs, rest, complete)
    else
      let (gs, rest, complete) := takeLine raw rest
      (if c = '\n' then gs else .char c true false :: gs, rest, complete)
  | c :: rest =>
    let (gs, rest, complete) := takeLine raw rest
    (.char c false true :: gs, rest, complete)

def isSeparating (separators : List Char) : Glyph → Bool
  | .char c _ splits => splits && separators.contains c
  | _ => false

def isBlankSeparator (separators : List Char) : Glyph → Bool
  | .char c _ splits => splits && separators.contains c && (c == ' ' || c == '\t' || c == '\n')
  | _ => false

def takeField (separators : List Char) (gs : List Glyph) : List Glyph × List Glyph :=
  let gs := gs.dropWhile (isBlankSeparator separators)
  let field := gs.takeWhile (!isSeparating separators ·)
  let rest := (gs.drop field.length).dropWhile (isBlankSeparator separators)
  match rest with
  | g :: after =>
    if isSeparating separators g then (field, after.dropWhile (isBlankSeparator separators))
    else (field, rest)
  | [] => (field, [])

def giveFields (separators : List Char) : List (List Char) → List Glyph → Session Unit
  | [], _ => return
  | [name], gs =>
    let trim (gs : List Glyph) := gs.dropWhile (isBlankSeparator separators)
    assign name (Glyph.text [] (trim (trim gs).reverse).reverse)
  | name :: names, gs => do
    let (field, rest) := takeField separators gs
    assign name (Glyph.text [] field)
    giveFields separators names rest

/-- Whether backslashes mean themselves, and the names of variables. A prompt is not shown. -/
def readWords (raw : Bool) : List (List Char) → Bool × List (List Char)
  | ['-', 'r'] :: rest => readWords true rest
  | ['-', 'p'] :: _ :: rest => readWords raw rest
  | ['-', 'r', 'p'] :: _ :: rest => readWords true rest
  | ['-', '-'] :: rest => (raw, rest)
  | names => (raw, names)

def readVariables (args : List (List Char)) : Session Unit := do
  let (raw, names) := readWords false args
  if names.isEmpty then abort "read: arg count".toList
  match names.find? (!Reader.isName ·) with
  | some name => abort ("read: ".toList ++ name ++ ": bad variable name".toList)
  | none => pure ()
  let s ← get
  let (gs, rest, complete) := takeLine raw (s.pending 0)
  set (s.setPending 0 rest)
  giveFields s.separators names gs
  setStatus (if complete then 0 else 1)

-- ---------------------------------------------------------------------------
-- Signals
-- ---------------------------------------------------------------------------

def signalTable : List (String × Nat) :=
  [("EXIT", 0), ("HUP", 1), ("INT", 2), ("QUIT", 3), ("ILL", 4), ("TRAP", 5), ("ABRT", 6),
    ("BUS", 7), ("FPE", 8), ("KILL", 9), ("USR1", 10), ("SEGV", 11), ("USR2", 12), ("PIPE", 13),
    ("ALRM", 14), ("TERM", 15), ("STKFLT", 16), ("CHLD", 17), ("CONT", 18), ("STOP", 19),
    ("TSTP", 20), ("TTIN", 21), ("TTOU", 22), ("URG", 23), ("XCPU", 24), ("XFSZ", 25),
    ("VTALRM", 26), ("PROF", 27), ("WINCH", 28), ("IO", 29), ("PWR", 30), ("SYS", 31)]

def signal? (word : List Char) : Option (String × Nat) :=
  match Number.digits? word with
  | some n => signalTable.find? (·.2 == n)
  | none => signalTable.find? (·.1 == String.ofList (word.map Char.toUpper))

def setTrap (action : Option (List Char)) : List (List Char) → Session Unit
  | [] => setStatus 0
  | word :: rest =>
    match signal? word with
    | none => do
      complain ("trap: ".toList ++ word ++ ": bad trap".toList)
      setStatus 1
    | some (name, _) => do
      modify fun s =>
        let others := s.traps.filter (·.1 != name)
        { s with traps := match action with
          | some a => others ++ [(name, a)]
          | none => others }
      setTrap action rest

def trap (args : List (List Char)) : Session Unit := do
  let isOption (word : List Char) : Bool := word.head? == some '-' && 1 < word.length
  let args ← match args with
    | ['-', '-'] :: rest => pure rest
    | word :: _ => if isOption word then abort "trap: Illegal option".toList else pure args
    | [] => pure args
  match args with
  | [] =>
    modify fun s => s.emit 1 (s.traps.flatMap fun (name, action) =>
      "trap -- '".toList ++ action ++ "' ".toList ++ name.toList ++ ['\n'])
    setStatus 0
  | [word] => setTrap none [word]
  | action :: signals =>
    if action = ['-'] then setTrap none signals
    else if (Number.digits? action).isSome then setTrap none (action :: signals)
    else setTrap (some action) signals

-- ---------------------------------------------------------------------------
-- Names of commands
-- ---------------------------------------------------------------------------

def specialNames : List String :=
  [":", ".", "break", "continue", "eval", "exec", "exit", "export", "local", "readonly", "return",
    "set", "shift", "times", "trap", "unset"]

def builtinNames : List String :=
  specialNames ++ ["[", "alias", "bg", "cd", "chdir", "command", "echo", "false", "fg", "getopts",
    "hash", "jobs", "kill", "printf", "pwd", "read", "test", "true", "type", "ulimit",
    "umask", "unalias", "wait"]

def State.findProgram? (s : State) (name : List Char) : Option (List Char × File.Name) :=
  let program? (path : List Char) : Option (List Char × File.Name) :=
    match s.files.entry (toPath path) with
    | .ok (.program p) => some (path, p)
    | _ => none
  if name.contains '/' then program? name
  else
    let directories := Text.split ':' ((s.value? "PATH".toList).getD [])
    directories.findSome? fun d => program? (if d.isEmpty then name else d ++ '/' :: name)

def describe (plain : Bool) : List (List Char) → Session Unit
  | [] => return
  | name :: rest => do
    let s ← get
    let isFunction := (s.functions.lookup name).isSome
    let text :=
      if Reader.reserved.contains (String.ofList name) then some (name, " is a shell keyword")
      else if isFunction then some (name, " is a shell function")
      else if specialNames.contains (String.ofList name) then
        some (name, " is a special shell builtin")
      else if builtinNames.contains (String.ofList name) then some (name, " is a shell builtin")
      else (s.findProgram? name).map fun (path, _) =>
        if plain then (path, "") else (name ++ " is ".toList ++ path, "")
    match text with
    | some (word, kind) =>
      set (s.emit 1 (word ++ (if plain then [] else kind.toList) ++ ['\n']))
    | none =>
      if !plain then set (s.emit 1 (name ++ ": not found\n".toList))
      setStatus 127
    describe plain rest

/-- What stands behind a letter among the letters of options; a colon there means a value. -/
def optionRest? (c : Char) : List Char → Option (List Char)
  | [] => none
  | d :: ':' :: rest => if d = c then some (':' :: rest) else optionRest? c rest
  | d :: rest => if d = c then some rest else optionRest? c rest

/-- The place where the next option is looked for: how many words have been begun, and what remains
of the last of them. `none` if there are no more options; the number is still needed. -/
def nextOption (s : State) (words : List (List Char)) : Nat × Option (List Char) :=
  let begun := ((s.value? "OPTIND".toList).bind Number.digits?).getD 1 - 1
  let inside := match s.optionPlace, begun with
    | some place, n + 1 => ((words[n]?).getD []).drop place
    | _, _ => []
  if !inside.isEmpty then (begun, some inside)
  else match words[begun]? with
    | some ['-', '-'] => (begun + 1, none)
    | some ('-' :: c :: cs) => (begun + 1, some (c :: cs))
    | _ => (begun, none)

def getOptions (args : List (List Char)) : Session Unit := do
  let s ← get
  match args with
  | letters :: name :: words =>
    let words := if words.isEmpty then s.args else words
    let quiet := letters.head? == some ':'
    let (begun, found) := nextOption s words
    let conclude (begun : Nat) (option : Char) (value : Option (List Char)) (rest : List Char) :
        Session Unit := do
      let length := ((words[begun - 1]?).getD []).length
      modify fun s =>
        let s := match value with
          | some v => s.assign "OPTARG".toList v
          | none => s.removeVariable "OPTARG".toList
        { s.assign "OPTIND".toList (Number.decimal (begun + 1)) with
          optionPlace := if rest.isEmpty then none else some (length - rest.length) }
      assign name [option]
    match found with
    | none | some [] =>
      modify (·.assign "OPTIND".toList (Number.decimal (begun + 1)))
      assign name ['?']
      setStatus 1
    | some (c :: rest) =>
      setStatus 0
      match optionRest? c letters with
      | none => conclude begun '?' (if quiet then some [c] else none) rest
      | some (':' :: _) =>
        if !rest.isEmpty then conclude begun c (some rest) []
        else match words[begun]? with
          | some value => conclude (begun + 1) c (some value) []
          | none =>
            if quiet then conclude begun ':' (some [c]) [] else conclude begun '?' none []
      | some _ => conclude begun c (some []) rest
  | _ => abort "Usage: getopts optstring var [arg...]".toList

end TreeQuery.Shell
