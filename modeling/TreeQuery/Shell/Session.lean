import TreeQuery.Shell.Arithmetic
import TreeQuery.Shell.Condition
import TreeQuery.Shell.FileTools
import TreeQuery.Shell.Glob
import TreeQuery.Shell.Grep
import TreeQuery.Shell.Printing
import TreeQuery.Shell.Script

/-!
# The state of a shell

A shell keeps variables, functions, arguments and settings, and works on files. What its commands
read and write goes through numbered descriptors: each is attached to a file, to a text in transit,
or to nothing. Time passes only where something sleeps.
-/

namespace TreeQuery.Shell

inductive Channel where
  /-- A text in transit: what is written is put at its end, what is read is taken off its start. -/
  | stream (id : Nat)
  | file (names : List File.Name)
  | nothing

/-- A text in transit: what can be read, and the pieces that were written since, the last first. -/
structure Stream where
  ready : List Char
  added : List (List Char)

namespace Stream

def ofText (text : List Char) : Stream := ⟨text, []⟩

def text (s : Stream) : List Char :=
  if s.added.isEmpty then s.ready else s.ready ++ s.added.reverse.flatten

def put (s : Stream) (piece : List Char) : Stream := { s with added := piece :: s.added }

end Stream

structure Variable where
  name : List Char
  value : Option (List Char)
  exported : Bool
  readonly : Bool

structure Flags where
  exitOnFailure : Bool
  failOnUnset : Bool
  noPaths : Bool
  keepFiles : Bool
  readOnly : Bool
  exportAll : Bool

structure Job where
  id : Nat
  status : Nat
  finish : Option Nat
  /-- Its status has been asked for, after which nobody knows it any more. -/
  gone : Bool

structure State where
  files : File.System
  /-- The time that has passed, in milliseconds. -/
  clock : Nat
  limit : Option Nat
  streams : List Stream
  channels : List (Nat × Channel)
  vars : List Variable
  functions : List (List Char × Script)
  name : List Char
  args : List (List Char)
  status : Nat
  outputStatus : Nat
  flags : Flags
  traps : List (String × List Char)
  trapStatus : Option Nat
  jobs : List Job
  process : Nat
  /-- How many shells, of the same process, are waiting for this one. -/
  level : Nat
  signals : List (Nat × Nat)
  loops : Nat
  calls : Nat
  /-- The variables that the running functions have put aside, the innermost function first. -/
  aside : List (List (List Char × Option Variable))
  optionPlace : Option Nat

inductive Flow where
  | leave (loops : Nat)
  /-- So many loops are left but for the last one, which goes on with its next round. -/
  | again (loops : Nat)
  | back
  | exit
  | failed
  | killed (signal : Nat)
  | late

abbrev Session := ExceptT Flow (StateM State)

def restoring (undo : State → State) (body : Session Unit) : Session Unit := fun s =>
  let (result, s) := body s
  (result, undo s)

namespace State

-- ---------------------------------------------------------------------------
-- Variables
-- ---------------------------------------------------------------------------

def var? (s : State) (name : List Char) : Option Variable := s.vars.find? (·.name == name)

def value? (s : State) (name : List Char) : Option (List Char) := (s.var? name).bind (·.value)

def putVariable (s : State) (v : Variable) : State :=
  { s with vars := s.vars.filter (·.name != v.name) ++ [v] }

def assign (s : State) (name value : List Char) : State :=
  let old := (s.var? name).getD ⟨name, none, false, false⟩
  let s := s.putVariable
    { old with value := some value, exported := old.exported || s.flags.exportAll }
  if name = "OPTIND".toList then { s with optionPlace := none } else s

def removeVariable (s : State) (name : List Char) : State :=
  { s with vars := s.vars.filter (·.name != name) }

def separators (s : State) : List Char := (s.value? "IFS".toList).getD [' ', '\t', '\n']

-- ---------------------------------------------------------------------------
-- Descriptors
-- ---------------------------------------------------------------------------

def channel (s : State) (descriptor : Nat) : Channel :=
  (s.channels.lookup descriptor).getD .nothing

def isOpen (s : State) (descriptor : Nat) : Bool := (s.channels.lookup descriptor).isSome

def attach (s : State) (descriptor : Nat) (c : Channel) : State :=
  { s with channels := (descriptor, c) :: s.channels.filter (·.1 != descriptor) }

def detach (s : State) (descriptor : Nat) : State :=
  { s with channels := s.channels.filter (·.1 != descriptor) }

def openStream (s : State) (text : List Char) : Nat × State :=
  (s.streams.length, { s with streams := s.streams ++ [.ofText text] })

def stream (s : State) (id : Nat) : List Char := (s.streams.getD id (.ofText [])).text

def setStream (s : State) (id : Nat) (text : List Char) : State :=
  { s with streams := s.streams.set id (.ofText text) }

def emit (s : State) (descriptor : Nat) (text : List Char) : State :=
  if text.isEmpty then s
  else match s.channel descriptor with
    | .nothing => s
    | .stream id => { s with streams := s.streams.modify id (·.put text) }
    | .file names =>
      match s.files.root.find names with
      | .ok (.file contents) =>
        match s.files.root.write (toContents (ofContents contents ++ text)) names with
        | .ok root => { s with files := { s.files with root := root } }
        | .error _ => s
      | _ => s

def pending (s : State) (descriptor : Nat) : List Char :=
  match s.channel descriptor with
  | .stream id => s.stream id
  | .file names =>
    match s.files.root.find names with
    | .ok (.file contents) => ofContents contents
    | _ => []
  | .nothing => []

def setPending (s : State) (descriptor : Nat) (text : List Char) : State :=
  match s.channel descriptor with
  | .stream id => s.setStream id text
  | _ => s

/-- The same descriptors as before for some, where all texts in transit that came since are dropped
if no descriptor leads to them. -/
def reattach (s before : State) (descriptors : List Nat) : State :=
  let s := descriptors.foldl (fun s d =>
    match before.channels.lookup d with
    | some c => s.attach d c
    | none => s.detach d) s
  let isOld : Nat × Channel → Bool
    | (_, .stream id) => id < before.streams.length
    | _ => true
  if s.channels.all isOld then { s with streams := s.streams.take before.streams.length } else s

-- ---------------------------------------------------------------------------
-- Other shells
-- ---------------------------------------------------------------------------

/-- The state of a shell that is started for a part of a script. What is done on signals is not
passed on, except that some are ignored. -/
def child (s : State) : State :=
  { s with traps := s.traps.filter (·.2.isEmpty), jobs := [], level := s.level + 1 }

def rejoin (s child : State) : State :=
  { s with files := { child.files with here := s.files.here }, clock := child.clock
           streams := child.streams.take s.streams.length, signals := child.signals
           status := child.status }

-- ---------------------------------------------------------------------------
-- Parameters
-- ---------------------------------------------------------------------------

def flagLetters (s : State) : List Char :=
  (if s.flags.exitOnFailure then ['e'] else []) ++ (if s.flags.noPaths then ['f'] else []) ++
    (if s.flags.failOnUnset then ['u'] else []) ++ (if s.flags.exportAll then ['a'] else []) ++
    (if s.flags.keepFiles then ['C'] else [])

def parameter? (s : State) (name : List Char) : Option (List Char) :=
  match name with
  | ['#'] => some (Number.decimal s.args.length)
  | ['?'] => some (Number.decimal s.status)
  | ['$'] => some (Number.decimal s.process)
  | ['-'] => some s.flagLetters
  | ['!'] => s.jobs.getLast?.map fun j => Number.decimal j.id
  | _ =>
    match Number.digits? name with
    | some 0 => some s.name
    | some (n + 1) => s.args[n]?
    | none => s.value? name

end State

-- ---------------------------------------------------------------------------
-- Words being put together
-- ---------------------------------------------------------------------------

inductive Glyph where
  | char (c : Char) (quoted splits : Bool)
  | quote
  | boundary

namespace Glyph

def ofText (quoted splits : Bool) (cs : List Char) : List Glyph :=
  cs.map fun c => .char c quoted splits

def ofValue (quoted : Bool) (cs : List Char) : List Glyph :=
  if quoted then .quote :: ofText true false cs else ofText false true cs

def text (joint : List Char) (gs : List Glyph) : List Char :=
  gs.flatMap fun
    | .char c _ _ => [c]
    | .quote => []
    | .boundary => joint

def marks (joint : List Char) (gs : List Glyph) : List Glob.Mark :=
  gs.flatMap fun
    | .char c quoted _ => [(c, quoted)]
    | .quote => []
    | .boundary => joint.map (·, true)

def finish (word : Option (List Glob.Mark)) : List (List Glob.Mark) :=
  (word.map List.reverse).toList

/-- Words with the marks of their characters. A separator that is no blank ends a word even if the
word is empty; blanks beside it belong to it. `word` is the word that has begun, the last character
first, and `blank` says that blanks have just ended one. -/
def split (separators : List Char) (word : Option (List Glob.Mark)) (blank : Bool) :
    List Glyph → List (List Glob.Mark)
  | [] => finish word
  | .quote :: gs => split separators (some (word.getD [])) false gs
  | .boundary :: gs => finish word ++ split separators none false gs
  | .char c quoted splits :: gs =>
    if splits && separators.contains c then
      if c == ' ' || c == '\t' || c == '\n' then
        finish word ++ split separators none (blank || word.isSome) gs
      else if blank && word.isNone then split separators none false gs
      else (word.getD []).reverse :: split separators none false gs
    else split separators (some ((c, quoted) :: word.getD [])) false gs

end Glyph

end TreeQuery.Shell
