import TreeQuery.Combination.Search
import TreeQuery.Experiment.Basic

/-!
# Running experiments on files

For each file the runner counts the occurrences and walks the rounds of the combination search.
Every candidate is written beside the file, judged by the policy and removed again. The best
combination that passed is written over the file. Cancellation is looked at before each round and
before each candidate.
-/

namespace TreeQuery.Experiment

structure Options where
  maxCombinations : Nat
  jobs : Nat
  extension : List Char
deriving DecidableEq, Repr

namespace Options

def default : Options := ⟨1000, 1, "sexp".toList⟩

def withMaxCombinations (o : Options) (n : Nat) : Options := { o with maxCombinations := n }

def withJobs (o : Options) (n : Nat) : Options := { o with jobs := max n 1 }

def withExtension (o : Options) (cs : List Char) : Options :=
  { o with extension := cs.dropWhile (· == '.') }

end Options

inductive Status where
  | noOccurrences
  | committed (fragment : Combination)
  | unchanged
  | budgetExceeded (e : Combination.BudgetExceeded)
  | cancelled
  | failed (e : Failure)

def Status.isCommitted : Status → Bool
  | .committed _ => true
  | _ => false

structure FileOutcome where
  path : File.Path
  occurrences : Nat
  rounds : Nat
  tested : Nat
  status : Status

/-- What a run works on: the files, the cancellation flag, the state of the policy, the log. -/
structure World (σ : Type) where
  files : File.System
  cancelled : Bool
  /-- Whether others, who run beside this, ask for cancellation before the next look at the flag,
  the look after that, and so on; nobody does after the end of the list. -/
  requests : List Bool
  state : σ
  log : List Log.Entry

namespace World

def note (w : World σ) (entries : List Log.Entry) : World σ := { w with log := w.log ++ entries }

def look (w : World σ) : Bool × World σ :=
  let cancelled := w.cancelled || w.requests.headD false
  (cancelled, { w with cancelled := cancelled, requests := w.requests.tail })

end World

def runnerTarget : String := "fathom_experiment::runner"

def entry (level : Log.Level) (message : String) (fields : List (String × Log.Value)) : Log.Entry :=
  ⟨level, runnerTarget, message, fields⟩

def pathField (p : File.Path) : String × Log.Value := ("path", .plain p.text)

-- ---------------------------------------------------------------------------
-- Candidates
-- ---------------------------------------------------------------------------

def candidatePrefix : List Char := "experiment_".toList

def candidatePath (path : File.Path) (c : Combination) : File.Path :=
  path.sibling (candidatePrefix ++ c.label ++ '_' :: path.fileName?.getD [])

structure Subject (σ : Type) where
  experiment : Experiment σ
  path : File.Path
  source : List Char
  tree : Tree

namespace Subject

def render (s : Subject σ) (c : Combination) : Except Failure (List Char) :=
  let editor : Editor := fun o =>
    if c.indices.contains o.index then s.experiment.edit s.source o else .ok []
  match s.experiment.query.revise s.tree s.source editor with
  | .ok r => .ok r.output
  | .error e => .error (.revise s.path e)

/-- Writes the candidate, asks the policy and removes the candidate. -/
def evaluate (s : Subject σ) (c : Combination) (w : World σ) : Except Failure Bool × World σ :=
  match s.render c with
  | .error e => (.error e, w)
  | .ok text =>
    let path := candidatePath s.path c
    match w.files.writeText path text with
    | .error e => (.error (.write path e), w)
    | .ok files =>
      let (j, state) := s.experiment.policy.judge files path w.state
      let w := { w with state := state, cancelled := w.cancelled || j.cancel }.note j.log
      match j.files.removeFile path with
      | .ok files => (j.verdict, { w with files := files })
      | .error e =>
        (j.verdict, { w with files := j.files }.note
          [entry .debug "failed to remove candidate file"
            [pathField path, ("error", .plain e.message.toList)]])

end Subject

-- ---------------------------------------------------------------------------
-- The search on one file
-- ---------------------------------------------------------------------------

structure Progress where
  search : Combination.Search
  rounds : Nat
  tested : Nat

/-- The candidates of a round in order; a status if the search on the file ends here. -/
def tryAll (s : Subject σ) (round : Nat) : List Combination → Progress → World σ →
    Option Status × Progress × World σ
  | [], p, w => (none, p, w)
  | c :: cs, p, w =>
    let (cancelled, w) := w.look
    if cancelled then (some .cancelled, p, w)
    else match s.evaluate c w with
      | (.error e, w) => (some (.failed e), p, w)
      | (.ok passed, w) =>
        let w := w.note
          [entry .debug "candidate evaluated"
            [pathField s.path, ("round", .number round), ("combination", .plain c.label),
              ("passed", .flag passed)]]
        tryAll s round cs
          { p with tested := p.tested + 1, search := p.search.record c passed } w

/-- The rounds, at most `fuel` of them; `none` if nothing more is proposed. -/
def tryRounds (s : Subject σ) : Nat → Progress → World σ → Option Status × Progress × World σ
  | 0, p, w => (none, p, w)
  | fuel + 1, p, w =>
    let (cancelled, w) := w.look
    if cancelled then (some .cancelled, p, w)
    else match p.search.next with
      | (.error e, search) =>
        (some (.budgetExceeded e), { p with search := search }, w.note
          [entry .warn "combination budget exceeded, leaving file unchanged"
            [pathField s.path, ("error", .plain e.message.toList)]])
      | (.ok round, search) =>
        let p := { p with search := search }
        if round.isEmpty then (none, p, w)
        else
          match tryAll s round.number round.candidates { p with rounds := round.number } w with
          | (some status, p, w) => (some status, p, w)
          | (none, p, w) => tryRounds s fuel p w

def commit (s : Subject σ) (p : Progress) (w : World σ) : Status × World σ :=
  match p.search.best? with
  | none => (.unchanged, w)
  | some fragment =>
    match s.render fragment with
    | .error e => (.failed e, w)
    | .ok text =>
      match w.files.writeText s.path text with
      | .error e => (.failed (.write s.path e), w)
      | .ok files =>
        (.committed fragment, { w with files := files }.note
          [entry .info "committed accepted combination"
            [pathField s.path, ("fragment", .plain fragment.label)]])

def searchFile (o : Options) (e : Experiment σ) (path : File.Path) (source : List Char)
    (tree : Tree) (w : World σ) : FileOutcome × World σ :=
  let occurrences := (e.query.search tree).length
  if occurrences = 0 then (⟨path, 0, 0, 0, .noOccurrences⟩, w)
  else
    let w := w.note
      [entry .debug "searching combinations"
        [pathField path, ("occurrences", .number occurrences)]]
    let s : Subject σ := ⟨e, path, source, tree⟩
    let start : Progress := ⟨.start occurrences o.maxCombinations, 0, 0⟩
    match tryRounds s (Nat.pow 2 occurrences + 2) start w with
    | (some status, p, w) => (⟨path, occurrences, p.rounds, p.tested, status⟩, w)
    | (none, p, w) =>
      let (status, w) := commit s p w
      (⟨path, occurrences, p.rounds, p.tested, status⟩, w)

def logged (r : FileOutcome × World σ) : FileOutcome × World σ :=
  match r.1.status with
  | .failed e =>
    (r.1, r.2.note
      [entry .warn "experiment failed for file"
        [pathField r.1.path, ("error", .plain e.message.toList)]])
  | _ => r

def runFile (o : Options) (e : Experiment σ) (path : File.Path) (w : World σ) :
    FileOutcome × World σ :=
  let (cancelled, w) := w.look
  if cancelled then (⟨path, 0, 0, 0, .cancelled⟩, w)
  else logged <|
    match w.files.readText path with
    | .error c => (⟨path, 0, 0, 0, .failed (.read path c)⟩, w)
    | .ok source =>
      match e.reader source with
      | .error c => (⟨path, 0, 0, 0, .failed (.parse path (.source c))⟩, w)
      | .ok tree => searchFile o e path source tree w

-- ---------------------------------------------------------------------------
-- All files
-- ---------------------------------------------------------------------------

/-- A file in a directory is taken if it has the extension and is no candidate left behind. -/
def isSource (o : Options) (name : List Char) : Bool :=
  !candidatePrefix.isPrefixOf name && File.Path.extension? name == some o.extension

mutual
/-- The files below an entry, in the order of their names. A directory is gone into if its path
leads to a directory; a path that is too long leads nowhere. -/
def collect (o : Options) (fs : File.System) (path : File.Path) (name : List Char) :
    File.Entry → List File.Path
  | .directory l =>
    if fs.isDirectory path then
      ((collectIn o fs path l).mergeSort fun a b => Text.precedes a.1 b.1).flatMap (·.2)
    else if isSource o name then [path] else []
  | _ => if isSource o name then [path] else []
def collectIn (o : Options) (fs : File.System) (path : File.Path) :
    File.Listing → List (List Char × List File.Path)
  | .nil => []
  | .cons name e rest =>
    (name, collect o fs (path.join name) name e) :: collectIn o fs path rest
end

def collectFiles (o : Options) (fs : File.System) (lookup : List File.Path) : List File.Path :=
  lookup.flatMap fun path =>
    match fs.entry path with
    | .ok (.directory l) => collect o fs path [] (.directory l)
    | _ => [path]

def runFiles (o : Options) (e : Experiment σ) : List File.Path → World σ →
    List FileOutcome × World σ
  | [], w => ([], w)
  | path :: paths, w =>
    let (outcome, w) := runFile o e path w
    let (outcomes, w) := runFiles o e paths w
    (outcome :: outcomes, w)

def run (o : Options) (e : Experiment σ) (w : World σ) : List FileOutcome × World σ :=
  let paths := collectFiles o w.files e.lookup
  runFiles o e paths <| w.note
    [entry .info "starting experiment"
      [("experiment", .quoted e.name), ("files", .number paths.length), ("jobs", .number o.jobs)]]

end TreeQuery.Experiment
