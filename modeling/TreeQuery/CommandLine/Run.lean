import TreeQuery.CommandLine.Report
import TreeQuery.Experiment.Command
import TreeQuery.Settings.Load

/-!
# Running the command line

Words that make no command end with code two before anything else is looked at. After them come
the settings, the log filter, the pattern, the template and the files, and the first that fails
ends the run with code one and a line on the standard error.
-/

namespace TreeQuery.CommandLine

inductive AppError where
  | settings
  | logFilter
  | pattern (e : Fault)
  | template (e : Fault)
  | file (e : Experiment.Failure)
  | noPolicy

namespace AppError

def message : AppError → String
  | .settings => "failed to load configuration: some setting cannot be read or does not fit"
  | .logFilter => "failed to initialise logging: invalid log filter: some directive cannot be read"
  | .pattern e => "invalid pattern: " ++ e.message
  | .template e => "invalid template: " ++ e.message
  | .file e => e.message
  | .noPolicy => "the policy command must not be empty"

end AppError

structure State where
  files : File.System
  log : List Log.Entry

/-- What a command leaves: its exit code and its output, unless it failed. -/
abbrev Result := Except AppError (Nat × List Char) × State

def commandTarget : String := "fathom_cli::commands"

def matcherTarget : String := "fathom_syntax::matcher"

def compile (pattern : List Char) : Except AppError Query :=
  (Query.compile pattern []).mapError fun e => .pattern (.pattern e)

def loadFile (fs : File.System) (path : File.Path) : Except AppError SourceFile :=
  match fs.readText path with
  | .error e => .error (.file (.read path e))
  | .ok source =>
    match Sexp.parseChars source with
    | .error e => .error (.file (.parse path (.source e)))
    | .ok tree => .ok ⟨path, source, tree⟩

def verdictEntry? : Event → Option Log.Entry
  | .enter .. => none
  | .exit depth p target matched =>
    some ⟨.trace, matcherTarget, "pattern evaluated",
      [("depth", .number depth), ("pattern", .plain p.render),
        ("node", .plain ((target.map (·.tree.render)).getD "<absent>".toList)),
        ("matched", .flag matched)]⟩

def traceEntries (a : SearchArguments) (q : Query) (t : Tree) : List Log.Entry :=
  if a.trace then (q.searchTrace [] t).filterMap verdictEntry? else []

def overFiles (fs : File.System) (work : SourceFile → List α × List Log.Entry) :
    List File.Path → List α → List Log.Entry → Except AppError (List α) × List Log.Entry
  | [], records, log => (.ok records, log)
  | path :: paths, records, log =>
    match loadFile fs path with
    | .error e => (.error e, log)
    | .ok f =>
      let (more, entries) := work f
      overFiles fs work paths (records ++ more) (log ++ entries)

def search (a : SearchArguments) (s : State) : Result :=
  match compile a.pattern with
  | .error e => (.error e, s)
  | .ok q =>
    let work (f : SourceFile) : List OccurrenceRecord × List Log.Entry :=
      let found := q.search f.tree
      (found.map (OccurrenceRecord.make f),
        traceEntries a q f.tree ++
          [⟨.debug, commandTarget, "searched file",
            [("path", .plain f.path.text), ("occurrences", .number found.length)]⟩])
    let (records, log) := overFiles s.files work a.files [] s.log
    (records.map fun rs => (0, occurrenceReport rs a.format), { s with log := log })

def capture (a : SearchArguments) (s : State) : Result :=
  match compile a.pattern with
  | .error e => (.error e, s)
  | .ok q =>
    let work (f : SourceFile) : List CaptureRecord × List Log.Entry :=
      ([⟨f.path, (q.payloads f.tree).map fun site => site.tree.textIn f.source⟩],
        traceEntries a q f.tree)
    let (records, log) := overFiles s.files work a.files [] s.log
    (records.map fun rs => (0, captureReport rs a.format), { s with log := log })

def makeRule (pattern template : List Char) : Except AppError Rule :=
  (compile pattern).bind fun q => (Rule.make q template).mapError .template

def revise (a : ReviseArguments) (s : State) : Result :=
  let attempt : Except AppError (SourceFile × Revision) := do
    let base ← makeRule a.pattern a.template
    let rule := match a.only with
      | some n => base.restrict n
      | none => base
    let f ← loadFile s.files a.file
    match rule.apply f.tree f.source with
    | .ok r => return (f, r)
    | .error e => throw (.file (.revise a.file e))
  match attempt with
  | .error e => (.error e, s)
  | .ok (f, r) =>
    if !a.write then (.ok (0, r.output), s)
    else
      let written := if r.hasChanges then s.files.writeText f.path r.output else .ok s.files
      match written with
      | .error e => (.error (.file (.write f.path e)), s)
      | .ok files =>
        (.ok (0, []), ⟨files, s.log ++
          [⟨.info, commandTarget, "rewrote file",
            [("path", .plain f.path.text), ("occurrences", .number r.occurrences),
              ("edits", .number r.edits)]⟩]⟩)

/-- The time limit in milliseconds: the option wins over the settings, and zero is no limit. -/
def timeoutMillis (option : Option Nat) (settings : Settings) : Option Nat :=
  match option with
  | some 0 => none
  | some secs => some (secs * 1000)
  | none => settings.timeoutSecs?.map (· * 1000)

def experiment (a : ExperimentArguments) (settings : Settings) (s : State) : Result :=
  let attempt : Except AppError (Rule × Experiment.Command) := do
    let rule ← makeRule a.pattern a.template
    match Experiment.Command.ofWords? a.policy with
    | some c => return (rule, { c with timeout := timeoutMillis a.timeout settings })
    | none => throw .noPolicy
  match attempt with
  | .error e => (.error e, s)
  | .ok (rule, command) =>
    let policy : Experiment.Policy Unit := .guarded Sexp.parseChars command.policy
    let e := Experiment.ofRule "cli".toList rule policy Sexp.parseChars a.paths
    let options : Experiment.Options :=
      ((Experiment.Options.default.withMaxCombinations settings.maxCombinations).withJobs
        settings.workers).withExtension settings.extension
    let (outcomes, w) := Experiment.run options e ⟨s.files, false, [], (), s.log⟩
    let failed := outcomes.any fun o =>
      match o.status with
      | .failed _ => true
      | _ => false
    (.ok (if failed then 1 else 0, outcomes.flatMap outcomeLine), ⟨w.files, w.log⟩)

def execute (c : Command) (settings : Settings) (s : State) : Result :=
  match c with
  | .search a => search a s
  | .capture a => capture a s
  | .revise a => revise a s
  | .experiment a => experiment a settings s

structure Invocation where
  /-- All words, the name of the program first. -/
  words : List (List Char)
  environment : Settings.Environment
  files : File.System
  logging : Bool

structure Outcome where
  code : Nat
  stdout : List Char
  stderr : List Char
  files : File.System
  /-- The log as the filter lets it through, and its format. -/
  log : List Log.Entry
  logFormat : LogFormat

def versionText : String := "fathom 0.1.0\n"

def helpText : String :=
  "Usage: fathom [FLAGS] <COMMAND>\n\n" ++
  "Commands:\n" ++
  "  search <PATTERN> <FILE>... [--format human|json] [--trace]\n" ++
  "  capture <PATTERN> <FILE>... [--format human|json] [--trace]\n" ++
  "  rewrite <PATTERN> <TEMPLATE> <FILE> [--only N] [--write]\n" ++
  "  experiment <PATTERN> <TEMPLATE> <PATH>... [--timeout SECS] --policy <CMD>...\n"

def usageText : String := "error: the arguments make no command\n\n" ++ helpText

def Outcome.stopped (i : Invocation) : Stop → Outcome
  | .help => ⟨0, helpText.toList, [], i.files, [], .compact⟩
  | .version => ⟨0, versionText.toList, [], i.files, [], .compact⟩
  | .usage => ⟨2, [], usageText.toList, i.files, [], .compact⟩

def Outcome.failure (i : Invocation) (e : AppError) (log : List Log.Entry) (format : LogFormat)
    (files : File.System) : Outcome :=
  ⟨1, [], (e.message ++ "\n").toList, files, if i.logging then log else [], format⟩

def finish (i : Invocation) (settings : Settings) (filter : Log.Filter) (command : Command) :
    Outcome :=
  let (result, s) := execute command settings ⟨i.files, []⟩
  let log := s.log.filter filter.enables
  match result with
  | .error e => Outcome.failure i e log settings.logFormat s.files
  | .ok (code, output) =>
    ⟨code, output, [], s.files, if i.logging then log else [], settings.logFormat⟩

def run (i : Invocation) : Outcome :=
  let words := split id i.words
  match readCommand (words.command.drop 1) with
  | .error stop => Outcome.stopped i stop
  | .ok command =>
    match Settings.load? i.files i.environment (words.settings.drop 1) with
    | none => Outcome.failure i .settings [] .compact i.files
    | some settings =>
      match Log.Filter.ofText? settings.logFilter with
      | some filter => finish i settings filter command
      | none =>
        -- a filter is only looked at where a log is kept
        if i.logging then Outcome.failure i .logFilter [] settings.logFormat i.files
        else finish i settings [] command

end TreeQuery.CommandLine
