import TreeQuery.CommandLine.Arguments
import TreeQuery.Experiment.Runner
import TreeQuery.Match.Search
import TreeQuery.Settings
import TreeQuery.Text.Position

/-!
# Reports

What the commands print: a line for each occurrence or captured text, or the same as indented
JSON, and a line for each file of an experiment.
-/

namespace TreeQuery.CommandLine

-- ---------------------------------------------------------------------------
-- Indented JSON
-- ---------------------------------------------------------------------------

namespace Json

/-- A text in quotes; control characters are escaped, all others stand as they are. -/
def char (c : Char) : List Char :=
  if c = '"' then ['\\', '"']
  else if c = '\\' then ['\\', '\\']
  else if c = '\n' then ['\\', 'n']
  else if c = '\r' then ['\\', 'r']
  else if c = '\t' then ['\\', 't']
  else if c = '\x08' then ['\\', 'b']
  else if c = '\x0c' then ['\\', 'f']
  else if c.toNat < 0x20 then
    let digits := Nat.toDigits 16 c.toNat
    '\\' :: 'u' :: List.replicate (4 - digits.length) '0' ++ digits
  else [c]

def text (cs : List Char) : List Char := '"' :: cs.flatMap char ++ ['"']

def indent (depth : Nat) : List Char := '\n' :: List.replicate (2 * depth) ' '

/-- Parts on lines of their own, one level deeper than their brackets. -/
def block (depth : Nat) (opener closer : Char) (parts : List (List Char)) : List Char :=
  if parts.isEmpty then [opener, closer]
  else
    opener :: Text.join [','] (parts.map (indent (depth + 1) ++ ·)) ++ indent depth ++ [closer]

def array (depth : Nat) (parts : List (List Char)) : List Char := block depth '[' ']' parts

def object (depth : Nat) (members : List (String × List Char)) : List Char :=
  block depth '{' '}' (members.map fun (key, value) => text key.toList ++ ':' :: ' ' :: value)

end Json

structure SourceFile where
  path : File.Path
  source : List Char
  tree : Tree

structure OccurrenceRecord where
  path : File.Path
  index : Nat
  position : Text.Position
  text : List Char
  captures : List (List Char)

def OccurrenceRecord.make (f : SourceFile) (o : Occurrence) : OccurrenceRecord :=
  ⟨f.path, o.index, Text.Position.ofOffset f.source ((o.tree.span.map (·.start)).getD 0),
    o.tree.textIn f.source, o.outcome.sites.map fun s => s.tree.textIn f.source⟩

structure CaptureRecord where
  path : File.Path
  captures : List (List Char)

def colon : List Char := [':']

def OccurrenceRecord.line (r : OccurrenceRecord) : List Char :=
  r.path.text ++ colon ++ Number.decimal r.position.line ++ colon ++
    Number.decimal r.position.column ++ ':' :: ' ' :: r.text ++ ['\n']

def OccurrenceRecord.json (r : OccurrenceRecord) : List Char :=
  Json.object 1
    [("path", Json.text r.path.text), ("index", Number.decimal r.index),
      ("line", Number.decimal r.position.line), ("column", Number.decimal r.position.column),
      ("text", Json.text r.text), ("captures", Json.array 2 (r.captures.map Json.text))]

def CaptureRecord.lines (r : CaptureRecord) : List Char :=
  r.captures.flatMap fun text => r.path.text ++ ':' :: ' ' :: text ++ ['\n']

def CaptureRecord.json (r : CaptureRecord) : List Char :=
  Json.object 1
    [("path", Json.text r.path.text), ("captures", Json.array 2 (r.captures.map Json.text))]

def occurrenceReport (records : List OccurrenceRecord) : OutputFormat → List Char
  | .human => records.flatMap OccurrenceRecord.line
  | .json => Json.array 0 (records.map OccurrenceRecord.json) ++ ['\n']

def captureReport (records : List CaptureRecord) : OutputFormat → List Char
  | .human => records.flatMap CaptureRecord.lines
  | .json => Json.array 0 (records.map CaptureRecord.json) ++ ['\n']

def statusText (o : Experiment.FileOutcome) : List Char :=
  match o.status with
  | .noOccurrences => "no occurrences".toList
  | .committed fragment =>
    "rewrote occurrences ".toList ++ fragment.label ++ " of ".toList ++ Number.decimal o.occurrences
  | .unchanged => "unchanged after ".toList ++ Number.decimal o.tested ++ " candidates".toList
  | .budgetExceeded e => "unchanged, ".toList ++ e.message.toList
  | .cancelled => "cancelled".toList
  | .failed e => "failed, ".toList ++ e.message.toList

def outcomeLine (o : Experiment.FileOutcome) : List Char :=
  o.path.text ++ ':' :: ' ' :: statusText o ++ ['\n']

-- ---------------------------------------------------------------------------
-- The log
-- ---------------------------------------------------------------------------

def logValue : Log.Value → List Char
  | .plain cs => Json.text cs
  | .quoted cs => Json.text cs
  | .number n => Number.decimal n
  | .flag b => (if b then "true" else "false").toList

def logLine (e : Log.Entry) : LogFormat → List Char
  | .compact => e.line ++ ['\n']
  | .json =>
    let members : List (String × List Char) :=
      [("level", Json.text e.level.name.toList), ("message", Json.text e.message.toList)] ++
        e.fields.map (fun (key, value) => (key, logValue value)) ++
        [("target", Json.text e.target.toList)]
    let parts := members.map fun (key, value) => Json.text key.toList ++ ':' :: value
    '{' :: Text.join [','] parts ++ ['}', '\n']

end TreeQuery.CommandLine
