import TreeQuery.Number.Integer
import TreeQuery.Text.Class
import TreeQuery.Text.Escaped
import TreeQuery.Text.Find
import TreeQuery.Text.Utf8

/-!
# Log entries and filters

A filter is a list of directives separated by commas. A directive names a level, or a target with
or without a level, and may ask for fields. Of the directives that apply to an entry the most
specific one decides: the one with the longest target, then the one with the most fields. A filter
without directives lets errors through.
-/

namespace TreeQuery.Log

inductive Level where
  | error
  | warn
  | info
  | debug
  | trace
deriving DecidableEq, Repr

namespace Level

def rank : Level → Nat
  | .error => 1
  | .warn => 2
  | .info => 3
  | .debug => 4
  | .trace => 5

def name : Level → String
  | .error => "ERROR"
  | .warn => "WARN"
  | .info => "INFO"
  | .debug => "DEBUG"
  | .trace => "TRACE"

end Level

inductive Value where
  | plain (text : List Char)
  | quoted (text : List Char)
  | number (n : Nat)
  | flag (b : Bool)
deriving DecidableEq, Repr

structure Entry where
  level : Level
  target : String
  message : String
  fields : List (String × Value)
deriving DecidableEq, Repr

namespace Entry

def valueText : Value → List Char
  | .plain text => text
  | .quoted text => Text.Escaped.text text
  | .number n => Number.decimal n
  | .flag b => (if b then "true" else "false").toList

/-- One line: level, target, message, then the fields. -/
def line (e : Entry) : List Char :=
  e.level.name.toList ++ ' ' :: e.target.toList ++ ':' :: ' ' :: e.message.toList ++
    e.fields.flatMap fun (key, value) => ' ' :: key.toList ++ '=' :: valueText value

end Entry

namespace Entry

def fieldNames (e : Entry) : List (List Char) := "message".toList :: e.fields.map (·.1.toList)

end Entry

/-- The entries up to a rank whose target has this beginning and which have these fields. -/
structure Directive where
  target : Option (List Char)
  fields : List (List Char)
  rank : Nat
deriving DecidableEq, Repr

namespace Directive

def applies (d : Directive) (e : Entry) : Bool :=
  (d.target.getD []).isPrefixOf e.target.toList && d.fields.all e.fieldNames.contains

def targetLength (d : Directive) : Nat := (d.target.map (·.length + 1)).getD 0

/-- Of two directives that apply, the more specific one, and among equals the later one. -/
def prefer (a b : Directive) : Directive :=
  if a.targetLength != b.targetLength then
    if a.targetLength < b.targetLength then b else a
  else if a.fields.length != b.fields.length then
    if a.fields.length < b.fields.length then b else a
  else if Text.precedes (Text.join [','] a.fields) (Text.join [','] b.fields) then b
  else a

inductive Stage where
  | start
  | opening
  | span (place : Nat)
  | field (place : Nat)
  | fields
  | target
  | level (place : Nat)

/-- A directive as it is being read. It is for spans only if it has the name of a span, or asks for
the value of a field. -/
structure Draft where
  directive : Directive
  spansOnly : Bool

def isOpening (c : Char) : Bool :=
  c == '-' || c == ':' || (Text.isWord c)

def rank? (cs : List Char) : Option Nat :=
  match Number.natural? cs with
  | some n => if n ≤ 5 then some n else none
  | none =>
    match String.ofList (Text.lower cs) with
    | "off" => some 0
    | "error" => some 1
    | "warn" => some 2
    | "info" => some 3
    | "debug" => some 4
    | "trace" => some 5
    | _ => none

def Draft.withField? (d : Draft) (cs : List Char) : Option Draft :=
  if cs.isEmpty then none
  else
    let name := cs.takeWhile (· != '=')
    some ⟨{ d.directive with fields := d.directive.fields ++ [name] },
      d.spansOnly || name.length < cs.length⟩

def Draft.withTarget (d : Draft) (cs : List Char) : Draft :=
  { d with directive := { d.directive with target := some cs } }

def step? (text : List Char) (stage : Stage) (d : Draft) (place : Nat) (c : Char) :
    Option (Stage × Draft) :=
  let since (start : Nat) : Option (List Char) := Text.slice? start place text
  match stage with
  | .start =>
    if c = '[' then some (.span (place + 1), d)
    else if isOpening c then some (.opening, d)
    else none
  | .opening =>
    if c = '=' then (since 0).map fun cs => (.level (place + 1), d.withTarget cs)
    else if c = '[' then (since 0).map fun cs => (.span (place + 1), d.withTarget cs)
    else some (.opening, d)
  | .span start =>
    if c = ']' then some (.target, { d with spansOnly := true })
    else if c = '{' then
      (since start).map fun cs =>
        (.field (place + 1), { d with spansOnly := d.spansOnly || !cs.isEmpty })
    else some (.span start, d)
  | .field start =>
    if c = '}' then ((since start).bind d.withField?).map fun d => (.fields, d)
    else some (.field start, d)
  | .fields => if c = ']' then some (.target, d) else none
  | .target => if c = '=' then some (.level (place + 1), d) else none
  | .level start => some (.level start, d)

def steps? (text : List Char) : Stage → Draft → Nat → List Char → Option (Stage × Draft)
  | stage, d, _, [] => some (stage, d)
  | stage, d, place, c :: cs =>
    (step? text stage d place c).bind fun (stage, d) => steps? text stage d (place + c.utf8Size) cs

def levelRank? (cs : List Char) : Option Nat :=
  if cs.isEmpty then some Level.trace.rank else rank? cs

/-- Reads one directive. The characters are those without the blanks around them, while the parts
are cut out of the text with the blanks. -/
def ofText? (text : List Char) : Option Draft := do
  let trimmed := ((text.dropWhile Text.isSpace).reverse.dropWhile Text.isSpace).reverse
  let everything : Draft := ⟨⟨none, [], Level.trace.rank⟩, false⟩
  match ← steps? text .start everything 0 trimmed with
  | (.opening, d) =>
    match rank? text with
    | some rank => return { d with directive := { d.directive with rank := rank } }
    | none => return d.withTarget text
  | (.level start, d) =>
    let rank ← levelRank? (← Text.slice? start (Text.width text) text)
    return { d with directive := { d.directive with rank := rank } }
  | (.target, d) => return d
  | _ => none

end Directive

abbrev Filter := List Directive

namespace Filter

/-- `none` if some directive cannot be read. Directives for spans let no entry through. -/
def ofText? (cs : List Char) : Option Filter :=
  let parts := (Text.split ',' cs).filter fun p => !p.isEmpty
  if parts.isEmpty then some [⟨none, [], Level.error.rank⟩]
  else (parts.mapM Directive.ofText?).map fun drafts =>
    (drafts.filter fun d => !d.spansOnly).map (·.directive)

def enables (f : Filter) (e : Entry) : Bool :=
  match f.filter (·.applies e) with
  | [] => false
  | d :: ds => e.level.rank ≤ (ds.foldl Directive.prefer d).rank

end Filter

end TreeQuery.Log
