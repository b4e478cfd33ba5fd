import TreeQuery.Number.Integer
import TreeQuery.Settings.Load

/-!
# Arguments

The flags for settings stand before the command and are split off first. The words of a command
are read from left to right: options with their values, and positional words. Pattern and template
may begin with a dash unless they spell an option of the command; after `--` every word is
positional. The policy option takes all words that follow it.
-/

namespace TreeQuery.CommandLine

-- ---------------------------------------------------------------------------
-- Flags for settings
-- ---------------------------------------------------------------------------

inductive FlagWord where
  | inline
  | separate
  | other
deriving DecidableEq, Repr

def classify (word : List Char) : FlagWord :=
  if Settings.flags.contains (word.takeWhile (· != '=')) then
    if word.contains '=' then .inline else .separate
  else .other

variable {α : Type}

/-- The flags with their values, and the words from the command on. `text` is what a word reads as.
While a flag waits for its value, any word is taken for it. -/
def splitFlags (text : α → List Char) (waiting : Bool) : List α → List α × List α
  | [] => ([], [])
  | word :: rest =>
    if !waiting && classify (text word) = .other then ([], word :: rest)
    else
      let (flags, command) :=
        splitFlags text (!waiting && classify (text word) = .separate) rest
      (word :: flags, command)

structure Split (α : Type) where
  settings : List α
  command : List α

def split (text : α → List Char) : List α → Split α
  | [] => ⟨[], []⟩
  | program :: words =>
    let (flags, command) := splitFlags text false words
    ⟨program :: flags, program :: command⟩

-- ---------------------------------------------------------------------------
-- Words of a command
-- ---------------------------------------------------------------------------

inductive Stop where
  | help
  | version
  | usage
deriving DecidableEq, Repr

inductive Arity where
  | flag
  | value
  | rest
deriving DecidableEq, Repr

structure Shape where
  options : List (List Char × Arity)
  /-- How many positional words, from the first, may begin with a dash. -/
  dashed : Nat
  /-- How many positional words follow those. -/
  paths : Nat
  repeated : Bool

structure Words where
  positional : List (List Char)
  options : List (List Char × List (List Char))

namespace Words

def none : Words := ⟨[], []⟩

def has (w : Words) (name : List Char) : Bool := w.options.any (·.1 == name)

def values (w : Words) (name : List Char) : List (List Char) :=
  (w.options.filter (·.1 == name)).flatMap (·.2)

def value? (w : Words) (name : List Char) : Option (List Char) := (w.values name).head?

def add (w : Words) (name : List Char) (values : List (List Char)) : Words :=
  { w with options := w.options ++ [(name, values)] }

end Words

def helpName : List Char := "help".toList

/-- A file name has at least one character, and there is room for it. -/
def addPositional (shape : Shape) (w : Words) (word : List Char) : Except Stop Words :=
  let index := w.positional.length
  if index < shape.dashed ||
    ((shape.repeated || index < shape.dashed + shape.paths) && !word.isEmpty)
  then .ok { w with positional := w.positional ++ [word] }
  else .error .usage

def mayBeDashed (shape : Shape) (w : Words) : Bool := w.positional.length < shape.dashed

def addOnce (check : List Char → List Char → Bool) (w : Words) (name value : List Char) :
    Except Stop Words :=
  if w.has name || !check name value then .error .usage else .ok (w.add name [value])

/-- Reads the words of a command; `check` says which values an option takes. -/
def readWords (shape : Shape) (check : List Char → List Char → Bool) :
    Words → List (List Char) → Except Stop Words
  | w, [] => .ok w
  | w, ['-', '-'] :: rest => rest.foldlM (addPositional shape) w
  | w, ('-' :: '-' :: long) :: rest =>
    let name := long.takeWhile (· != '=')
    let inline? := (long.dropWhile (· != '=')).tail?
    if name = helpName then .error (if inline?.isSome then .usage else .help)
    else match shape.options.lookup name, inline? with
      | some .flag, some _ => .error .usage
      | some .flag, none =>
        if w.has name then .error .usage else readWords shape check (w.add name []) rest
      | some .value, some value =>
        (addOnce check w name value).bind fun w => readWords shape check w rest
      | some .value, none =>
        match rest with
        | [] => .error .usage
        | value :: rest =>
          if Settings.isFlagLike value then .error .usage
          else (addOnce check w name value).bind fun w => readWords shape check w rest
      | some .rest, some value => readWords shape check (w.add name [value]) rest
      | some .rest, none => if rest.isEmpty then .error .usage else .ok (w.add name rest)
      | none, _ =>
        if mayBeDashed shape w then
          (addPositional shape w ('-' :: '-' :: long)).bind fun w => readWords shape check w rest
        else .error .usage
  | w, ('-' :: c :: cs) :: rest =>
    if mayBeDashed shape w && (c :: cs).any (· != 'h') then
      (addPositional shape w ('-' :: c :: cs)).bind fun w => readWords shape check w rest
    else .error (if c = 'h' then .help else .usage)
  | w, word :: rest => (addPositional shape w word).bind fun w => readWords shape check w rest

-- ---------------------------------------------------------------------------
-- Commands
-- ---------------------------------------------------------------------------

inductive OutputFormat where
  | human
  | json
deriving DecidableEq, Repr

structure SearchArguments where
  pattern : List Char
  files : List File.Path
  format : OutputFormat
  trace : Bool
deriving DecidableEq, Repr

structure ReviseArguments where
  pattern : List Char
  template : List Char
  file : File.Path
  only : Option Nat
  write : Bool
deriving DecidableEq, Repr

structure ExperimentArguments where
  pattern : List Char
  template : List Char
  paths : List File.Path
  timeout : Option Nat
  policy : List (List Char)
deriving DecidableEq, Repr

inductive Command where
  | search (a : SearchArguments)
  | capture (a : SearchArguments)
  | revise (a : ReviseArguments)
  | experiment (a : ExperimentArguments)
deriving DecidableEq, Repr

def format? (cs : List Char) : Option OutputFormat :=
  if cs = "human".toList then some .human
  else if cs = "json".toList then some .json
  else none

def takes (name value : List Char) : Bool :=
  if name = "format".toList then (format? value).isSome else (Number.natural? value).isSome

def searchShape : Shape where
  options := [("format".toList, .value), ("trace".toList, .flag)]
  dashed := 1
  paths := 1
  repeated := true

def reviseShape : Shape where
  options := [("only".toList, .value), ("write".toList, .flag)]
  dashed := 2
  paths := 1
  repeated := false

def experimentShape : Shape where
  options := [("timeout".toList, .value), ("policy".toList, .rest)]
  dashed := 2
  paths := 1
  repeated := true

def readSearch (words : List (List Char)) : Except Stop SearchArguments :=
  (readWords searchShape takes .none words).bind fun w =>
    match w.positional with
    | pattern :: file :: files =>
      .ok ⟨pattern, (file :: files).map .mk,
        ((w.value? "format".toList).bind format?).getD .human, w.has "trace".toList⟩
    | _ => .error .usage

def readRevise (words : List (List Char)) : Except Stop ReviseArguments :=
  (readWords reviseShape takes .none words).bind fun w =>
    match w.positional with
    | [pattern, template, file] =>
      .ok ⟨pattern, template, ⟨file⟩, (w.value? "only".toList).bind Number.natural?,
        w.has "write".toList⟩
    | _ => .error .usage

def readExperiment (words : List (List Char)) : Except Stop ExperimentArguments :=
  (readWords experimentShape takes .none words).bind fun w =>
    match w.positional with
    | pattern :: template :: path :: paths =>
      if w.has "policy".toList then
        .ok ⟨pattern, template, (path :: paths).map .mk,
          (w.value? "timeout".toList).bind Number.natural?, w.values "policy".toList⟩
      else .error .usage
    | _ => .error .usage

def readCommand : List (List Char) → Except Stop Command
  | [] => .error .usage
  | word :: rest =>
    match String.ofList word with
    | "search" => (readSearch rest).map .search
    | "capture" => (readSearch rest).map .capture
    | "rewrite" => (readRevise rest).map .revise
    | "experiment" => (readExperiment rest).map .experiment
    | "--help" => .error .help
    | "--version" => .error .version
    | _ =>
      match word with
      | '-' :: 'h' :: _ => .error .help
      | '-' :: 'V' :: _ => .error .version
      | _ => .error .usage

end TreeQuery.CommandLine
