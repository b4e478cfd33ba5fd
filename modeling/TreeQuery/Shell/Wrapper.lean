import TreeQuery.Shell.Control
import TreeQuery.Shell.Options

/-!
# Programs that run programs

What the words of such a program say: in which surroundings, for how long, and with which further
words another program is run.
-/

namespace TreeQuery.Shell

-- ---------------------------------------------------------------------------
-- Other variables
-- ---------------------------------------------------------------------------

structure EnvCall where
  clear : Bool
  removed : List (List Char)
  assigned : List (List Char × List Char)
  command : List (List Char)

def envTable : OptionTable where
  flags := "i0v"
  valued := "uCS"
  names := [("ignore-environment", 'i', .nothing), ("null", '0', .nothing),
    ("unset", 'u', .value), ("chdir", 'C', .value)]

def envCall? (words : List (List Char)) : Option EnvCall := do
  let w ← envTable.read? false words
  let dashes := w.operands.takeWhile (· == ['-'])
  let rest := w.operands.drop dashes.length
  let assignments := rest.takeWhile (·.contains '=')
  return {
    clear := w.has 'i' || !dashes.isEmpty
    removed := (w.options.filter (·.letter == 'u')).map (·.value)
    assigned := assignments.map fun a =>
      let (name, value) := definition a
      (name, value.getD [])
    command := rest.drop assignments.length }

def EnvCall.apply (c : EnvCall) (s : State) : State :=
  let s := if c.clear then { s with vars := [] } else s
  let s := c.removed.foldl State.removeVariable s
  c.assigned.foldl (fun s (name, value) => s.putVariable ⟨name, some value, true, false⟩) s

def State.environmentText (s : State) : List Char :=
  unlines ((s.vars.filter (·.exported)).filterMap fun v => v.value.map (v.name ++ '=' :: ·))

-- ---------------------------------------------------------------------------
-- A limit of time
-- ---------------------------------------------------------------------------

structure TimeoutCall where
  signal : Nat
  preserves : Bool
  millis : Option Nat
  command : List (List Char)

def timeoutTable : OptionTable where
  flags := "v"
  valued := "ks"
  names := [("foreground", 'f', .nothing), ("kill-after", 'k', .value),
    ("preserve-status", 'p', .nothing), ("signal", 's', .value), ("verbose", 'v', .nothing)]

def timeoutCall? (words : List (List Char)) : Option TimeoutCall := do
  let w ← timeoutTable.read? false words
  let signal ← match w.value? 's' with
    | none => some 15
    | some name => (signal? name).map (·.2)
  match w.operands with
  | duration :: program :: args =>
    let millis ← Printing.duration? duration
    return ⟨signal, w.has 'p', if millis == some 0 then none else millis, program :: args⟩
  | _ => none

def TimeoutCall.status (c : TimeoutCall) : Nat :=
  if c.preserves || c.signal = 9 then 128 + c.signal else 124

def TimeoutCall.limited (c : TimeoutCall) (body : Session Unit) : Session Unit := fun s =>
  match c.millis with
  | none => body s
  | some millis =>
    let own := s.clock + millis
    if s.limit.any (· ≤ own) then body s
    else
      let (result, t) := body { s with limit := some own }
      let t := { t with limit := s.limit }
      match result with
      | .error .late => (.ok (), { t with clock := own, status := c.status })
      | _ => (result, t)

-- ---------------------------------------------------------------------------
-- Words from the standard input
-- ---------------------------------------------------------------------------

structure XargsCall where
  most : Option Nat
  mostLines : Option Nat
  placeholder : Option (List Char)
  skipsEmpty : Bool
  /-- What words end at, if that is one character and nothing is quoted. -/
  delimiter : Option Char
  command : List (List Char)

def xargsTable : OptionTable where
  flags := "0rtxpo"
  valued := "nLIdsPEa"
  names := [("null", '0', .nothing), ("no-run-if-empty", 'r', .nothing), ("max-args", 'n', .value),
    ("max-lines", 'L', .perhaps), ("replace", 'I', .perhaps), ("delimiter", 'd', .value),
    ("verbose", 't', .nothing), ("max-procs", 'P', .value)]

def xargsCall? (words : List (List Char)) : Option XargsCall := do
  let w ← xargsTable.read? false words
  return {
    most := (w.value? 'n').bind Number.digits?
    mostLines := (w.value? 'L').bind Number.digits?
    placeholder := w.value? 'I'
    skipsEmpty := w.has 'r'
    delimiter :=
      if w.has '0' then some '\x00'
      else (w.value? 'd').bind fun d => (Printing.unescape d).1.head?
    command := if w.operands.isEmpty then ["echo".toList] else w.operands }

/-- Words with quotes and backslashes, line by line; `none` if a quote is open. `word` is the word
that has begun. -/
def quotedWords (quote : Option Char) (word : Option (List Char)) :
    List Char → Option (List (List (List Char)))
  | [] => if quote.isSome then none else some [word.toList]
  | '\\' :: d :: rest =>
    match quote with
    | none => quotedWords none (some (word.getD [] ++ [d])) rest
    | some q =>
      if d = q then quotedWords none (some (word.getD [] ++ ['\\'])) rest
      else if d = '\n' then none
      else quotedWords quote (some (word.getD [] ++ ['\\', d])) rest
  | c :: rest =>
    let push (w : List Char) (ls : List (List (List Char))) : List (List (List Char)) :=
      match ls with
      | [] => [[w]]
      | l :: ls => (w :: l) :: ls
    let ended (ls : List (List (List Char))) : List (List (List Char)) :=
      match word with
      | some w => push w ls
      | none => ls
    match quote with
    | some q =>
      if c = q then quotedWords none (some (word.getD [])) rest
      else if c = '\n' then none
      else quotedWords quote (some (word.getD [] ++ [c])) rest
    | none =>
      if c = '"' || c = '\x27' then quotedWords (some c) (some (word.getD [])) rest
      else if c = '\n' then (quotedWords none none rest).map fun ls => ended ([] :: ls)
      else if Lines.isBlank c then (quotedWords none none rest).map ended
      else quotedWords none (some (word.getD [] ++ [c])) rest

def groupsFor (most : Nat) : Nat → List α → List (List α)
  | 0, _ => []
  | _, [] => []
  | fuel + 1, xs => xs.take most :: groupsFor most fuel (xs.drop most)

def groups (most : Nat) (xs : List α) : List (List α) := groupsFor (max most 1) (xs.length + 1) xs

def XargsCall.commands? (c : XargsCall) (input : List Char) : Option (List (List (List Char))) :=
  let pieces (d : Char) : List (List Char) :=
    match (Text.split d input).reverse with
    | [] :: rest => rest.reverse
    | all => all.reverse
  match c.placeholder with
  | some mark =>
    let ls := (pieces (c.delimiter.getD '\n')).map (·.dropWhile Lines.isBlank)
    some ((ls.filter (!·.isEmpty)).map fun l => c.command.map (Text.replace mark l))
  | none => do
    let byLine ← match c.delimiter with
      | some d => some ((pieces d).map ([·]))
      | none => quotedWords none none input
    let byLine := byLine.filter (!·.isEmpty)
    let found := match c.mostLines with
      | some n => (groups n byLine).map List.flatten
      | none =>
        match c.most with
        | some n => groups n byLine.flatten
        | none => if byLine.isEmpty then [] else [byLine.flatten]
    let found := if found.isEmpty && !c.skipsEmpty then [[]] else found
    return found.map (c.command ++ ·)

end TreeQuery.Shell
