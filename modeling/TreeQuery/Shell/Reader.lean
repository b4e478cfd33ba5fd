import TreeQuery.Shell.Script
import TreeQuery.Text.Find

/-!
# Reading scripts

A script is read line by line: every line with the commands on it is complete before anything of it
is run. Every reader takes the text from its place on and gives what it has read with the text that
follows, or nothing if the text cannot be read. They call each other at most `fuel` deep.
-/

namespace TreeQuery.Shell.Reader

-- ---------------------------------------------------------------------------
-- Characters and words
-- ---------------------------------------------------------------------------

def isNameStart (c : Char) : Bool := c.isAlpha || c == '_'

def isNameChar (c : Char) : Bool := c.isAlphanum || c == '_'

def isName : List Char → Bool
  | c :: cs => isNameStart c && cs.all isNameChar
  | [] => false

def isMeta (c : Char) : Bool :=
  c == ' ' || c == '\t' || c == '\n' || c == ';' || c == '&' || c == '|' || c == '<' || c == '>' ||
    c == '(' || c == ')'

def isSpecial (c : Char) : Bool :=
  c == '@' || c == '*' || c == '#' || c == '?' || c == '-' || c == '$' || c == '!'

def skipBlanksFor : Nat → List Char → List Char
  | 0, cs => cs
  | fuel + 1, cs =>
    match cs with
    | ' ' :: rest | '\t' :: rest => skipBlanksFor fuel rest
    | '\\' :: '\n' :: rest => skipBlanksFor fuel rest
    | '#' :: rest => rest.dropWhile (· != '\n')
    | _ => cs

def skipBlanks (cs : List Char) : List Char := skipBlanksFor cs.length cs

def skipLinesFor : Nat → List Char → List Char
  | 0, cs => cs
  | fuel + 1, cs =>
    match skipBlanks cs with
    | '\n' :: rest => skipLinesFor fuel rest
    | cs => cs

def skipLines (cs : List Char) : List Char := skipLinesFor (cs.length + 1) cs

def bareWord (cs : List Char) : List Char := cs.takeWhile (!isMeta ·)

def reserved : List String :=
  ["!", "\x7b", "\x7d", "case", "do", "done", "elif", "else", "esac", "fi", "for", "if", "in",
    "then", "until", "while"]

def startsWith (name : String) (cs : List Char) : Bool := bareWord cs == name.toList

def expect (name : String) (cs : List Char) : Option (List Char) :=
  let cs := skipBlanks cs
  if startsWith name cs then some (cs.drop name.length) else none

def closers : List String := ["do", "done", "elif", "else", "esac", "fi", "then", "\x7d"]

def isListEnd (cs : List Char) : Bool :=
  match cs with
  | [] => true
  | ')' :: _ => true
  | ';' :: ';' :: _ => true
  | _ => closers.contains (String.ofList (bareWord cs))

def addText (quoted : Bool) (cs : List Char) : List Part → List Part
  | .text q ds :: rest =>
    if q == quoted then .text q (cs ++ ds) :: rest else .text quoted cs :: .text q ds :: rest
  | parts => .text quoted cs :: parts

inductive Stop where
  | word
  | brace
  /-- At two closing brackets; so many opening ones have to be closed before. -/
  | brackets (depth : Nat)
  | finish
deriving DecidableEq

def backquoted (inQuotes : Bool) : List Char → Option (List Char × List Char)
  | [] => none
  | '\x60' :: rest => some ([], rest)
  | '\\' :: c :: rest =>
    (backquoted inQuotes rest).map fun (script, rest) =>
      if c = '\x60' || c = '\\' || c = '$' || (c = '"' && inQuotes) then (c :: script, rest)
      else ('\\' :: c :: script, rest)
  | c :: rest => (backquoted inQuotes rest).map fun (script, rest) => (c :: script, rest)

def parameterName (cs : List Char) : List Char :=
  match cs with
  | c :: _ =>
    if isNameStart c then cs.takeWhile isNameChar
    else if c.isDigit then cs.takeWhile Char.isDigit
    else if isSpecial c then [c]
    else []
  | [] => []

def plain? : List Part → Option (List Char)
  | [] => some []
  | .text false cs :: rest => (plain? rest).map (cs ++ ·)
  | _ => none

def literal? : List Part → Option (List Char × Bool)
  | [] => some ([], false)
  | .text quoted cs :: rest => (literal? rest).map fun (ds, q) => (cs ++ ds, q || quoted)
  | _ => none

def assignment? : List Part → Option (List Char × List Part)
  | .text false cs :: rest =>
    let name := cs.takeWhile (· != '=')
    if isName name && name.length < cs.length then
      let value := cs.drop (name.length + 1)
      some (name, if value.isEmpty then rest else .text false value :: rest)
    else none
  | _ => none

/-- The lines up to one that is the delimiter, and the text behind it. -/
def hereLines (strip : Bool) (delimiter : List Char) : List (List Char) →
    List (List Char) × List (List Char)
  | [] => ([], [])
  | line :: rest =>
    let line := if strip then line.dropWhile (· == '\t') else line
    if line == delimiter then ([], rest)
    else let (body, after) := hereLines strip delimiter rest; (line :: body, after)

/-- Cuts the text that belongs to a line out of what follows the line: the text, and the rest
without it. -/
def hereText (strip : Bool) (delimiter cs : List Char) : List Char × List Char :=
  let line := cs.takeWhile (· != '\n')
  match cs.drop line.length with
  | [] => ([], cs)
  | _ :: rest =>
    let all := Text.split '\n' rest
    let (body, after) := hereLines strip delimiter all
    let isOpen := body.length == all.length
    let text := if isOpen then Text.join ['\n'] body else body.flatMap (· ++ ['\n'])
    (text, line ++ '\n' :: Text.join ['\n'] after)

def attachment? : List Char → Option (Attachment × Bool × List Char)
  | '<' :: '<' :: '-' :: rest => some (.here, true, rest)
  | '<' :: '<' :: rest => some (.here, false, rest)
  | '<' :: '&' :: rest => some (.duplicate, false, rest)
  | '<' :: '>' :: rest => some (.readWrite, false, rest)
  | '<' :: rest => some (.read, false, rest)
  | '>' :: '>' :: rest => some (.append, false, rest)
  | '>' :: '&' :: rest => some (.duplicate, false, rest)
  | '>' :: '|' :: rest => some (.overwrite, false, rest)
  | '>' :: rest => some (.write, false, rest)
  | _ => none

def descriptor? (cs : List Char) : Option Nat × List Char :=
  match cs with
  | d :: c :: rest =>
    if d.isDigit && (c == '<' || c == '>') then (some (d.toNat - 48), c :: rest) else (none, cs)
  | _ => (none, cs)

def substitute? : Char → Option Substitute
  | '-' => some .otherwise
  | '=' => some .assign
  | '?' => some .fail
  | '+' => some .instead
  | _ => none

-- ---------------------------------------------------------------------------
-- The grammar
-- ---------------------------------------------------------------------------

mutual
/-- The parts of a word. `base` says that the word stands between quotes as a whole, `inner` that a
quote has been opened in it. -/
def parts : Nat → Bool → Bool → Stop → List Char → Option (List Part × List Char)
  | 0, _, _, _, _ => none
  | _, _, inner, stop, [] =>
    if inner then none
    else match stop with
      | .word | .finish => some ([], [])
      | .brace | .brackets _ => none
  | fuel + 1, base, inner, stop, c :: rest =>
    let quoted := base || inner
    let put (cs : List Char) (rest : List Char) : Option (List Part × List Char) :=
      (parts fuel base inner stop rest).map fun (ps, rest) => (addText quoted cs ps, rest)
    let putQuoted (cs : List Char) (rest : List Char) : Option (List Part × List Char) :=
      (parts fuel base inner stop rest).map fun (ps, rest) => (addText true cs ps, rest)
    let putPart (p : Part) (rest : List Char) : Option (List Part × List Char) :=
      (parts fuel base inner stop rest).map fun (ps, rest) => (p :: ps, rest)
    if stop = .word && !quoted && isMeta c then some ([], c :: rest)
    else if stop = .brace && !inner && c = '}' then some ([], rest)
    else match c, rest with
    | '\\', '\n' :: rest => parts fuel base inner stop rest
    | '\\', d :: rest =>
      if !quoted then putQuoted [d] rest
      else if d = '$' || d = '\x60' || d = '\\' || (d = '"' && stop != .finish) ||
          (d = '}' && stop = .brace) then putQuoted [d] rest
      else putQuoted ['\\', d] rest
    | '\\', [] => putQuoted ['\\'] []
    | '$', '(' :: '(' :: rest => do
      let (ps, rest) ← parts fuel true false (.brackets 0) rest
      putPart (.arithmetic quoted ps) rest
    | '$', '(' :: rest => do
      let (s, rest) ← commands fuel true rest
      match skipLines rest with
      | ')' :: rest => putPart (.output quoted s) rest
      | _ => none
    | '$', '{' :: rest => do
      let (p, rest) ← parameter fuel quoted rest
      putPart p rest
    | '$', d :: after =>
      if isNameStart d then
        let name := (d :: after).takeWhile isNameChar
        putPart (.parameter quoted name .plain) ((d :: after).drop name.length)
      else if d.isDigit || isSpecial d then putPart (.parameter quoted [d] .plain) after
      else put ['$'] rest
    | '\x60', _ => do
      let (script, rest) ← backquoted quoted rest
      let (s, left) ← commands fuel true script
      if (skipLines left).isEmpty then putPart (.output quoted s) rest else none
    | _, _ =>
      if c = '"' && stop != .finish then
        let marked := !inner && rest.head? == some '"'
        (parts fuel base (!inner) stop rest).map fun (ps, rest) =>
          (if marked then addText true [] ps else ps, rest)
      else if c = '\x27' && !quoted then
        let text := rest.takeWhile (· != '\x27')
        match rest.drop text.length with
        | _ :: rest => putQuoted text rest
        | [] => none
      else match stop with
        | .brackets depth =>
          if c = ')' then
            match depth with
            | 0 =>
              match rest with
              | ')' :: rest => some ([], rest)
              | _ => none
            | depth + 1 =>
              (parts fuel base inner (.brackets depth) rest).map fun (ps, rest) =>
                (addText quoted [c] ps, rest)
          else if c = '(' then
            (parts fuel base inner (.brackets (depth + 1)) rest).map fun (ps, rest) =>
              (addText quoted [c] ps, rest)
          else put [c] rest
        | _ => put [c] rest
def parameter : Nat → Bool → List Char → Option (Part × List Char)
  | 0, _, _ => none
  | fuel + 1, quoted, cs =>
    let lengthOf := match cs with
      | '#' :: rest =>
        let name := parameterName rest
        if !name.isEmpty && (rest.drop name.length).head? == some '}' then some name else none
      | _ => none
    match lengthOf with
    | some name => some (.parameter quoted name .length, cs.drop (name.length + 2))
    | none =>
      let name := parameterName cs
      let rest := cs.drop name.length
      let word (base : Bool) (rest : List Char) := parts fuel base false .brace rest
      let malformed : Option (Part × List Char) :=
        (word quoted rest).map fun (_, rest) => (.parameter quoted name .malformed, rest)
      if name.isEmpty then malformed
      else match rest with
      | '}' :: rest => some (.parameter quoted name .plain, rest)
      | '#' :: '#' :: rest =>
        (word false rest).map fun (w, rest) => (.parameter quoted name (.cut false true w), rest)
      | '#' :: rest =>
        (word false rest).map fun (w, rest) => (.parameter quoted name (.cut false false w), rest)
      | '%' :: '%' :: rest =>
        (word false rest).map fun (w, rest) => (.parameter quoted name (.cut true true w), rest)
      | '%' :: rest =>
        (word false rest).map fun (w, rest) => (.parameter quoted name (.cut true false w), rest)
      | ':' :: c :: rest =>
        match substitute? c with
        | some kind =>
          (word quoted rest).map fun (w, rest) =>
            (.parameter quoted name (.substitute kind true w), rest)
        | none => malformed
      | c :: rest =>
        match substitute? c with
        | some kind =>
          (word quoted rest).map fun (w, rest) =>
            (.parameter quoted name (.substitute kind false w), rest)
        | none => malformed
      | [] => none
def commands : Nat → Bool → List Char → Option (Script × List Char)
  | 0, _, _ => none
  | fuel + 1, mayBeEmpty, cs => do
    let cs := skipLines cs
    if isListEnd cs then
      if mayBeEmpty then return (.nothing, cs) else none
    let (first, cs) ← chain fuel cs
    let go (first : Script) (cs : List Char) : Option (Script × List Char) := do
      let cs := skipLines cs
      if isListEnd cs then return (first, cs)
      let (more, cs) ← commands fuel false cs
      return (.sequence first more, cs)
    match skipBlanks cs with
    | ';' :: ';' :: rest => return (first, ';' :: ';' :: rest)
    | ';' :: rest => go first rest
    | '&' :: rest => go (.background first) rest
    | '\n' :: rest => go first rest
    | cs => return (first, cs)
def chain : Nat → List Char → Option (Script × List Char)
  | 0, _ => none
  | fuel + 1, cs => do
    let (first, cs) ← pipeline fuel cs
    chainRest fuel first cs
def chainRest : Nat → Script → List Char → Option (Script × List Char)
  | 0, _, _ => none
  | fuel + 1, left, cs =>
    match skipBlanks cs with
    | '&' :: '&' :: rest => do
      let (right, rest) ← pipeline fuel (skipLines rest)
      chainRest fuel (.both left right) rest
    | '|' :: '|' :: rest => do
      let (right, rest) ← pipeline fuel (skipLines rest)
      chainRest fuel (.either left right) rest
    | cs => some (left, cs)
def pipeline : Nat → List Char → Option (Script × List Char)
  | 0, _ => none
  | fuel + 1, cs => do
    let cs := skipBlanks cs
    let isNegated := startsWith "!" cs
    let (first, cs) ← command fuel (if isNegated then cs.drop 1 else cs)
    let (others, cs) ← pipes fuel cs
    let s := if others.isEmpty then first else .pipeline (first :: others)
    return (if isNegated then .negated s else s, cs)
def pipes : Nat → List Char → Option (List Script × List Char)
  | 0, _ => none
  | fuel + 1, cs =>
    match skipBlanks cs with
    | '|' :: '|' :: rest => some ([], '|' :: '|' :: rest)
    | '|' :: rest => do
      let (first, rest) ← command fuel (skipLines rest)
      let (others, rest) ← pipes fuel rest
      return (first :: others, rest)
    | cs => some ([], cs)
def command : Nat → List Char → Option (Script × List Char)
  | 0, _ => none
  | fuel + 1, cs => do
    let cs := skipBlanks cs
    let rest := cs.drop (bareWord cs).length
    match cs with
    | '(' :: rest =>
      let (s, rest) ← commands fuel false rest
      match skipLines rest with
      | ')' :: rest => compound fuel (.subshell s) rest
      | _ => none
    | _ =>
      match String.ofList (bareWord cs) with
      | "\x7b" =>
        let (s, rest) ← commands fuel false rest
        compound fuel s (← expect "\x7d" (skipLines rest))
      | "if" =>
        let (s, rest) ← branch fuel rest
        compound fuel s rest
      | "while" =>
        let (s, rest) ← loop fuel true rest
        compound fuel s rest
      | "until" =>
        let (s, rest) ← loop fuel false rest
        compound fuel s rest
      | "for" =>
        let (s, rest) ← each fuel rest
        compound fuel s rest
      | "case" =>
        let (s, rest) ← select fuel rest
        compound fuel s rest
      | name =>
        if reserved.contains name then none
        else
          let (assignments, words, redirections, rest) ← simple fuel true cs
          match words, skipBlanks rest with
          | [w], '(' :: rest =>
            let name ← plain? w
            if !assignments.isEmpty || !redirections.isEmpty || !isName name then none
            match skipBlanks rest with
            | ')' :: rest =>
              let (body, rest) ← command fuel (skipLines rest)
              return (.define name body, rest)
            | _ => none
          | _, rest =>
            if assignments.isEmpty && words.isEmpty && redirections.isEmpty then none
            else return (.simple assignments words redirections, rest)
def compound : Nat → Script → List Char → Option (Script × List Char)
  | 0, _, _ => none
  | fuel + 1, s, cs => do
    let (redirections, cs) ← redirectionList fuel cs
    return (if redirections.isEmpty then s else .redirected s redirections, cs)
def redirectionList : Nat → List Char → Option (List Redirection × List Char)
  | 0, _ => none
  | fuel + 1, cs => do
    let cs := skipBlanks cs
    if (attachment? (descriptor? cs).2).isNone then return ([], cs)
    let (r, cs) ← redirection fuel cs
    let (more, cs) ← redirectionList fuel cs
    return (r :: more, cs)
def redirection : Nat → List Char → Option (Redirection × List Char)
  | 0, _ => none
  | fuel + 1, cs => do
    let (number, cs) := descriptor? cs
    let descriptor := number.getD (if cs.head? == some '<' then 0 else 1)
    let (attachment, strip, rest) ← attachment? cs
    let rest := skipBlanks rest
    let (word, rest) ← parts fuel false false .word rest
    if word.isEmpty then none
    if attachment = .here then
      let (delimiter, quoted) ← literal? word
      let (body, rest) := hereText strip delimiter rest
      if quoted then return (⟨descriptor, .here, [.text true body]⟩, rest)
      let (body, _) ← parts fuel true false .finish body
      return (⟨descriptor, .here, body⟩, rest)
    return (⟨descriptor, attachment, word⟩, rest)
def simple : Nat → Bool → List Char →
    Option (List (List Char × List Part) × List (List Part) × List Redirection × List Char)
  | 0, _, _ => none
  | fuel + 1, leading, cs => do
    let cs := skipBlanks cs
    if (attachment? (descriptor? cs).2).isSome then
      let (r, cs) ← redirection fuel cs
      let (assignments, words, redirections, cs) ← simple fuel leading cs
      return (assignments, words, r :: redirections, cs)
    match cs with
    | [] => return ([], [], [], [])
    | c :: _ =>
      if isMeta c then return ([], [], [], cs)
      let (word, cs) ← parts fuel false false .word cs
      match (if leading then assignment? word else none) with
      | some a =>
        let (assignments, words, redirections, cs) ← simple fuel true cs
        return (a :: assignments, words, redirections, cs)
      | none =>
        if leading && (skipBlanks cs).head? == some '(' then return ([], [word], [], cs)
        let (assignments, words, redirections, cs) ← simple fuel false cs
        return (assignments, word :: words, redirections, cs)
def branch : Nat → List Char → Option (Script × List Char)
  | 0, _ => none
  | fuel + 1, cs => do
    let (condition, cs) ← commands fuel false cs
    let (yes, cs) ← commands fuel false (← expect "then" cs)
    let cs := skipLines cs
    if startsWith "elif" cs then
      let (no, cs) ← branch fuel (cs.drop 4)
      return (.branch condition yes no, cs)
    else if startsWith "else" cs then
      let (no, cs) ← commands fuel false (cs.drop 4)
      return (.branch condition yes no, ← expect "fi" cs)
    else return (.branch condition yes .nothing, ← expect "fi" cs)
def loop : Nat → Bool → List Char → Option (Script × List Char)
  | 0, _, _ => none
  | fuel + 1, outcome, cs => do
    let (condition, cs) ← commands fuel false cs
    let (body, cs) ← commands fuel false (← expect "do" cs)
    return (.loop outcome condition body, ← expect "done" cs)
def each : Nat → List Char → Option (Script × List Char)
  | 0, _ => none
  | fuel + 1, cs => do
    let cs := skipBlanks cs
    let name := bareWord cs
    if !isName name then none
    let cs := skipLines (cs.drop name.length)
    let (words, cs) ←
      if startsWith "in" cs then do
        let (ws, cs) ← wordList fuel (cs.drop 2)
        match skipBlanks cs with
        | ';' :: ';' :: _ => none
        | ';' :: rest | '\n' :: rest => some (some ws, rest)
        | _ => none
      else match cs with
        | ';' :: rest => some (none, rest)
        | _ => some (none, cs)
    let (body, cs) ← commands fuel false (← expect "do" (skipLines cs))
    return (.each name words body, ← expect "done" cs)
def wordList : Nat → List Char → Option (List (List Part) × List Char)
  | 0, _ => none
  | fuel + 1, cs =>
    match skipBlanks cs with
    | [] => some ([], [])
    | c :: rest =>
      if isMeta c then some ([], c :: rest)
      else do
        let (w, rest) ← parts fuel false false .word (c :: rest)
        let (ws, rest) ← wordList fuel rest
        return (w :: ws, rest)
def select : Nat → List Char → Option (Script × List Char)
  | 0, _ => none
  | fuel + 1, cs => do
    let cs := skipBlanks cs
    if cs.head?.all isMeta then none
    let (word, cs) ← parts fuel false false .word cs
    let (arms, cs) ← arms fuel (← expect "in" (skipLines cs))
    return (.select word arms, cs)
def arms : Nat → List Char → Option (List (List (List Part) × Script) × List Char)
  | 0, _ => none
  | fuel + 1, cs => do
    let cs := skipLines cs
    if startsWith "esac" cs then return ([], cs.drop 4)
    let cs := match cs with
      | '(' :: rest => rest
      | _ => cs
    let (patterns, cs) ← alternatives fuel cs
    let (body, cs) ← commands fuel true cs
    let cs := skipLines cs
    match cs with
    | ';' :: ';' :: rest =>
      let (more, rest) ← arms fuel rest
      return ((patterns, body) :: more, rest)
    | _ => return ([(patterns, body)], ← expect "esac" cs)
def alternatives : Nat → List Char → Option (List (List Part) × List Char)
  | 0, _ => none
  | fuel + 1, cs => do
    let cs := skipBlanks cs
    if cs.head?.all isMeta then none
    let (w, cs) ← parts fuel false false .word cs
    match skipBlanks cs with
    | ')' :: rest => return ([w], rest)
    | '|' :: rest =>
      let (ws, rest) ← alternatives fuel rest
      return (w :: ws, rest)
    | _ => none
end

-- ---------------------------------------------------------------------------
-- Lines
-- ---------------------------------------------------------------------------

def lineFor : Nat → List Char → Option (Script × List Char)
  | 0, _ => none
  | fuel + 1, cs => do
    let (first, cs) ← chain (16 * cs.length + 64) cs
    let go (first : Script) (cs : List Char) : Option (Script × List Char) :=
      match skipBlanks cs with
      | [] => some (first, [])
      | '\n' :: rest => some (first, rest)
      | cs => (lineFor fuel cs).map fun (more, cs) => (.sequence first more, cs)
    match skipBlanks cs with
    | [] => return (first, [])
    | '\n' :: rest => return (first, rest)
    | ';' :: ';' :: _ => none
    | ';' :: rest => go first rest
    | '&' :: rest => go (.background first) rest
    | _ => none

inductive Line where
  | finished
  | malformed
  | commands (s : Script) (rest : List Char)

def nextLine (cs : List Char) : Line :=
  match skipLines cs with
  | [] => .finished
  | cs =>
    match lineFor (cs.length + 1) cs with
    | some (s, rest) => .commands s rest
    | none => .malformed

end TreeQuery.Shell.Reader
