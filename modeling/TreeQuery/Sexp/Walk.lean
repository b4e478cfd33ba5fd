import TreeQuery.Sexp.Reader
import TreeQuery.Text.Walk

/-!
# Reading trees along the bytes of the source

The same trees and errors by descent: a form is read from its opening parenthesis, child by child,
to its closing one. Blanks, comments and words are passed one byte at a time.
-/

namespace TreeQuery.Sexp.Walk

open Text.Walk

inductive Routine where
  | forms
  | trivia
  | form
  | tag
  | word
  | atom
  | quoted
deriving DecidableEq, Repr

abbrev Reader (α : Type) := Text.Walk Routine Unit α

def triviaLoop (source : List Char) : Nat → Reader Unit
  | 0 => endless
  | n + 1 => do
    let start ← position
    match ← peek source with
    | none => return
    | some c =>
      if c = ';' then
        moveWhile source (· != '\n')
        turn .trivia start
        triviaLoop source n
      else if Text.isBlank c then
        move 1
        turn .trivia start
        triviaLoop source n
      else return

def trivia (source : List Char) : Reader Unit := within .trivia (triviaLoop source (turns source))

def word (source : List Char) : Reader (List Char) := within .word do
  let start ← position
  moveWhile source Lexeme.isWord
  take source start (← position)

def tag (source : List Char) : Reader (Except Error String) := within .tag do
  let start ← position
  match tag? (← word source) with
  | none => return .error ⟨.noTag, start⟩
  | some tag => return .ok tag

def atom (source : List Char) : Reader (Except Error Tree) := within .atom do
  let start ← position
  let w ← word source
  let stop ← position
  match scalar? w with
  | none => return .error ⟨.badNumber w, start⟩
  | some a => return .ok (.leaf a (some (Span.between start stop)))

def unquote (read : List Char) : List (Nat × Char) → Option (List Char × Nat)
  | [] => none
  | (offset, '"') :: _ => some (read, offset)
  | [(_, '\\')] => none
  | (_, '\\') :: (_, c) :: chars => unquote (read ++ [Text.Quoted.unescape c]) chars
  | (_, c) :: chars => unquote (read ++ [c]) chars

/-- A quoted text. Offsets in it count from behind the opening quote. -/
def quoted (source : List Char) : Reader (Except Error Tree) := within .quoted do
  let start ← position
  move 1
  let rest ← take source (← position) (Text.width source)
  match unquote [] (Text.offsetsFrom 0 rest) with
  | none => return .error ⟨.unclosedText, start⟩
  | some (text, offset) =>
    move (offset + 1)
    return .ok (.leaf (.str (String.ofList text)) (some (Span.between start (← position))))

/-- A form; `children` reads what stands behind its tag, from the offset of the form and the tag. -/
def form (source : List Char) (children : Nat → String → Reader (Except Error Tree)) :
    Reader (Except Error Tree) := within .form do
  let start ← position
  move 1
  trivia source
  match ← tag source with
  | .error e => return .error e
  | .ok tag => children start tag

def childrenLoop (source : List Char) :
    Nat → List Tree → Nat → String → Reader (Except Error Tree)
  | 0, _, _, _ => endless
  | n + 1, read, start, tag => do
    let before ← position
    trivia source
    match ← peek source with
    | none => return .error ⟨.neverClosed, start⟩
    | some c =>
      if c = ')' then
        move 1
        return .ok (.node tag read.reverse (some (Span.between start (← position))))
      else
        let child ←
          if c = '(' then form source (childrenLoop source n [])
          else if c = '"' then quoted source
          else atom source
        match child with
        | .error e => return .error e
        | .ok t =>
          turn .form before
          childrenLoop source n (t :: read) start tag

def formsLoop (source : List Char) : Nat → List Tree → Reader (Except Error (List Tree))
  | 0, _ => endless
  | n + 1, read => do
    let before ← position
    trivia source
    match ← peek source with
    | none => return .ok read
    | some c =>
      if c = '(' then
        match ← form source (childrenLoop source (turns source) []) with
        | .error e => return .error e
        | .ok t =>
          turn .forms before
          formsLoop source n (t :: read)
      else if c = ')' then return .error ⟨.strayClosing, ← position⟩
      else return .error ⟨.notAForm, ← position⟩

def forms (source : List Char) : Reader (Except Error (List Tree)) :=
  within .forms (formsLoop source (turns source) [])

def parse (source : List Char) : Option (Except Error Tree × Text.Cursor Routine Unit) :=
  ((forms source).run ⟨0, (), []⟩).map fun (read, c) => (read.bind (wrap ·.reverse), c)

end TreeQuery.Sexp.Walk
