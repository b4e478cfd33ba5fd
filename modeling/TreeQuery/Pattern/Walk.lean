import TreeQuery.Pattern.Token
import TreeQuery.Text.Walk

/-!
# Cutting patterns along the bytes of their text

The same tokens and errors by a walk that keeps the tokens. Each routine takes the text that is
left, measures the piece at its front in bytes and moves on by that number.
-/

namespace TreeQuery.Pattern.Walk

open Text.Walk
open Token (headIs isSuffix operator? single? startsFraction)

inductive Routine where
  | tokens
  | token
  | number
  | argument
  | quoted
  | symbol
  | name
  | rest
  | advance
  | push
deriving DecidableEq, Repr

/-- The tokens are kept in reverse. -/
abbrev Lexer (α : Type) := Text.Walk Routine (List Token) α

def rest (source : List Char) : Lexer (List Char) := within .rest do
  take source (← position) (Text.width source)

def advance (n : Nat) : Lexer Unit := within .advance (move n)

def push (kind : Token.Kind) (offset : Nat) : Lexer Unit :=
  within .push (modify fun c => { c with store := ⟨kind, offset⟩ :: c.store })

def emit (n : Nat) (kind : Token.Kind) (offset : Nat) : Lexer (Except Error Unit) := do
  advance n
  push kind offset
  return .ok ()

def nameEnd (text : List Char) : Nat :=
  let stop := ((Text.offsetsFrom 0 text).find? (!Text.isWord ·.2)).elim (Text.width text) (·.1)
  if (Text.slice? stop (Text.width text) text).any (headIs isSuffix) then stop + 1 else stop

def name (source : List Char) : Lexer (List Char) := within .name do
  let text ← rest source
  advance (nameEnd text)
  take text 0 (nameEnd text)

def number (source : List Char) (start : Nat) : Lexer (Except Error Unit) := within .number do
  let text ← rest source
  let whole := Text.digitsEnd text (if text.head? = some '-' then 1 else 0)
  let hasFraction := (Text.slice? whole (Text.width text) text).any startsFraction
  let stop := if hasFraction then Text.digitsEnd text (whole + 1) else whole
  let digits ← take text 0 stop
  let kind := if hasFraction then (Binary64.ofText? digits).map Token.Kind.float
    else (Number.integer? digits).map Token.Kind.int
  match kind with
  | none => return .error ⟨.outOfRange digits, start⟩
  | some kind => emit stop kind start

def argument (source : List Char) (start : Nat) : Lexer (Except Error Unit) := within .argument do
  let text ← rest source
  let stop := Text.digitsEnd text 1
  match (Text.slice? 1 stop text).bind Number.natural? with
  | some (n + 1) => emit stop (.argument (n + 1)) start
  | _ => return .error ⟨.argumentNumber, start⟩

/-- The text up to the first quote that is not escaped, behind the text that was read, and the
offset of that quote. -/
def unquote (read : List Char) : List (Nat × Char) → Option (List Char × Nat)
  | [] => none
  | (offset, '"') :: _ => some (read, offset)
  | [(_, '\\')] => none
  | (_, '\\') :: (_, c) :: chars => unquote (read ++ [Text.Quoted.unescape c]) chars
  | (_, c) :: chars => unquote (read ++ [c]) chars

/-- A quoted text. Offsets in it count from its opening quote. -/
def quoted (source : List Char) (start : Nat) : Lexer (Except Error Unit) := within .quoted do
  let text ← rest source
  match unquote [] ((Text.offsetsFrom 0 text).drop 1) with
  | none => return .error ⟨.unclosedText, start⟩
  | some (read, offset) => emit (offset + 1) (.str read) start

def symbol (source : List Char) (start : Nat) : Lexer (Except Error Unit) := within .symbol do
  advance 1
  let text ← rest source
  match operator? text with
  | some op => emit (Text.width op) (.symbol op) start
  | none =>
    if headIs Text.isWord text then
      push (.symbol (← name source)) start
      return .ok ()
    else return .error ⟨.symbolName, start⟩

def token (source : List Char) (c : Char) : Lexer (Except Error Unit) := within .token do
  let start ← position
  let text ← rest source
  if c = '-' && (text[1]?).any Char.isDigit then number source start
  else match operator? text with
  | some op => emit (Text.width op) (.word op) start
  | none =>
    if c.isDigit then number source start
    else if ['.', '.', '.'].isPrefixOf text then emit 3 .ellipsis start
    else if c = '_' && !(text[1]?).any Text.isWord then emit 1 .wildcard start
    else match single? c with
    | some kind => emit 1 kind start
    | none =>
      if c = '%' then argument source start
      else if c = '"' then quoted source start
      else if c = ':' then symbol source start
      else if Text.isWord c then
        push (.word (← name source)) start
        return .ok ()
      else return .error ⟨.unexpectedChar c, start⟩

def tokensLoop (source : List Char) : Nat → Lexer (Except Error Unit)
  | 0 => endless
  | n + 1 => do
    let start ← position
    match (← rest source).head? with
    | none => return .ok ()
    | some c =>
      if Text.isSpace c then
        advance c.utf8Size
        turn .tokens start
        tokensLoop source n
      else
        match ← token source c with
        | .error e => return .error e
        | .ok () =>
          turn .tokens start
          tokensLoop source n

def tokens (source : List Char) : Lexer (Except Error Unit) :=
  within .tokens (tokensLoop source (turns source))

def tokenize (source : List Char) :
    Option (Except Error (List Token) × Text.Cursor Routine (List Token)) :=
  ((tokens source).run ⟨0, [], []⟩).map fun (done, c) => (done.map fun () => c.store.reverse, c)

end TreeQuery.Pattern.Walk
