import TreeQuery.Span
import TreeQuery.Text.Class
import TreeQuery.Text.Quoted

/-!
# Lexemes of tree source text

Parentheses, words and double-quoted literals, each with its span; blanks and comments from a
semicolon to the end of the line separate them. The scan reads one character at a time and keeps
what it is inside of.
-/

namespace TreeQuery.Sexp

inductive Lexeme.Kind where
  | opening
  | closing
  | word (text : List Char)
  | quoted (text : List Char)
  | unclosed
deriving DecidableEq, Repr

structure Lexeme where
  kind : Lexeme.Kind
  span : Span
deriving DecidableEq, Repr

namespace Lexeme

def isWord (c : Char) : Bool :=
  !Text.isBlank c && c != '(' && c != ')' && c != '"' && c != ';'

/-- What the scan is inside of, with the offset where it began and the characters read so far,
the last one first. -/
inductive State where
  | between
  | comment
  | word (start : Nat) (read : List Char)
  | quoted (start : Nat) (read : List Char)
  | escaped (start : Nat) (read : List Char)

/-- What a character between lexemes begins: a whole lexeme, if it is a parenthesis, and the
state after it. -/
def begin (pos : Nat) (c : Char) : Option Lexeme × State :=
  if c = '(' then (some ⟨.opening, Span.between pos (pos + 1)⟩, .between)
  else if c = ')' then (some ⟨.closing, Span.between pos (pos + 1)⟩, .between)
  else if c = '"' then (none, .quoted pos [])
  else if c = ';' then (none, .comment)
  else if Text.isBlank c then (none, .between)
  else (none, .word pos [c])

/-- One character: the lexemes that end before or with it, and the state after it. -/
def step (pos : Nat) (c : Char) : State → List Lexeme × State
  | .between => let (l, s) := begin pos c; (l.toList, s)
  | .comment => ([], if c = '\n' then .between else .comment)
  | .word start read =>
    if isWord c then ([], .word start (c :: read))
    else
      let (l, s) := begin pos c
      (⟨.word read.reverse, Span.between start pos⟩ :: l.toList, s)
  | .quoted start read =>
    if c = '"' then ([⟨.quoted read.reverse, Span.between start (pos + 1)⟩], .between)
    else if c = '\\' then ([], .escaped start read)
    else ([], .quoted start (c :: read))
  | .escaped start read => ([], .quoted start (Text.Quoted.unescape c :: read))

def finish (pos : Nat) : State → List Lexeme
  | .between => []
  | .comment => []
  | .word start read => [⟨.word read.reverse, Span.between start pos⟩]
  | .quoted start _ => [⟨.unclosed, Span.between start pos⟩]
  | .escaped start _ => [⟨.unclosed, Span.between start pos⟩]

def scanFrom (s : State) (pos : Nat) : List Char → List Lexeme
  | [] => finish pos s
  | c :: cs =>
    let (ls, s') := step pos c s
    ls ++ scanFrom s' (pos + c.utf8Size) cs

def scan (source : List Char) : List Lexeme := scanFrom .between 0 source

end Lexeme

end TreeQuery.Sexp
