import TreeQuery.Pattern

/-!
# Errors in pattern texts

Each cause comes with the byte offset that it points at.
-/

namespace TreeQuery.Pattern

inductive Marker where
  | capture
  | optional
  | child
  | negation
deriving DecidableEq, Repr

namespace Marker

def sign : Marker → Char
  | .capture => '$'
  | .optional => '?'
  | .child => '^'
  | .negation => '!'

def apply : Marker → Pattern → Pattern
  | .capture => .capture
  | .optional => .optional
  | .child => .child
  | .negation => .negation

end Marker

inductive Error.Cause where
  | unexpectedChar (c : Char)
  | outOfRange (number : List Char)
  | argumentNumber
  | unclosedText
  | symbolName
  | empty
  | unexpectedEnd
  | trailing
  | strayCloser (b : Bracket)
  | noOperand (m : Marker)
  | captureNumber
  | wrongCloser (opened : Bracket) (start : Nat) (found : Bracket)
  | unboundArgument (number supplied : Nat)
  | unterminated (b : Bracket)
deriving DecidableEq, Repr

structure Error where
  cause : Error.Cause
  offset : Nat
deriving DecidableEq, Repr

namespace Error

def quoteChar (c : Char) : String := "'" ++ String.singleton c ++ "'"

def Cause.text : Cause → String
  | .unexpectedChar c => "unexpected character " ++ quoteChar c
  | .outOfRange number => "numeric literal '" ++ String.ofList number ++ "' is out of range"
  | .argumentNumber => "'%' must be followed by an argument number from 1"
  | .unclosedText => "unterminated string literal"
  | .symbolName => "':' must be followed by a name"
  | .empty => "pattern is empty"
  | .unexpectedEnd => "unexpected end of pattern"
  | .trailing =>
    "unexpected token after the end of the pattern; wrap alternatives in '\x7b...\x7d' or '[...]'"
  | .strayCloser b =>
    "unexpected " ++ quoteChar b.closer ++ " without a matching " ++ quoteChar b.opener
  | .noOperand m => quoteChar m.sign ++ " must be followed by an expression"
  | .captureNumber => "'\\' must be followed by a capture number from 1"
  | .wrongCloser opened start found =>
    "expected " ++ quoteChar opened.closer ++ " to close " ++ quoteChar opened.opener ++
      s!" at offset {start}, found " ++ quoteChar found.closer
  | .unboundArgument number supplied => s!"no argument bound to %{number}; {supplied} supplied"
  | .unterminated b => "unterminated group: " ++ quoteChar b.opener

def message (e : Error) : String :=
  match e.cause with
  | .unterminated _ => e.cause.text ++ s!" at offset {e.offset} is never closed"
  | _ => s!"malformed pattern at offset {e.offset}: " ++ e.cause.text

end Error

end TreeQuery.Pattern
