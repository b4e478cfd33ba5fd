import TreeQuery.Sexp.Lexeme
import TreeQuery.Tree

/-!
# Reading trees

A form is `(tag child…)`. A child is a form, a quoted text, or a word: `nil`, a number if it
begins like one, else a symbol, with or without a colon. Several forms at the top are the children
of one node tagged `begin`.

The reader goes through the lexemes once and keeps the forms that are still open, innermost first.
-/

namespace TreeQuery.Sexp

inductive Error.Cause where
  | strayClosing
  | notAForm
  | empty
  | neverClosed
  | noTag
  | unclosedText
  | badNumber (word : List Char)
deriving DecidableEq, Repr

structure Error where
  cause : Error.Cause
  offset : Nat
deriving DecidableEq, Repr

def Error.Cause.message : Error.Cause → String
  | .strayClosing => "unexpected ')'"
  | .notAForm => "expected '(' at top level"
  | .empty => "empty input"
  | .neverClosed => "unbalanced '(' is never closed"
  | .noTag => "expected a tag after '('"
  | .unclosedText => "unterminated string literal"
  | .badNumber word => "invalid numeric literal '" ++ String.ofList word ++ "'"

def looksNumeric : List Char → Bool
  | '-' :: c :: _ => c.isDigit
  | c :: _ => c.isDigit
  | [] => false

def scalar? (word : List Char) : Option Scalar :=
  if word = "nil".toList then some .nil
  else match word with
    | ':' :: name => some (.sym (String.ofList name))
    | _ =>
      if looksNumeric word then
        (Number.integer? word).map .int <|> (Binary64.ofText? word).map .float
      else some (.sym (String.ofList word))

/-- The tag of a word: one colon before it is dropped, and something has to remain. -/
def tag? (word : List Char) : Option String :=
  let name := match word with
    | ':' :: rest => rest
    | _ => word
  if name.isEmpty then none else some (String.ofList name)

/-- A form whose closing parenthesis is still to come; the children are in reverse. -/
structure Open where
  start : Nat
  tag : String
  children : List Tree

def place (t : Tree) : List Open → List Tree → List Open × List Tree
  | [], forms => ([], t :: forms)
  | o :: os, forms => ({ o with children := t :: o.children } :: os, forms)

/-- The forms at the top, last one first. `stop` is the length of the source. -/
def forms (stop : Nat) : List Lexeme → List Open → List Tree → Except Error (List Tree)
  | [], [], done => .ok done
  | [], o :: _, _ => .error ⟨.neverClosed, o.start⟩
  | ⟨.opening, _⟩ :: [], _, _ => .error ⟨.noTag, stop⟩
  | ⟨.opening, s⟩ :: ⟨.word w, ws⟩ :: rest, os, done =>
    match tag? w with
    | none => .error ⟨.noTag, ws.start⟩
    | some tag => forms stop rest (⟨s.start, tag, []⟩ :: os) done
  | ⟨.opening, _⟩ :: l :: _, _, _ => .error ⟨.noTag, l.span.start⟩
  | ⟨.closing, s⟩ :: _, [], _ => .error ⟨.strayClosing, s.start⟩
  | ⟨.closing, s⟩ :: rest, o :: os, done =>
    let t := .node o.tag o.children.reverse (some (Span.between o.start s.stop))
    let (os', done') := place t os done
    forms stop rest os' done'
  | ⟨.word _, s⟩ :: _, [], _ => .error ⟨.notAForm, s.start⟩
  | ⟨.word w, s⟩ :: rest, o :: os, done =>
    match scalar? w with
    | none => .error ⟨.badNumber w, s.start⟩
    | some a => forms stop rest ({ o with children := .leaf a (some s) :: o.children } :: os) done
  | ⟨.quoted _, s⟩ :: _, [], _ => .error ⟨.notAForm, s.start⟩
  | ⟨.quoted text, s⟩ :: rest, o :: os, done =>
    let t := .leaf (.str (String.ofList text)) (some s)
    forms stop rest ({ o with children := t :: o.children } :: os) done
  | ⟨.unclosed, s⟩ :: _, [], _ => .error ⟨.notAForm, s.start⟩
  | ⟨.unclosed, s⟩ :: _, _ :: _, _ => .error ⟨.unclosedText, s.start⟩

def beginTag : String := "begin"

def wrap : List Tree → Except Error Tree
  | [] => .error ⟨.empty, 0⟩
  | [t] => .ok t
  | t :: ts =>
    let start := (t.span.map (·.start)).getD 0
    let stop := (((t :: ts).getLast?.bind (·.span)).map (·.stop)).getD 0
    .ok (.node beginTag (t :: ts) (some (Span.between start stop)))

def parseChars (source : List Char) : Except Error Tree :=
  (forms (Text.width source) (Lexeme.scan source) [] []).bind fun done => wrap done.reverse

def parse (source : String) : Except Error Tree := parseChars source.toList

end TreeQuery.Sexp
