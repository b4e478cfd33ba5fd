import TreeQuery.Pattern.Error
import TreeQuery.Sexp.Reader

/-!
# Faults of queries and edits

What can go wrong with a pattern, a source text, a plan of edits or a replacement. The wording is
here and nowhere else.
-/

namespace TreeQuery

inductive Fault where
  | pattern (e : Pattern.Error)
  | source (e : Sexp.Error)
  | overlap (first second : Span)
  | outOfBounds (span : Span) (length : Nat)
  | noSpan (tag : String)
  | unknownCapture (number captures : Nat)
  /-- An edit action gives up with a text of its own. -/
  | refused (text : String)
deriving DecidableEq

namespace Fault

def spanText (s : Span) : String := String.ofList s.render

def replacementText : String := "invalid replacement template: "

def message : Fault → String
  | .pattern e => e.message
  | .source e => s!"failed to parse source at offset {e.offset}: " ++ e.cause.message
  | .overlap first second =>
    "overlapping edits: " ++ spanText first ++ " intersects " ++ spanText second
  | .outOfBounds span length =>
    "edit " ++ spanText span ++
      s!" is outside the {length}-byte buffer or not on a character boundary"
  | .noSpan tag => "matched node '" ++ tag ++ "' has no source span"
  | .unknownCapture number captures =>
    replacementText ++
      s!"template references ${number} but the pattern has {captures} capture(s)"
  | .refused text => replacementText ++ text

def offset? : Fault → Option Nat
  | .pattern e => some e.offset
  | .source e => some e.offset
  | .overlap _ second => some second.start
  | .outOfBounds span _ => some span.start
  | .noSpan _ | .unknownCapture .. | .refused _ => none

def isPatternFault : Fault → Bool
  | .pattern _ => true
  | _ => false

end Fault

end TreeQuery
