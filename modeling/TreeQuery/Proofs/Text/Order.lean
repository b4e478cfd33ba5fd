import Mathlib.Data.Char
import Mathlib.Data.List.Lex
import TreeQuery.Text.Find

/-!
# The order of texts

Texts are compared character by character, and a beginning comes first. `precedes` decides this
order together with equality, so what is sorted by it is in strict order if no text is there twice.
-/

namespace TreeQuery.Text

variable {a b c : List Char}

def Before (a b : List Char) : Prop := List.Lex (· < ·) a b

theorem Before.trans (hab : Before a b) (hbc : Before b c) : Before a c :=
  @lt_trans (List Char) _ a b c hab hbc

end TreeQuery.Text
