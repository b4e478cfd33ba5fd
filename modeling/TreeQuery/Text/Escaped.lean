import TreeQuery.Text.Class

/-!
# Diagnostic quoting

A text between double quotes in which everything that has no glyph of its own is spelled out.
-/

namespace TreeQuery.Text.Escaped

/-- The code point in lower-case hexadecimal between braces. -/
def codePoint (c : Char) : List Char :=
  '\\' :: 'u' :: '{' :: Nat.toDigits 16 c.toNat ++ ['}']

def char (c : Char) : List Char :=
  if c = '\x00' then ['\\', '0']
  else if c = '\t' then ['\\', 't']
  else if c = '\r' then ['\\', 'r']
  else if c = '\n' then ['\\', 'n']
  else if c = '\\' then ['\\', '\\']
  else if c = '"' then ['\\', '"']
  else if isUnprintable c then codePoint c
  else [c]

def text (cs : List Char) : List Char := '"' :: cs.flatMap char ++ ['"']

end TreeQuery.Text.Escaped
