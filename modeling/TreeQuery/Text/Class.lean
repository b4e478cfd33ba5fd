import TreeQuery.Text.Alphabetic
import TreeQuery.Text.Numeric
import TreeQuery.Text.Unprintable

/-!
# Character classes

`isBlank` is the separator set of tree source text (five ASCII characters), `isSpace` the Unicode
property `White_Space` that separates pattern tokens, `isWord` the characters that pattern names
are made of. ASCII is decided without the tables.
-/

namespace TreeQuery.Text

def inRanges (ranges : Array (Nat × Nat)) (c : Char) : Bool :=
  ranges.any fun (lo, hi) => lo ≤ c.toNat && c.toNat ≤ hi

/-- Space, tab, line feed, form feed and carriage return. -/
def isBlank (c : Char) : Bool :=
  c == ' ' || c == '\t' || c == '\n' || c == '\x0c' || c == '\r'

def isSpace (c : Char) : Bool :=
  let n := c.toNat
  n == 0x20 || (0x9 ≤ n && n ≤ 0xd) || n == 0x85 || n == 0xa0 || n == 0x1680 ||
    (0x2000 ≤ n && n ≤ 0x200a) || n == 0x2028 || n == 0x2029 || n == 0x202f || n == 0x205f ||
    n == 0x3000

def isAlphabetic (c : Char) : Bool :=
  if c.toNat < 128 then c.isAlpha else inRanges alphabeticRanges c

def isNumeric (c : Char) : Bool :=
  if c.toNat < 128 then c.isDigit else inRanges numericRanges c

def isWord (c : Char) : Bool :=
  c == '_' || isAlphabetic c || isNumeric c

def isUnprintable (c : Char) : Bool :=
  if c.toNat < 128 then c.toNat < 0x20 || c.toNat == 0x7f else inRanges unprintableRanges c

/-- The ASCII lower case of a character; everything else is itself. -/
def lower (cs : List Char) : List Char := cs.map Char.toLower

end TreeQuery.Text
