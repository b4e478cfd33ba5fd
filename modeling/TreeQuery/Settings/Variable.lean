import TreeQuery.Number.Decimal
import TreeQuery.Settings.Scalar

/-!
# Values of environment variables

A variable holds a quoted text, a single character in quotes, a list in brackets, a table in
braces, a truth value, or a bare word: a number or a text. A word that begins with a truth value and
goes on is none of them. What reads as none of them is a text as it stands, and bare words with
commas between them are a list.
-/

namespace TreeQuery.Settings.Variable

def trim (cs : List Char) : List Char :=
  ((cs.dropWhile Text.isSpace).reverse.dropWhile Text.isSpace).reverse

def isSeparator (c : Char) : Bool := c == ',' || c == '{' || c == '}' || c == '[' || c == ']'

def afterTruth? (cs : List Char) : Option (List Char) :=
  let after (name : String) : Option (List Char) :=
    if Text.lower (cs.take name.length) = name.toList then some (cs.drop name.length) else none
  (after "true").or (after "false")

/-- A bare word. A number with a point is no integer, and integers beyond a word of 64 bits are
texts. -/
def ofWord (cs : List Char) : Value :=
  if cs.contains '.' && (Binary64.ofText? cs).isSome then .other
  else match Number.natural? cs, Number.integer? cs with
    | some n, _ => .number n
    | none, some n => .number n.toInt
    | none, none => .text cs

def quotedFor : Nat → List Char → Option (List Char × List Char)
  | 0, _ => none
  | _, [] => none
  | fuel + 1, c :: rest =>
    if c = '"' then some ([], rest)
    else if c = '\\' then do
      let (char, rest) ← Scalar.escape? rest
      let (text, rest) ← quotedFor fuel rest
      return (char :: text, rest)
    else (quotedFor fuel rest).map fun (text, rest) => (c :: text, rest)

def quoted? (cs : List Char) : Option (List Char × List Char) := quotedFor cs.length cs

def skip (cs : List Char) : List Char := cs.dropWhile fun c => c.isWhitespace || c == '\x0c'

def isKeyChar (c : Char) : Bool := c.isAlphanum || c == '_' || c == '-'

/-- The name of a table's member, with the equals sign behind it. -/
def key? (cs : List Char) : Option (List Char) := do
  let (_, rest) ← match skip cs with
    | '"' :: rest => quoted? rest
    | cs =>
      let name := cs.takeWhile isKeyChar
      if name.isEmpty then none else some (name, cs.drop name.length)
  Scalar.expect? '=' (skip rest)

mutual
def valueFor : Nat → List Char → Option (Value × List Char)
  | 0, _ => none
  | fuel + 1, cs => do
    let (v, rest) ← match skip cs with
      | '"' :: rest => (quoted? rest).map fun (t, rest) => (Value.text t, rest)
      | '\x27' :: c :: '\x27' :: rest => some (.text [c], rest)
      | '\x27' :: _ => none
      | '[' :: rest => (itemsFor fuel false rest).map fun rest => (.other, rest)
      | '{' :: rest => (itemsFor fuel true rest).map fun rest => (.other, rest)
      | cs =>
        match afterTruth? cs with
        | some rest => some (.other, rest)
        | none =>
          let w := cs.takeWhile (!isSeparator ·)
          some (ofWord (trim w), cs.drop w.length)
    return (v, skip rest)
def itemsFor : Nat → Bool → List Char → Option (List Char)
  | 0, _, _ => none
  | fuel + 1, named, cs => do
    let closing := if named then '}' else ']'
    match Scalar.expect? closing cs with
    | some rest => return rest
    | none =>
      let cs ← if named then key? cs else some cs
      let (_, cs) ← valueFor fuel cs
      match cs with
      | ',' :: rest => itemsFor fuel named rest
      | _ => Scalar.expect? closing cs
end

def read (text : List Char) : Value :=
  let cs := trim text
  let isStructured := cs.head?.any fun c => c == '[' || c == '{' || c == '"' || c == '\x27'
  if !isStructured && cs.contains ',' then .other
  else match valueFor (2 * cs.length + 2) cs with
    | some (v, []) => v
    | _ => .text cs

end TreeQuery.Settings.Variable
