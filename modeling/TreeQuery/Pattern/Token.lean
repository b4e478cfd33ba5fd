import TreeQuery.Pattern.Error
import TreeQuery.Text.Class

/-!
# Tokens of pattern texts

White space separates tokens and is otherwise ignored. A minus before a digit begins a number;
after that the operators come before all else. A name may end in one of `!`, `?` and `=`.
-/

namespace TreeQuery.Pattern

inductive Token.Kind where
  | opening (b : Bracket)
  | closing (b : Bracket)
  | marker (m : Marker)
  | backslash
  | wildcard
  | ellipsis
  | int (n : Int64)
  | float (x : Binary64)
  | str (text : List Char)
  | symbol (name : List Char)
  | word (name : List Char)
  | argument (n : Nat)
deriving DecidableEq, Repr

structure Token where
  kind : Token.Kind
  offset : Nat
deriving DecidableEq, Repr

namespace Token

/-- The operators, a longer one before its beginnings. -/
def operators : List (List Char) :=
  [['=', '=', '='], ['=', '='], ['!', '='], ['+'], ['-'], ['*'], ['/']]

def operator? (cs : List Char) : Option (List Char) :=
  operators.find? (·.isPrefixOf cs)

def isSuffix (c : Char) : Bool := c == '!' || c == '?' || c == '='

def name (cs : List Char) : List Char :=
  match cs.dropWhile Text.isWord with
  | c :: _ => if isSuffix c then cs.takeWhile Text.isWord ++ [c] else cs.takeWhile Text.isWord
  | [] => cs.takeWhile Text.isWord

def startsFraction : List Char → Bool
  | '.' :: c :: _ => c.isDigit
  | _ => false

/-- The number at the start of a text that begins with a digit, behind its sign: its token and its
characters. A fraction needs a digit after the point. -/
def numeral (sign digits : List Char) : Except Error.Cause (Kind × List Char) :=
  let whole := sign ++ digits.takeWhile Char.isDigit
  let rest := digits.dropWhile Char.isDigit
  if startsFraction rest then
    let text := whole ++ '.' :: (rest.drop 1).takeWhile Char.isDigit
    match Binary64.ofText? text with
    | some x => .ok (.float x, text)
    | none => .error (.outOfRange text)
  else match Number.integer? whole with
    | some n => .ok (.int n, whole)
    | none => .error (.outOfRange whole)

def number : List Char → Except Error.Cause (Kind × List Char)
  | '-' :: digits => numeral ['-'] digits
  | digits => numeral [] digits

def single? : Char → Option Kind
  | '(' => some (.opening .round)
  | ')' => some (.closing .round)
  | '[' => some (.opening .square)
  | ']' => some (.closing .square)
  | '{' => some (.opening .curly)
  | '}' => some (.closing .curly)
  | '^' => some (.marker .child)
  | '?' => some (.marker .optional)
  | '$' => some (.marker .capture)
  | '!' => some (.marker .negation)
  | '\\' => some .backslash
  | _ => none

def headIs (f : Char → Bool) : List Char → Bool
  | c :: _ => f c
  | [] => false

def argument (rest : List Char) : Except Error.Cause (Kind × Nat) :=
  let digits := rest.takeWhile Char.isDigit
  match Number.natural? digits with
  | some (n + 1) => .ok (.argument (n + 1), digits.length)
  | _ => .error .argumentNumber

def str (rest : List Char) : Except Error.Cause (Kind × Nat) :=
  match Text.Quoted.decode? rest with
  | some (text, after) => .ok (.str text, rest.length - after.length)
  | none => .error .unclosedText

def symbol (rest : List Char) : Except Error.Cause (Kind × Nat) :=
  match operator? rest with
  | some op => .ok (.symbol op, op.length)
  | none =>
    if headIs Text.isWord rest then .ok (.symbol (name rest), (name rest).length)
    else .error .symbolName

/-- The token that begins with `c`, and how many characters of `rest` belong to it. -/
def next (c : Char) (rest : List Char) : Except Error.Cause (Kind × Nat) :=
  if c = '-' && headIs Char.isDigit rest then
    (number (c :: rest)).map fun (kind, text) => (kind, text.length - 1)
  else match operator? (c :: rest) with
  | some op => .ok (.word op, op.length - 1)
  | none =>
    if c.isDigit then (number (c :: rest)).map fun (kind, text) => (kind, text.length - 1)
    else if ['.', '.', '.'].isPrefixOf (c :: rest) then .ok (.ellipsis, 2)
    else if c = '_' && !headIs Text.isWord rest then .ok (.wildcard, 0)
    else match single? c with
    | some kind => .ok (kind, 0)
    | none =>
      if c = '%' then argument rest
      else if c = '"' then str rest
      else if c = ':' then symbol rest
      else if Text.isWord c then .ok (.word (name (c :: rest)), (name (c :: rest)).length - 1)
      else .error (.unexpectedChar c)

/-- The tokens of a text that stands at the byte offset `pos`. -/
def scanFrom (pos : Nat) : List Char → Except Error (List Token)
  | [] => .ok []
  | c :: rest =>
    if Text.isSpace c then scanFrom (pos + c.utf8Size) rest
    else match next c rest with
      | .error cause => .error ⟨cause, pos⟩
      | .ok (kind, n) =>
        (scanFrom (pos + c.utf8Size + Text.width (rest.take n)) (rest.drop n)).map
          (⟨kind, pos⟩ :: ·)
termination_by cs => cs.length
decreasing_by
  · simp
  · simp only [List.length_drop, List.length_cons]
    omega

def scan (source : List Char) : Except Error (List Token) := scanFrom 0 source

end Token

end TreeQuery.Pattern
