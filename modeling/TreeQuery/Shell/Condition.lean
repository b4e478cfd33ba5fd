import TreeQuery.Number.Integer
import TreeQuery.Shell.Bytes
import TreeQuery.Text.Class

/-!
# Conditions

Conditions on texts, numbers and files, in two readings of the same words. The program decides by
the number of words first and reads longer conditions by precedence. The shell has a reader of its
own, which knows fewer operators and counts a second negation at the start for the first one.
-/

namespace TreeQuery.Shell.Condition

abbrev Word := List Char

-- ---------------------------------------------------------------------------
-- Tests
-- ---------------------------------------------------------------------------

def integer? (cs : Word) : Option Int :=
  let body := (cs.dropWhile Text.isSpace).reverse.dropWhile Text.isSpace
  match body.reverse with
  | '-' :: ds => (Number.digits? ds).map fun n => -(n : Int)
  | '+' :: ds => (Number.digits? ds).map fun n => (n : Int)
  | ds => (Number.digits? ds).map fun n => (n : Int)

def found? (fs : File.System) (path : Word) : Option File.Entry := (fs.entry (toPath path)).toOption

def hasSize : File.Entry → Bool
  | .file (.text cs) => !cs.isEmpty
  | .file (.binary bytes) => !bytes.isEmpty
  | .directory _ | .program _ => true
  | .sink => false

def unary? (fs : File.System) (letter : Char) (arg : Word) : Option Bool :=
  let found := found? fs arg
  match letter with
  | 'n' => some (!arg.isEmpty)
  | 'z' => some arg.isEmpty
  | 'e' | 'r' | 'w' | 'O' | 'G' => some found.isSome
  | 'f' => some (fs.isFile (toPath arg))
  | 'd' => some (fs.isDirectory (toPath arg))
  | 'x' =>
    some <| match found with
      | some (.directory _) | some (.program _) => true
      | _ => false
  | 'c' => some (found matches some .sink)
  | 's' => some (found.any hasSize)
  | 't' => (integer? arg).map fun _ => false
  | 'b' | 'g' | 'h' | 'k' | 'L' | 'p' | 'S' | 'u' => some false
  | _ => none

def compareNumbers? (a b : Word) (f : Int → Int → Bool) : Option Bool :=
  match integer? a, integer? b with
  | some m, some n => some (f m n)
  | _, _ => none

def numeric? (op : Word) : Option (Int → Int → Bool) :=
  match String.ofList op with
  | "-eq" => some (· == ·)
  | "-ne" => some (· != ·)
  | "-lt" => some (· < ·)
  | "-le" => some (· ≤ ·)
  | "-gt" => some (· > ·)
  | "-ge" => some (· ≥ ·)
  | _ => none

def sameFile (fs : File.System) (a b : Word) : Bool :=
  match fs.locate (toPath a), fs.locate (toPath b) with
  | .ok p, .ok q => p == q && (found? fs a).isSome
  | _, _ => false

-- ---------------------------------------------------------------------------
-- The program
-- ---------------------------------------------------------------------------

def operators : List String :=
  ["=", "==", "!=", "-nt", "-ot", "-ef", "-eq", "-ne", "-lt", "-le", "-gt", "-ge"]

def isOperator (op : Word) : Bool := operators.contains (String.ofList op)

/-- A file that is there is newer than one that is not; of two that are there, neither is. -/
def binary? (fs : File.System) (a op b : Word) : Option Bool :=
  let isThere (w : Word) : Bool := (found? fs w).isSome
  match String.ofList op with
  | "=" | "==" => some (a == b)
  | "!=" => some (a != b)
  | "-nt" => some (isThere a && !isThere b)
  | "-ot" => some (isThere b && !isThere a)
  | "-ef" => some (sameFile fs a b)
  | _ => (numeric? op).bind (compareNumbers? a b)

def letter? : Word → Option Char
  | ['-', c] => some c
  | _ => none

abbrev Reading := Option (Bool × List Word)

def one : List Word → Reading
  | a :: rest => some (!a.isEmpty, rest)
  | [] => none

def two (fs : File.System) : List Word → Reading
  | ['!'] :: a :: rest => some (a.isEmpty, rest)
  | op :: a :: rest => do
    let value ← unary? fs (← letter? op) a
    return (value, rest)
  | _ => none

mutual
def counted (fs : File.System) : Nat → Nat → List Word → Reading
  | 0, _, _ => none
  | fuel + 1, count, ws =>
    match count, ws with
    | 1, ws => one ws
    | 2, ws => two fs ws
    | 3, a :: op :: b :: rest =>
      if isOperator op then (binary? fs a op b).map (·, rest)
      else if a = ['!'] then (two fs (op :: b :: rest)).map fun (v, rest) => (!v, rest)
      else if a = ['('] && b = [')'] then some (!op.isEmpty, rest)
      else if op = ['-', 'a'] || op = ['-', 'o'] then disjunction fs fuel ws
      else none
    | 4, ['!'] :: ws => (counted fs fuel 3 ws).map fun (v, rest) => (!v, rest)
    | 4, a :: b :: c :: d :: rest =>
      if a = ['('] && d = [')'] then (two fs [b, c]).map fun (v, _) => (v, rest)
      else disjunction fs fuel ws
    | _, ws => disjunction fs fuel ws
def disjunction (fs : File.System) : Nat → List Word → Reading
  | 0, _ => none
  | fuel + 1, ws => do
    let (v, rest) ← conjunction fs fuel ws
    match rest with
    | ['-', 'o'] :: rest =>
      let (w, rest) ← disjunction fs fuel rest
      return (v || w, rest)
    | _ => return (v, rest)
def conjunction (fs : File.System) : Nat → List Word → Reading
  | 0, _ => none
  | fuel + 1, ws => do
    let (v, rest) ← term fs fuel ws
    match rest with
    | ['-', 'a'] :: rest =>
      let (w, rest) ← conjunction fs fuel rest
      return (v && w, rest)
    | _ => return (v, rest)
def term (fs : File.System) : Nat → List Word → Reading
  | 0, _ => none
  | _, [] => none
  | fuel + 1, ['!'] :: ws => (term fs fuel ws).map fun (v, rest) => (!v, rest)
  | fuel + 1, ['('] :: ws => do
    if ws.isEmpty then none
    let inner := (ws.tail.takeWhile (· != [')'])).length + 1
    let count := if 4 < inner then ws.length else inner
    let (v, rest) ← counted fs fuel count ws
    match rest with
    | [')'] :: rest => return (v, rest)
    | _ => none
  | _ + 1, a :: rest =>
    match a, rest with
    | ['-', 'l'], text :: op :: b :: after =>
      if isOperator op then
        (binary? fs (Number.decimal text.length) op b).map (·, after)
      else if isOperator text then (binary? fs a text op).map (·, b :: after)
      else none
    | _, op :: b :: after =>
      if isOperator op then (binary? fs a op b).map (·, after)
      else match letter? a with
        | some c => (unary? fs c op).map (·, b :: after)
        | none => some (!a.isEmpty, rest)
    | _, _ =>
      match letter? a, rest with
      | some c, arg :: after => (unary? fs c arg).map (·, after)
      | some _, [] => none
      | none, _ => some (!a.isEmpty, rest)
end

def value? (fs : File.System) (ws : List Word) : Option Bool :=
  if ws.isEmpty then some false
  else match counted fs (4 * ws.length + 8) ws.length ws with
    | some (v, []) => some v
    | _ => none

def effect (fs : File.System) : Option Bool → Effect
  | some b => .ofBool fs b
  | none => .fail fs 2 "test" "syntax error"

def bracketed? (ws : List Word) : Option (List Word) :=
  if ws.getLast? == some [']'] then some ws.dropLast else none

def program : Program := fun fs args _ => effect fs (value? fs args)

def bracketProgram : Program := fun fs args _ =>
  if args == ["--help".toList] || args == ["--version".toList] then .exit fs 0
  else effect fs ((bracketed? args).bind (value? fs))

-- ---------------------------------------------------------------------------
-- The shell
-- ---------------------------------------------------------------------------

namespace Inner

inductive Operator where
  | unary (letter : Char)
  | binary (name : String)
  | negation
  | conjunction
  | disjunction
  | opening
  | closing
deriving DecidableEq

def unaryLetters : String := "rwxefdcbpugkstznhOGLS"

def binaryNames : List String :=
  ["=", "!=", "<", ">", "-eq", "-ne", "-ge", "-gt", "-le", "-lt", "-nt", "-ot", "-ef"]

def operator? (w : Word) : Option Operator :=
  match String.ofList w with
  | "!" => some .negation
  | "-a" => some .conjunction
  | "-o" => some .disjunction
  | "(" => some .opening
  | ")" => some .closing
  | name =>
    if binaryNames.contains name then some (.binary name)
    else (letter? w).bind fun c =>
      if unaryLetters.toList.contains c then some (.unary c) else none

def isBinary (w : Word) : Bool := operator? w matches some (.binary _)

/-- An operator on one word is an operand if nothing follows, or if what follows is an operator
between two. -/
def isOperand : List Word → Bool
  | [] => true
  | [_] => false
  | w :: _ :: _ => isBinary w

def lex : List Word → Option Operator
  | [] => none
  | w :: rest =>
    match operator? w with
    | some (.unary c) => if isOperand rest then none else some (.unary c)
    | some .opening => if rest.isEmpty then none else some .opening
    | op => op

def binary? (fs : File.System) (name : String) (a b : Word) : Option Bool :=
  match name with
  | "=" => some (a == b)
  | "!=" => some (a != b)
  | "<" => some (!Text.precedes b a)
  | ">" => some (!Text.precedes a b)
  | "-nt" | "-ot" => some false
  | "-ef" => some (sameFile fs a b)
  | _ =>
    let word? (w : Word) : Option Int :=
      (integer? w).filter fun n => -0x8000000000000000 ≤ n && n < 0x8000000000000000
    match word? a, word? b with
    | some m, some n => (numeric? name.toList).map fun f => f m n
    | _, _ => none

mutual
def disjunction (fs : File.System) : Nat → Option Operator → List Word → Reading
  | 0, _, _ => none
  | fuel + 1, op, ws => do
    let (v, ws) ← conjunction fs fuel op ws
    if lex ws.tail == some .disjunction then
      let ws := ws.drop 2
      let (w, ws) ← disjunction fs fuel (lex ws) ws
      return (v || w, ws)
    else return (v, ws)
def conjunction (fs : File.System) : Nat → Option Operator → List Word → Reading
  | 0, _, _ => none
  | fuel + 1, op, ws => do
    let (v, ws) ← negation fs fuel op ws
    if lex ws.tail == some .conjunction then
      let ws := ws.drop 2
      let (w, ws) ← conjunction fs fuel (lex ws) ws
      return (v && w, ws)
    else return (v, ws)
def negation (fs : File.System) : Nat → Option Operator → List Word → Reading
  | 0, _, _ => none
  | fuel + 1, op, ws => do
    if op = some .negation then
      let (v, ws) ← if ws.tail.isEmpty then some (false, ws)
        else negation fs fuel (lex ws.tail) ws.tail
      return (!v, ws)
    else primary fs fuel op ws
def primary (fs : File.System) : Nat → Option Operator → List Word → Reading
  | 0, _, _ => none
  | _, _, [] => some (false, [])
  | fuel + 1, op, w :: rest =>
    match op, rest with
    | some .opening, rest => do
      if lex rest == some .closing then return (false, rest)
      let (v, rest) ← disjunction fs fuel (lex rest) rest
      if lex rest.tail == some .closing then return (v, rest.tail) else none
    | some (.unary c), arg :: _ => (unary? fs c arg).map (·, rest)
    | some (.unary _), [] => none
    | _, rest =>
      match lex rest, rest with
      | some (.binary name), _ :: b :: after => (binary? fs name w b).map (·, b :: after)
      | some (.binary _), _ => none
      | _, _ => some (!w.isEmpty, w :: rest)
end

def conclude (fs : File.System) (negated : Bool) (op : Option Operator) (ws : List Word) :
    Option Bool := do
  let (v, rest) ← disjunction fs (4 * ws.length + 8) op ws
  if rest.tail.isEmpty then return v != negated else none

/-- The value of some words; `none` if they make no condition. Three or four words lose a negation
or brackets at their ends first. -/
def value? (fs : File.System) (negated : Bool) : List Word → Option Bool
  | [] => some negated
  | [a, op, b] =>
    if isBinary op then conclude fs negated none [a, op, b]
    else if a = ['('] && b = [')'] then conclude fs negated (lex [op]) [op]
    else if a = ['!'] then value? fs true [op, b]
    else conclude fs negated (lex [a, op, b]) [a, op, b]
  | [a, b, c, d] =>
    if a = ['('] && d = [')'] then conclude fs negated (lex [b, c]) [b, c]
    else if a = ['!'] then value? fs true [b, c, d]
    else conclude fs negated (lex [a, b, c, d]) [a, b, c, d]
  | ws => conclude fs negated (lex ws) ws

end Inner

def builtin : Program := fun fs args _ => effect fs (Inner.value? fs false args)

def bracketBuiltin : Program := fun fs args _ =>
  effect fs ((bracketed? args).bind (Inner.value? fs false))

end TreeQuery.Shell.Condition
