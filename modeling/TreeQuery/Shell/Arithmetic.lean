import TreeQuery.Number.Integer
import TreeQuery.Text.Find

/-!
# Arithmetic of the shell

Expressions over words of 64 bits, with variables, assignments and the operators of common
programming languages. What an operator does not need is not computed.
-/

namespace TreeQuery.Shell

inductive Expression where
  | number (n : Int64)
  | name (name : List Char)
  | unary (op : Char) (a : Expression)
  | binary (op : String) (a b : Expression)
  | assign (name : List Char) (op : Option String) (a : Expression)
  | both (a b : Expression)
  | either (a b : Expression)
  | choice (condition yes no : Expression)

namespace Expression

-- ---------------------------------------------------------------------------
-- Reading
-- ---------------------------------------------------------------------------

inductive Token where
  | number (n : Int64)
  | name (name : List Char)
  | sign (text : String)
deriving DecidableEq

def isNameStart (c : Char) : Bool := c.isAlpha || c == '_'

def isNameChar (c : Char) : Bool := c.isAlphanum || c == '_'

def signs : List String :=
  ["<<=", ">>=", "&&", "||", "==", "!=", "<=", ">=", "<<", ">>", "+=", "-=", "*=", "/=", "%=",
    "&=", "|=", "^=", "(", ")", "<", ">", "+", "-", "*", "/", "%", "&", "|", "^", "!", "~", "?",
    ":", "="]

def digitOf (c : Char) : Nat := if c.isDigit then c.toNat - 48 else c.toLower.toNat - 87

def isHexDigit (c : Char) : Bool := c.isDigit || ('a' ≤ c.toLower && c.toLower ≤ 'f')

def literal (cs : List Char) : Nat × List Char :=
  let read (base : Nat) (isDigit : Char → Bool) (cs : List Char) : Nat × List Char :=
    let ds := cs.takeWhile isDigit
    (ds.foldl (fun n c => n * base + digitOf c) 0, cs.drop ds.length)
  match cs with
  | '0' :: 'x' :: c :: rest | '0' :: 'X' :: c :: rest =>
    if isHexDigit c then read 16 isHexDigit (c :: rest) else (0, cs.tail)
  | '0' :: _ => read 8 (fun c => '0' ≤ c && c ≤ '7') cs
  | _ => read 10 Char.isDigit cs

def isSpace (c : Char) : Bool := c == ' ' || c == '\t' || c == '\n'

def tokensFor : Nat → List Char → Option (List Token)
  | 0, _ => none
  | _, [] => some []
  | fuel + 1, c :: rest =>
    if isSpace c then tokensFor fuel rest
    else if c.isDigit then
      let (n, rest) := literal (c :: rest)
      (tokensFor fuel rest).map (.number (Int64.ofInt (min n 0x7fffffffffffffff)) :: ·)
    else if isNameStart c then
      let name := (c :: rest).takeWhile isNameChar
      (tokensFor fuel ((c :: rest).drop name.length)).map (.name name :: ·)
    else match signs.find? fun s => s.toList.isPrefixOf (c :: rest) with
      | some s => (tokensFor fuel ((c :: rest).drop s.length)).map (.sign s :: ·)
      | none => none

def strength? : String → Option Nat
  | "||" => some 1
  | "&&" => some 2
  | "|" => some 3
  | "^" => some 4
  | "&" => some 5
  | "==" | "!=" => some 6
  | "<" | ">" | "<=" | ">=" => some 7
  | "<<" | ">>" => some 8
  | "+" | "-" => some 9
  | "*" | "/" | "%" => some 10
  | _ => none

def assignment? : String → Option (Option String)
  | "=" => some none
  | "+=" => some (some "+")
  | "-=" => some (some "-")
  | "*=" => some (some "*")
  | "/=" => some (some "/")
  | "%=" => some (some "%")
  | "<<=" => some (some "<<")
  | ">>=" => some (some ">>")
  | "&=" => some (some "&")
  | "|=" => some (some "|")
  | "^=" => some (some "^")
  | _ => none

def join (op : String) (a b : Expression) : Expression :=
  match op with
  | "&&" => .both a b
  | "||" => .either a b
  | _ => .binary op a b

abbrev Reading := Option (Expression × List Token)

mutual
def readAssignment : Nat → List Token → Reading
  | 0, _ => none
  | fuel + 1, ts =>
    match ts with
    | .name n :: .sign s :: rest =>
      match assignment? s with
      | some op => do
        let (a, rest) ← readAssignment fuel rest
        return (.assign n op a, rest)
      | none => readChoice fuel ts
    | _ => readChoice fuel ts
def readChoice : Nat → List Token → Reading
  | 0, _ => none
  | fuel + 1, ts => do
    let (c, rest) ← readBinary fuel 1 ts
    match rest with
    | .sign "?" :: rest =>
      let (yes, rest) ← readAssignment fuel rest
      match rest with
      | .sign ":" :: rest =>
        let (no, rest) ← readChoice fuel rest
        return (.choice c yes no, rest)
      | _ => none
    | _ => return (c, rest)
def readBinary : Nat → Nat → List Token → Reading
  | 0, _, _ => none
  | fuel + 1, least, ts => do
    let (a, rest) ← readUnary fuel ts
    readRest fuel least a rest
/-- The operators at least this strong that follow an operand. -/
def readRest : Nat → Nat → Expression → List Token → Reading
  | 0, _, _, _ => none
  | fuel + 1, least, a, ts =>
    match ts with
    | .sign s :: rest =>
      match strength? s with
      | some n =>
        if n < least then some (a, ts)
        else do
          let (b, rest) ← readBinary fuel (n + 1) rest
          readRest fuel least (join s a b) rest
      | none => some (a, ts)
    | _ => some (a, ts)
def readUnary : Nat → List Token → Reading
  | 0, _ => none
  | fuel + 1, ts =>
    match ts with
    | .number n :: rest => some (.number n, rest)
    | .name n :: rest => some (.name n, rest)
    | .sign "(" :: rest => do
      let (a, rest) ← readAssignment fuel rest
      match rest with
      | .sign ")" :: rest => return (a, rest)
      | _ => none
    | .sign s :: rest =>
      if s == "-" || s == "+" || s == "!" || s == "~" then do
        let (a, rest) ← readUnary fuel rest
        return (.unary (s.toList.headD '+') a, rest)
      else none
    | [] => none
end

def ofText? (cs : List Char) : Option Expression := do
  let ts ← tokensFor (cs.length + 1) cs
  let (e, rest) ← readAssignment (16 * ts.length + 16) ts
  if rest.isEmpty then return e else none

-- ---------------------------------------------------------------------------
-- Computing
-- ---------------------------------------------------------------------------

def ofBool (b : Bool) : Int64 := if b then 1 else 0

def unaryValue (op : Char) (n : Int64) : Int64 :=
  match op with
  | '-' => -n
  | '!' => ofBool (n == 0)
  | '~' => ~~~n
  | _ => n

def binaryValue? (op : String) (a b : Int64) : Option Int64 :=
  match op with
  | "+" => some (a + b)
  | "-" => some (a - b)
  | "*" => some (a * b)
  | "/" => if b = 0 then none else some (a / b)
  | "%" => if b = 0 then none else some (a % b)
  | "<<" => some (a <<< b)
  | ">>" => some (a >>> b)
  | "&" => some (a &&& b)
  | "|" => some (a ||| b)
  | "^" => some (a ^^^ b)
  | "==" => some (ofBool (a == b))
  | "!=" => some (ofBool (a != b))
  | "<" => some (ofBool (a < b))
  | ">" => some (ofBool (b < a))
  | "<=" => some (ofBool (a ≤ b))
  | ">=" => some (ofBool (b ≤ a))
  | _ => none

def ofValue? (cs : List Char) : Option Int64 :=
  let body := (cs.dropWhile isSpace).reverse.dropWhile isSpace |>.reverse
  let (negative, digits) := match body with
    | '-' :: rest => (true, rest)
    | '+' :: rest => (false, rest)
    | _ => (false, body)
  if body.isEmpty then some 0
  else match digits with
    | c :: _ =>
      if !c.isDigit then none
      else
        let (n, rest) := literal digits
        if !rest.isEmpty || 0x7fffffffffffffff < n then none
        else some (Int64.ofInt (if negative then -(n : Int) else n))
    | [] => none

abbrev Assigned := List (List Char × Int64)

/-- The value, with the assignments made on the way; `none` if there is none. -/
def eval (look : List Char → List Char) : Expression → Assigned → Option (Int64 × Assigned)
  | .number n, env => some (n, env)
  | .name n, env =>
    match env.lookup n with
    | some v => some (v, env)
    | none => (ofValue? (look n)).map (·, env)
  | .unary op a, env => (a.eval look env).map fun (v, env) => (unaryValue op v, env)
  | .binary op a b, env => do
    let (v, env) ← a.eval look env
    let (w, env) ← b.eval look env
    return (← binaryValue? op v w, env)
  | .assign n op a, env => do
    let (v, env) ← a.eval look env
    let v ← match op with
      | none => some v
      | some op => do
        let old ← match env.lookup n with
          | some old => some old
          | none => ofValue? (look n)
        binaryValue? op old v
    return (v, (n, v) :: env)
  | .both a b, env => do
    let (v, env) ← a.eval look env
    if v = 0 then return (0, env)
    let (w, env) ← b.eval look env
    return (ofBool (w != 0), env)
  | .either a b, env => do
    let (v, env) ← a.eval look env
    if v != 0 then return (1, env)
    let (w, env) ← b.eval look env
    return (ofBool (w != 0), env)
  | .choice c yes no, env => do
    let (v, env) ← c.eval look env
    if v != 0 then yes.eval look env else no.eval look env

end Expression

end TreeQuery.Shell
