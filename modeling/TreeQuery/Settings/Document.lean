import TreeQuery.Settings.Scalar

/-!
# Settings files

A settings file sets keys to values, one a line. A key may name a place in a table by several
words with dots between them, and a line with a name in brackets opens a table for the lines that
follow. Nothing may be set twice. Only what is set outside of all tables can be a setting; a table
in the place of a setting fits none.
-/

namespace TreeQuery.Settings.Document

open Scalar

abbrev Key := List Char

inductive Item where
  | value (v : Value)
  /-- A table. It is implicit if no line opened it, and dotted if a key with dots made it. -/
  | table (implicit dotted : Bool) (entries : List (Key × Item))
  | tables (last : List (Key × Item))

abbrev Table := List (Key × Item)

namespace Table

def put (key : Key) (item : Item) (t : Table) : Table :=
  t.map fun (k, old) => if k = key then (k, item) else (k, old)

def set? (v : Value) : List Key → Table → Option Table
  | [], _ => none
  | [k], t => if (t.lookup k).isSome then none else some (t ++ [(k, .value v)])
  | k :: ks, t =>
    match t.lookup k with
    | none => (set? v ks []).map fun inner => t ++ [(k, .table true true inner)]
    | some (.table true dotted inner) =>
      (set? v ks inner).map fun inner => put k (.table true dotted inner) t
    | some _ => none

/-- Opens a table; `none` if it has been opened or is something else. -/
def openTable? : List Key → Table → Option Table
  | [], _ => none
  | [k], t =>
    match t.lookup k with
    | none => some (t ++ [(k, .table false false [])])
    | some (.table true false inner) => some (put k (.table false false inner) t)
    | some _ => none
  | k :: ks, t =>
    match t.lookup k with
    | none => (openTable? ks []).map fun inner => t ++ [(k, .table true false inner)]
    | some (.table implicit dotted inner) =>
      (openTable? ks inner).map fun inner => put k (.table implicit dotted inner) t
    | some (.tables last) => (openTable? ks last).map fun last => put k (.tables last) t
    | some (.value _) => none

def openElement? : List Key → Table → Option Table
  | [], _ => none
  | [k], t =>
    match t.lookup k with
    | none => some (t ++ [(k, .tables [])])
    | some (.tables _) => some (put k (.tables []) t)
    | some _ => none
  | k :: ks, t =>
    match t.lookup k with
    | none => (openElement? ks []).map fun inner => t ++ [(k, .table true false inner)]
    | some (.table implicit dotted inner) =>
      (openElement? ks inner).map fun inner => put k (.table implicit dotted inner) t
    | some (.tables last) => (openElement? ks last).map fun last => put k (.tables last) t
    | some (.value _) => none

def within? (change : Table → Option Table) : List Key → Table → Option Table
  | [], t => change t
  | k :: ks, t =>
    match t.lookup k with
    | some (.table implicit dotted inner) =>
      (within? change ks inner).map fun inner => put k (.table implicit dotted inner) t
    | some (.tables last) => (within? change ks last).map fun last => put k (.tables last) t
    | _ => none

def layer (t : Table) : Layer :=
  t.map fun (k, item) =>
    match item with
    | .value v => (k, v)
    | .table .. | .tables _ => (k, .other)

end Table

-- ---------------------------------------------------------------------------
-- Keys
-- ---------------------------------------------------------------------------

def isKeyChar (c : Char) : Bool := c.isAlphanum || c == '_' || c == '-'

def key? (cs : List Char) : Option (Key × List Char) :=
  match cs with
  | '"' :: rest => quoted? rest
  | '\x27' :: rest => literal? rest
  | _ =>
    let name := cs.takeWhile isKeyChar
    if name.isEmpty then none else some (name, cs.drop name.length)

def keysFor : Nat → List Char → Option (List Key × List Char)
  | 0, _ => none
  | fuel + 1, cs => do
    let (key, cs) ← key? (skip cs)
    match skip cs with
    | '.' :: cs =>
      let (keys, cs) ← keysFor fuel cs
      return (key :: keys, cs)
    | cs => return ([key], cs)

def keys? (cs : List Char) : Option (List Key × List Char) := keysFor cs.length cs

-- ---------------------------------------------------------------------------
-- Values
-- ---------------------------------------------------------------------------

def comment? (cs : List Char) : Option (List Char) :=
  let text := cs.takeWhile (· != '\n')
  let body := if text.getLast? == some '\r' then text.dropLast else text
  if body.any isControl then none else some (cs.drop body.length)

def skipLines : Nat → List Char → Option (List Char)
  | 0, _ => none
  | fuel + 1, cs =>
    match skip cs with
    | '#' :: rest => (comment? rest).bind (skipLines fuel)
    | cs =>
      match lineEnd? cs with
      | some rest => skipLines fuel rest
      | none => some cs

mutual
def valueFor : Nat → List Char → Option (Value × List Char)
  | 0, _ => none
  | fuel + 1, cs =>
    let text (r : Option (List Char × List Char)) : Option (Value × List Char) :=
      r.map fun (t, rest) => (.text t, rest)
    match cs with
    | '"' :: '"' :: '"' :: rest => text (block? '"' true rest)
    | '\x27' :: '\x27' :: '\x27' :: rest => text (block? '\x27' false rest)
    | '"' :: rest => text (quoted? rest)
    | '\x27' :: rest => text (literal? rest)
    | '[' :: rest => (elementsFor fuel rest).map fun rest => (.other, rest)
    | '{' :: rest =>
      match skip rest with
      | '}' :: rest => some (.other, rest)
      | rest => (membersFor fuel [] rest).map fun rest => (.other, rest)
    | _ =>
      let (w, rest) := word cs
      (ofWord? w).map fun v => (v, rest)
def elementsFor : Nat → List Char → Option (List Char)
  | 0, _ => none
  | fuel + 1, cs => do
    match ← skipLines (cs.length + 1) cs with
    | ']' :: rest => return rest
    | cs =>
      let (_, cs) ← valueFor fuel cs
      match ← skipLines (cs.length + 1) cs with
      | ']' :: rest => return rest
      | ',' :: rest => elementsFor fuel rest
      | _ => none
def membersFor : Nat → Table → List Char → Option (List Char)
  | 0, _, _ => none
  | fuel + 1, t, cs => do
    let (keys, cs) ← keys? cs
    let (v, cs) ← valueFor fuel (skip (← expect? '=' cs))
    let t ← t.set? v keys
    match skip cs with
    | '}' :: rest => return rest
    | ',' :: rest => membersFor fuel t rest
    | _ => none
end

def value? (cs : List Char) : Option (Value × List Char) := valueFor (cs.length + 1) cs

-- ---------------------------------------------------------------------------
-- Lines
-- ---------------------------------------------------------------------------

def closeLine? (cs : List Char) : Option (List Char) :=
  match skip cs with
  | [] => some []
  | '#' :: rest => comment? rest
  | cs => (lineEnd? cs).map fun _ => cs

/-- One line that sets something or opens a table. `place` is the table that is open. -/
def statement? (place : List Key) (t : Table) (cs : List Char) :
    Option (List Key × Table × List Char) :=
  match cs with
  | '[' :: '[' :: rest => do
    let (keys, rest) ← keys? rest
    let rest ← closeLine? (← expect? ']' (← expect? ']' rest))
    return (keys, ← t.openElement? keys, rest)
  | '[' :: rest => do
    let (keys, rest) ← keys? rest
    let rest ← closeLine? (← expect? ']' rest)
    return (keys, ← t.openTable? keys, rest)
  | _ => do
    let (keys, cs) ← keys? cs
    let (v, cs) ← value? (skip (← expect? '=' cs))
    return (place, ← t.within? (Table.set? v keys) place, ← closeLine? cs)

def readLines : Nat → List Key → Table → List Char → Option Table
  | 0, _, _, _ => none
  | fuel + 1, place, t, cs => do
    let cs ← skipLines (cs.length + 1) cs
    if cs.isEmpty then return t
    let (place, t, cs) ← statement? place t cs
    readLines fuel place t cs

/-- The settings of a file; `none` if some line cannot be read or something is set twice. A byte
order mark at the start means nothing. -/
def ofText? (text : List Char) : Option Layer :=
  let text := match text with
    | '\ufeff' :: rest => rest
    | _ => text
  (readLines (text.length + 1) [] [] text).map Table.layer

end TreeQuery.Settings.Document
