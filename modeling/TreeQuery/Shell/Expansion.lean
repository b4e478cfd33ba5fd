import TreeQuery.Shell.Builtin

/-!
# Words and what they stand for

A word becomes a list of characters with marks: which of them are quoted, and at which it may be
split. From these come the fields of a command, the value of an assignment or a pattern. A word may
contain commands; how these are run is a parameter here. Words are nested at most `fuel` deep.
-/

namespace TreeQuery.Shell

abbrev Subshell := Script → Session Unit

namespace Expansion

def splitting : Glyph → Glyph
  | .char c false _ => .char c false true
  | g => g

def severally (quoted : Bool) (values : List (List Char)) : List Glyph :=
  (values.map (Glyph.ofValue quoted)).intersperse [.boundary] |>.flatten

def joint (s : State) : List Char :=
  match s.value? "IFS".toList with
  | none => [' ']
  | some cs => cs.take 1

/-- All arguments, as words of their own or, with the star in quotes, as one word. -/
def argumentGlyphs (s : State) (quoted star : Bool) (values : List (List Char)) : List Glyph :=
  if quoted && star then .quote :: Glyph.ofText true false (Text.join (joint s) values)
  else severally quoted values

def values? (s : State) (name : List Char) : Option (List (List Char)) :=
  if name = ['@'] || name = ['*'] then some s.args else (s.parameter? name).map ([·])

def valueGlyphs (s : State) (quoted : Bool) (name : List Char) (values : List (List Char)) :
    List Glyph :=
  if name = ['@'] || name = ['*'] then argumentGlyphs s quoted (name = ['*']) values
  else severally quoted values

def requireSet (name : List Char) : Session Unit := do
  if (← get).flags.failOnUnset && name != ['@'] && name != ['*'] then
    abort (name ++ ": parameter not set".toList)

/-- The directory that a tilde at the start of a word stands for, and the rest of the text. -/
def home? (s : State) (cs : List Char) : Option (List Char × List Char) :=
  match cs with
  | '~' :: rest =>
    let user := rest.takeWhile (· != '/')
    let after := rest.drop user.length
    if user.isEmpty then (s.value? "HOME".toList).map (·, after)
    else if user = "root".toList then some ("/root".toList, after)
    else none
  | _ => none

def capture (subshell : Subshell) (script : Script) : Session (List Char) := do
  let s ← get
  let (id, inner) := s.openStream []
  set (inner.attach 1 (.stream id))
  subshell script
  let t ← get
  set { t with channels := s.channels, streams := t.streams.take id, status := s.status
               outputStatus := t.status }
  return ((t.stream id).filter (· != '\x00')).reverse.dropWhile (· == '\n') |>.reverse

def compute (cs : List Char) : Session (List Char) := do
  let s ← get
  match Expression.ofText? cs with
  | none => abort ("arithmetic expression: expecting primary: \"".toList ++ cs ++ ['"'])
  | some e =>
    match e.eval (fun name => (s.parameter? name).getD []) [] with
    | none => abort "arithmetic expression: no value".toList
    | some (v, assigned) =>
      assigned.reverse.forM fun (name, v) => assign name (toString v.toInt).toList
      return (toString v.toInt).toList

mutual
def partGlyphs (subshell : Subshell) : Nat → Part → Session (List Glyph)
  | 0, _ => throw .late
  | fuel + 1, part =>
    match part with
    | .text true cs => return .quote :: Glyph.ofText true false cs
    | .text false cs => return Glyph.ofText false false cs
    | .output quoted script => return Glyph.ofValue quoted (← capture subshell script)
    | .arithmetic quoted ps => do
      let gs ← glyphs subshell fuel ps
      return Glyph.ofValue quoted (← compute (Glyph.text (joint (← get)) gs))
    | .parameter quoted name use => useGlyphs subshell fuel quoted name use
def glyphs (subshell : Subshell) : Nat → List Part → Session (List Glyph)
  | 0, _ => throw .late
  | _, [] => return []
  | fuel + 1, p :: ps => return (← partGlyphs subshell fuel p) ++ (← glyphs subshell fuel ps)
def wordGlyphs (subshell : Subshell) : Nat → List Part → Session (List Glyph)
  | 0, _ => throw .late
  | fuel + 1, ps => do
    let s ← get
    match ps with
    | .text false cs :: rest =>
      match (if cs.contains '/' || rest.isEmpty then home? s cs else none) with
      | some (directory, after) =>
        return Glyph.ofValue true directory ++ Glyph.ofText false false after ++
          (← glyphs subshell fuel rest)
      | none => glyphs subshell fuel ps
    | _ => glyphs subshell fuel ps
def useGlyphs (subshell : Subshell) : Nat → Bool → List Char → Use → Session (List Glyph)
  | 0, _, _, _ => throw .late
  | fuel + 1, quoted, name, use => do
    let s ← get
    let values := values? s name
    match use with
    | .malformed => abort "Bad substitution".toList
    | .plain =>
      match values with
      | some vs => return valueGlyphs s quoted name vs
      | none =>
        requireSet name
        return valueGlyphs s quoted name [[]]
    | .length =>
      if values.isNone then requireSet name
      return Glyph.ofValue quoted (Number.decimal (Text.join (joint s) (values.getD [])).length)
    | .cut atEnd longest pattern =>
      if values.isNone then requireSet name
      let signs := Glob.signs (Glyph.marks (joint s) (← glyphs subshell fuel pattern))
      let cut := if atEnd then Glob.withoutEnd longest signs else Glob.withoutStart longest signs
      return valueGlyphs s quoted name ((values.getD [[]]).map cut)
    | .substitute kind orEmpty word =>
      let present := match values with
        | none => false
        | some vs => !orEmpty || !(Text.join (joint s) vs).isEmpty
      let mark : List Glyph := if quoted then [.quote] else []
      if kind = .instead then
        if present then return mark ++ (← wordGlyphs subshell fuel word).map splitting
        else return mark
      else if present then return mark ++ valueGlyphs s quoted name (values.getD [])
      else match kind with
        | .assign =>
          let value := Glyph.text (joint s) (← wordGlyphs subshell fuel word)
          if !Reader.isName name then abort (name ++ ": bad variable name".toList)
          assign name value
          return Glyph.ofValue quoted value
        | .fail =>
          let message := Glyph.text (joint s) (← wordGlyphs subshell fuel word)
          abort (name ++ ": ".toList ++
            (if message.isEmpty then "parameter not set".toList else message))
        | _ => return mark ++ (← wordGlyphs subshell fuel word).map splitting
end

def wordText (subshell : Subshell) (fuel : Nat) (ps : List Part) : Session (List Char) := do
  let gs ← wordGlyphs subshell fuel ps
  return Glyph.text (joint (← get)) gs

def wordSigns (subshell : Subshell) (fuel : Nat) (ps : List Part) : Session (List Glob.Sign) := do
  let gs ← wordGlyphs subshell fuel ps
  return Glob.signs (Glyph.marks (joint (← get)) gs)

/-- The fields that words stand for: values are split, and patterns replaced by the paths that fit
them. -/
def fields (subshell : Subshell) (fuel : Nat) : List (List Part) → Session (List (List Char))
  | [] => return []
  | w :: ws => do
    let gs ← wordGlyphs subshell fuel w
    let s ← get
    let found := (Glyph.split s.separators none false gs).flatMap fun marks =>
      if s.flags.noPaths then [marks.map (·.1)] else Glob.paths s.files marks
    return found ++ (← fields subshell fuel ws)

end Expansion

end TreeQuery.Shell
