import TreeQuery.Text.Find

/-!
# Options of programs

Options are letters behind a dash, several behind one dash if they like, or names behind two, which
may be cut short as long as one name remains. An option may take a value: what follows its letter,
or the equals sign behind its name, or else the next word. All other words are operands.
-/

namespace TreeQuery.Shell

inductive Takes where
  | nothing
  | value
  | perhaps
deriving DecidableEq, Repr

structure OptionTable where
  flags : String
  valued : String
  names : List (String × Char × Takes)

structure Given where
  letter : Char
  value : List Char

structure Words where
  options : List Given
  operands : List (List Char)

namespace Words

def has (w : Words) (letter : Char) : Bool := w.options.any (·.letter == letter)

def value? (w : Words) (letter : Char) : Option (List Char) :=
  (w.options.reverse.find? (·.letter == letter)).map (·.value)

def option (g : Given) (w : Words) : Words := { w with options := g :: w.options }

def operand (word : List Char) (w : Words) : Words := { w with operands := word :: w.operands }

end Words

namespace OptionTable

def name? (t : OptionTable) (name : List Char) : Option (Char × Takes) :=
  match t.names.lookup (String.ofList name) with
  | some found => some found
  | none =>
    match (t.names.filter fun (n, _) => name.isPrefixOf n.toList).map (·.2) with
    | [] => none
    | found :: others => if others.all (·.1 == found.1) then some found else none

/-- The options behind one dash. The last one may lack its value, which is then told. -/
def cluster? (t : OptionTable) : List Char → Option (List Given × Option Char)
  | [] => some ([], none)
  | c :: rest =>
    if t.valued.toList.contains c then
      if rest.isEmpty then some ([], some c) else some ([⟨c, rest⟩], none)
    else if t.flags.toList.contains c then
      (t.cluster? rest).map fun (given, lacking) => (⟨c, []⟩ :: given, lacking)
    else none

/-- Reads the words of a program; `none` if an option is unknown or lacks its value. If
`scattered`, options may stand behind operands. -/
def read? (t : OptionTable) (scattered : Bool) : List (List Char) → Option Words
  | [] => some ⟨[], []⟩
  | ['-', '-'] :: rest => some ⟨[], rest⟩
  | ('-' :: '-' :: body) :: rest => do
    let name := body.takeWhile (· != '=')
    let (letter, takes) ← t.name? name
    if name.length < body.length then
      if takes = .nothing then none
      else (t.read? scattered rest).map (Words.option ⟨letter, body.drop (name.length + 1)⟩)
    else if takes = .value then
      match rest with
      | [] => none
      | value :: rest => (t.read? scattered rest).map (Words.option ⟨letter, value⟩)
    else (t.read? scattered rest).map (Words.option ⟨letter, []⟩)
  | ('-' :: c :: cs) :: rest => do
    match ← t.cluster? (c :: cs), rest with
    | (given, none), rest =>
      (t.read? scattered rest).map fun w => { w with options := given ++ w.options }
    | (_, some _), [] => none
    | (given, some letter), value :: rest =>
      (t.read? scattered rest).map fun w =>
        { w with options := given ++ ⟨letter, value⟩ :: w.options }
  | word :: rest =>
    if scattered then (t.read? scattered rest).map (Words.operand word)
    else some ⟨[], word :: rest⟩

end OptionTable

end TreeQuery.Shell
