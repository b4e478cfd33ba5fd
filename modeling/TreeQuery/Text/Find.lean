/-!
# Texts inside texts, and their order
-/

namespace TreeQuery.Text

def contains (part : List Char) : List Char → Bool
  | [] => part.isEmpty
  | c :: cs => part.isPrefixOf (c :: cs) || contains part cs

def split (separator : Char) : List Char → List (List Char)
  | [] => [[]]
  | c :: cs =>
    if c = separator then [] :: split separator cs
    else match split separator cs with
      | [] => [[c]]
      | p :: ps => (c :: p) :: ps

def join (separator : List Char) (pieces : List (List Char)) : List Char :=
  (List.intersperse separator pieces).flatten

/-- Puts `new` for every `old`, from the left; `old` is not empty. -/
def replace (old new : List Char) : List Char → List Char
  | [] => []
  | c :: cs =>
    if old.isPrefixOf (c :: cs) then new ++ replace old new (cs.drop (old.length - 1))
    else c :: replace old new cs
termination_by cs => cs.length
decreasing_by
  · simp only [List.length_drop, List.length_cons]
    omega
  · simp

/-- The order of texts by their characters, in which a beginning comes first. -/
def precedes : List Char → List Char → Bool
  | [], _ => true
  | _ :: _, [] => false
  | a :: as, b :: bs => a.toNat < b.toNat || (a.toNat == b.toNat && precedes as bs)

end TreeQuery.Text
