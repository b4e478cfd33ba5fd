import TreeQuery.Number.Integer

/-!
# Replacement templates

`$N` stands for capture `N`, `$0` for the whole occurrence, `$$` for a dollar sign; a dollar sign
before anything else stands for itself.

A template is scanned twice, for what it refers to and to write it out. Both scans look at the
characters behind a dollar sign and then skip those that belong to it.
-/

namespace TreeQuery

namespace Template

/-- Capture numbers are words of 64 bits; a greater one counts as the greatest. -/
def clamp (n : Nat) : Nat := min n 0xffffffffffffffff

def number? (cs : List Char) : Option (Nat × Nat) :=
  match cs.takeWhile Char.isDigit with
  | [] => none
  | d :: ds => some (clamp (Number.ofDigits (d :: ds)), (d :: ds).length)

def startsDollar : List Char → Bool
  | c :: _ => c == '$'
  | [] => false

/-- The numbers that the template refers to, behind its first `skip` characters. -/
def referencesFrom : Nat → List Char → List Nat
  | _, [] => []
  | skip + 1, _ :: cs => referencesFrom skip cs
  | 0, c :: cs =>
    if c ≠ '$' then referencesFrom 0 cs
    else if startsDollar cs then referencesFrom 1 cs
    else match number? cs with
      | some (n, digits) => n :: referencesFrom digits cs
      | none => referencesFrom 0 cs

def references (template : List Char) : List Nat := referencesFrom 0 template

section
variable (text : Nat → List Char)

def expandFrom : Nat → List Char → List Char
  | _, [] => []
  | skip + 1, _ :: cs => expandFrom skip cs
  | 0, c :: cs =>
    if c ≠ '$' then c :: expandFrom 0 cs
    else if startsDollar cs then '$' :: expandFrom 1 cs
    else match number? cs with
      | some (n, digits) => text n ++ expandFrom digits cs
      | none => '$' :: expandFrom 0 cs

def expand (template : List Char) : List Char := expandFrom text 0 template

end

end Template

end TreeQuery
