import Mathlib
import TreeQuery.Edit.Rule
import TreeQuery.Proofs.Text.Class

/-!
# How templates read

`Template.Begins` is one piece at the start of a template and what comes after it,
`Template.Reads` a whole template from left to right. Every template reads in exactly one way. Each
of the two scans takes a piece as `Begins` says, so a rule writes what it was checked for:
`Rule.make` accepts a template if no piece of it refers to more than the pattern captures, and
`Rule.render` writes the pieces one behind the other.
-/

namespace TreeQuery

namespace Template

open Text (Ends)

inductive Piece where
  | char (c : Char)
  | reference (n : Nat)
deriving DecidableEq, Repr

namespace Piece

def number? : Piece → Option Nat
  | char _ => none
  | reference n => some n

def render (text : Nat → List Char) : Piece → List Char
  | char c => [c]
  | reference n => text n

end Piece

/-- What does not come behind a dollar sign that stands for itself. -/
def continues (c : Char) : Bool := c == '$' || c.isDigit

/-- The first piece of a template, and what comes after it. -/
inductive Begins : List Char → Piece → List Char → Prop
  | escape {rest} : Begins ('$' :: '$' :: rest) (.char '$') rest
  | reference {ds rest} : ds ≠ [] → (∀ d ∈ ds, d.isDigit = true) → Ends Char.isDigit rest →
      Begins ('$' :: (ds ++ rest)) (.reference (clamp (Number.ofDigits ds))) rest
  | dollar {rest} : Ends continues rest → Begins ('$' :: rest) (.char '$') rest
  | char {c rest} : c ≠ '$' → Begins (c :: rest) (.char c) rest

inductive Reads : List Char → List Piece → Prop
  | nil : Reads [] []
  | cons {cs p rest ps} : Begins cs p rest → Reads rest ps → Reads cs (p :: ps)

variable {cs ds rest : List Char} {c : Char} {p : Piece} {ps : List Piece} {text : Nat → List Char}

-- ---------------------------------------------------------------------------
-- One piece
-- ---------------------------------------------------------------------------

/-- What both scans make of a character and those behind it: a piece, and how many more characters
belong to it. -/
def first (c : Char) (cs : List Char) : Piece × Nat :=
  if c ≠ '$' then (.char c, 0)
  else if startsDollar cs then (.char '$', 1)
  else match number? cs with
    | some (n, digits) => (.reference n, digits)
    | none => (.char '$', 0)

theorem number?_append (hne : ds ≠ []) (hds : ∀ d ∈ ds, d.isDigit = true)
    (hrest : Ends Char.isDigit rest) :
    number? (ds ++ rest) = some (clamp (Number.ofDigits ds), ds.length) := by
  rw [number?, hrest.takeWhile hds]
  cases ds with
  | nil => exact absurd rfl hne
  | cons d ds => rfl

theorem number?_of_ends (h : Ends Char.isDigit cs) : number? cs = none := by
  rw [number?, Text.ends_iff.1 h]

theorem startsDollar_append (hne : ds ≠ []) (hds : ∀ d ∈ ds, d.isDigit = true) :
    startsDollar (ds ++ rest) = false := by
  cases ds with
  | nil => exact absurd rfl hne
  | cons d ds =>
    have hd : d ≠ '$' := Text.ne_of_class (hds d List.mem_cons_self) rfl
    simpa [startsDollar] using hd

theorem ends_continues_iff :
    Ends continues cs ↔ startsDollar cs = false ∧ Ends Char.isDigit cs := by
  cases cs with
  | nil => simp [startsDollar, Ends]
  | cons c cs => simp [startsDollar, Ends, continues]

theorem first_reference (hne : ds ≠ []) (hds : ∀ d ∈ ds, d.isDigit = true)
    (hrest : Ends Char.isDigit rest) :
    first '$' (ds ++ rest) = (.reference (clamp (Number.ofDigits ds)), ds.length) := by
  simp [first, startsDollar_append hne hds, number?_append hne hds hrest]

theorem first_dollar (h : Ends continues cs) : first '$' cs = (.char '$', 0) := by
  obtain ⟨hdollar, hdigit⟩ := ends_continues_iff.1 h
  simp [first, hdollar, number?_of_ends hdigit]

theorem first_of_ne (hc : c ≠ '$') (cs : List Char) : first c cs = (.char c, 0) := if_pos hc

theorem Begins.exists_first (h : Begins cs p rest) :
    ∃ c tail, cs = c :: tail ∧ (first c tail).1 = p ∧ tail.drop (first c tail).2 = rest := by
  cases h with
  | escape => exact ⟨_, _, rfl, rfl, rfl⟩
  | reference hne hds hrest =>
    refine ⟨_, _, rfl, ?_⟩
    rw [first_reference hne hds hrest]
    exact ⟨rfl, List.drop_left⟩
  | dollar hrest =>
    refine ⟨_, _, rfl, ?_⟩
    rw [first_dollar hrest]
    exact ⟨rfl, rfl⟩
  | char hc =>
    refine ⟨_, _, rfl, ?_⟩
    rw [first_of_ne hc]
    exact ⟨rfl, rfl⟩

theorem Begins.unique {p' : Piece} {rest' : List Char} (h : Begins cs p rest)
    (h' : Begins cs p' rest') : p = p' ∧ rest = rest' := by
  obtain ⟨c, tail, rfl, rfl, rfl⟩ := h.exists_first
  obtain ⟨_, _, ⟨⟩, rfl, rfl⟩ := h'.exists_first
  exact ⟨rfl, rfl⟩

-- ---------------------------------------------------------------------------
-- The whole template
-- ---------------------------------------------------------------------------

theorem Reads.unique {qs : List Piece} (h : Reads cs ps) (h' : Reads cs qs) : ps = qs := by
  induction h generalizing qs with
  | nil =>
    cases h' with
    | nil => rfl
    | cons hp _ =>
      obtain ⟨_, _, ⟨⟩, -⟩ := hp.exists_first
  | cons hp _ ih =>
    cases h' with
    | nil =>
      obtain ⟨_, _, ⟨⟩, -⟩ := hp.exists_first
    | cons hp' hps' =>
      obtain ⟨rfl, rfl⟩ := hp.unique hp'
      rw [ih hps']

theorem referencesFrom_eq (skip : Nat) (cs : List Char) :
    referencesFrom skip cs = references (cs.drop skip) := by
  induction cs generalizing skip with
  | nil => cases skip <;> rfl
  | cons c cs ih =>
    cases skip with
    | zero => rfl
    | succ skip => exact ih skip

theorem expandFrom_eq (skip : Nat) (cs : List Char) :
    expandFrom text skip cs = expand text (cs.drop skip) := by
  induction cs generalizing skip with
  | nil => cases skip <;> rfl
  | cons c cs ih =>
    cases skip with
    | zero => rfl
    | succ skip => exact ih skip

theorem references_cons (c : Char) (cs : List Char) :
    references (c :: cs) =
      (first c cs).1.number?.toList ++ references (cs.drop (first c cs).2) := by
  rw [← referencesFrom_eq, references, referencesFrom, first]
  split
  · rfl
  · split
    · rfl
    · cases number? cs <;> rfl

theorem expand_cons (c : Char) (cs : List Char) :
    expand text (c :: cs) =
      (first c cs).1.render text ++ expand text (cs.drop (first c cs).2) := by
  rw [← expandFrom_eq, expand, expandFrom, first]
  split
  · rfl
  · split
    · rfl
    · cases number? cs <;> rfl

theorem Reads.references (h : Reads cs ps) : references cs = ps.filterMap Piece.number? := by
  induction h with
  | nil => rfl
  | @cons _ p _ _ hp _ ih =>
    obtain ⟨c, tail, rfl, rfl, rfl⟩ := hp.exists_first
    rw [references_cons, ih, List.filterMap_cons]
    cases (first c tail).1.number? <;> rfl

example : references "$1 + $$2 = $10 $".toList = [1, 10] := rfl

theorem Reads.expand (h : Reads cs ps) : expand text cs = ps.flatMap (Piece.render text) := by
  induction h with
  | nil => rfl
  | cons hp _ ih =>
    obtain ⟨c, tail, rfl, rfl, rfl⟩ := hp.exists_first
    rw [expand_cons, ih, List.flatMap_cons]

end Template

namespace Rule

open Template

variable {q : Query} {r : Rule} {template : List Char} {ps : List Piece}

theorem render_eq (h : Reads r.template ps) (o : Occurrence) (source : List Char) :
    r.render o source = ps.flatMap (Piece.render (textOf o source)) := h.expand

end Rule

end TreeQuery
