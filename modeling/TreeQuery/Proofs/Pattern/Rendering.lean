import TreeQuery.Proofs.Pattern.Scan

/-!
# Renderings compile

The text of a pattern is read, before any boundary, as tokens that derive the pattern (`Spells`),
if its symbols can be written and no operator is formed across a negation. So the rendering of
such a pattern compiles to the pattern (`compile_ofPattern`).
-/

namespace TreeQuery.Pattern

open Token (Kind Scans Boundary Piece IsName markedLines operators)
open TreeQuery.Pattern.Parser (Atom Derives)

/-- Conditions on the parts of a pattern. A literal may depend on whether a closing bracket or the
end of the text comes next. -/
structure Terms where
  literal : Bool → Literal → Prop
  negated : Pattern → Prop
  reference : Nat → Prop

mutual
/-- The conditions hold throughout; `last` says that a closing bracket or the end comes next. -/
def Meets (t : Terms) (last : Bool) : Pattern → Prop
  | .wildcard | .nonempty => True
  | .literal l => t.literal last l
  | .sequence ps | .union ps | .every ps => MeetsAll t ps
  | .negation p => t.negated p ∧ Meets t last p
  | .capture p | .optional p | .child p => Meets t last p
  | .backref n => t.reference n
def MeetsAll (t : Terms) : List Pattern → Prop
  | [] => True
  | p :: ps => Meets t ps.isEmpty p ∧ MeetsAll t ps
end

inductive SymbolName (last : Bool) : List Char → Prop
  | operator {cs} : cs ∈ operators → SymbolName last cs
  | name {cs} : IsName cs → cs ∉ markedLines → SymbolName last cs
  | bang : last = true → SymbolName last ['!']

def IsEquation (p : Pattern) : Prop := p = .literal (.sym "==") ∨ p = .literal (.sym "===")

def Writable (float : Binary64 → Prop) (last : Bool) : Literal → Prop
  | .nil | .int _ | .str _ => True
  | .float x => float x
  | .sym name => SymbolName last name.toList
  | .value _ => False

/-- The patterns that can be written, given the floats. -/
def written (float : Binary64 → Prop) : Terms where
  literal := Writable float
  negated p := ¬ IsEquation p
  reference n := 1 ≤ n ∧ n ≤ 0x7fffffffffffffff

def ReadBack (float : Binary64 → Prop) : Prop :=
  ∀ x, float x → Piece (.float x) x.text ∧ x.text.head? ≠ some '='

variable {last : Bool} {text texts : List Char} {p : Pattern} {ps : List Pattern} {k : Kind}
  {ks ks' : List Kind} {l : Literal} {name : String} {n : Nat} {float : Binary64 → Prop}

/-- Before a boundary the text is read as tokens that derive the pattern. -/
structure Spells (last : Bool) (text : List Char) (p : Pattern) (ks : List Kind) : Prop where
  scans : ∀ rest ks', Boundary rest → Scans rest ks' → Scans (text ++ rest) (ks ++ ks')
  derives : ∀ ks' ps, (last = true → ks' = []) → Derives [] ks' ps →
    Derives [] (ks ++ ks') (p :: ps)
  head : text.head? = some '=' → IsEquation p

theorem Spells.atom (hpiece : Piece k text) (hatom : Atom [] k p)
    (hhead : text.head? = some '=' → IsEquation p) : Spells last text p [k] :=
  ⟨hpiece, fun _ _ _ h => .atom hatom h, hhead⟩

theorem Spells.marker (m : Marker) (hm : m = .negation → ¬ IsEquation p)
    (h : Spells last text p ks) : Spells last (m.sign :: text) (m.apply p) (.marker m :: ks) := by
  refine ⟨fun rest ks' hrest hks => .sign m (fun hneg => ?_) (h.scans rest ks' hrest hks),
    fun ks' ps hlast hrow => .marker m (h.derives ks' ps hlast hrow), ?_⟩
  · intro hhead
    cases text with
    | nil =>
      rcases hrest.cases with rfl | ⟨x, rfl | rfl | rfl | rfl⟩ <;> cases hhead
    | cons c cs => exact hm hneg (h.head hhead)
  · cases m <;> exact nofun

-- ---------------------------------------------------------------------------
-- Literals
-- ---------------------------------------------------------------------------

theorem head?_decimalInt (n : Int) : (Number.decimalInt n).head? ≠ some '=' := by
  unfold Number.decimalInt
  split
  · exact nofun
  · obtain ⟨c, cs, hcs, hc⟩ := Number.exists_decimal n.natAbs
    rw [hcs]
    rintro ⟨⟩
    cases hc

theorem ofWord_toList (h : name.toList ≠ "nil".toList) : Parser.ofWord name.toList = .sym name := by
  rw [Parser.ofWord, if_neg h, String.ofList_toList]

theorem atom_symbol (name : String) : Atom [] (.symbol name.toList) (.literal (.sym name)) := by
  have h : Atom [] (.symbol name.toList) _ := .symbol name.toList
  rwa [String.ofList_toList] at h

theorem spells_name (h : IsName name.toList) (hmarked : name.toList ∉ markedLines) :
    ∃ ks, Spells last (Literal.sym name).render (.literal (.sym name)) ks := by
  simp only [Literal.render]
  split
  · exact ⟨_, .atom (Token.piece_colon h) (atom_symbol name) nofun⟩
  · next hcolon =>
    simp only [Literal.needsColon, Bool.or_eq_true, decide_eq_true_eq, not_or,
      Bool.not_eq_true] at hcolon
    obtain ⟨⟨hnil, hline⟩, hdigit⟩ := hcolon
    have hatom : Atom [] (.word name.toList) (.literal (.sym name)) := ofWord_toList hnil ▸ .word _
    refine ⟨_, .atom (Token.piece_name h hdigit hline hmarked) hatom fun hhead => ?_⟩
    obtain ⟨c, w, hcs, hc⟩ := h.exists_cons
    rw [hcs] at hhead
    cases hhead
    cases hc

theorem spells_operator (h : name.toList ∈ operators) :
    ∃ ks, Spells last (Literal.sym name).render (.literal (.sym name)) ks := by
  have hplain : ∀ op ∈ operators, op ≠ "nil".toList ∧ Literal.needsColon op = false ∧
      (op.head? = some '=' → op = "==".toList ∨ op = "===".toList) := by decide
  obtain ⟨hnil, hcolon, hhead⟩ := hplain _ h
  simp only [Literal.render, hcolon, Bool.false_eq_true, if_false]
  have hatom : Atom [] (.word name.toList) (.literal (.sym name)) := ofWord_toList hnil ▸ .word _
  refine ⟨_, .atom (Token.piece_operator h) hatom fun he => ?_⟩
  rcases hhead he with heq | heq
  · exact .inl (congrArg _ (congrArg _ (String.toList_inj.1 heq)))
  · exact .inr (congrArg _ (congrArg _ (String.toList_inj.1 heq)))

theorem spells_bang : Spells true ['!'] (.literal (.sym "!")) [.marker .negation] := by
  refine ⟨fun rest ks hrest hks => .sign .negation (fun _ => ?_) hks, fun ks ps hlast hrow => ?_,
    nofun⟩
  · rcases hrest.cases with rfl | ⟨x, rfl | rfl | rfl | rfl⟩ <;> exact nofun
  · cases hlast rfl
    cases hrow
    exact .bang

theorem spells_literal (hfloat : ReadBack float) (h : Writable float last l) :
    ∃ ks, Spells last l.render (.literal l) ks := by
  cases l with
  | nil =>
    have hname : IsName "nil".toList := .plain (by decide) (List.all_eq_true.1 rfl)
    exact ⟨_, .atom (Token.piece_name hname rfl (by decide) (by decide)) (.word _) nofun⟩
  | int n =>
    exact ⟨_, .atom (Token.piece_int n) (.int n) fun h => absurd h (head?_decimalInt _)⟩
  | float x => exact ⟨_, .atom (hfloat x h).1 (.float x) fun he => absurd he (hfloat x h).2⟩
  | str text =>
    have hatom : Atom [] (.str text.toList) (.literal (.str text)) := by
      rw [← String.ofList_toList (s := text), String.toList_ofList]
      exact .str _
    exact ⟨_, .atom (Token.piece_str _) hatom nofun⟩
  | sym name =>
    have h : SymbolName last name.toList := h
    generalize hcs : name.toList = cs at h
    cases h with
    | operator hop => exact spells_operator (hcs ▸ hop)
    | name hname hmarked => exact spells_name (hcs ▸ hname) (hcs ▸ hmarked)
    | bang hlast =>
      subst hlast
      have hbang : name = "!" := String.toList_inj.1 hcs
      subst hbang
      exact ⟨_, spells_bang⟩
  | value t => exact h.elim

-- ---------------------------------------------------------------------------
-- Patterns
-- ---------------------------------------------------------------------------

structure SpellsAll (texts : List (List Char)) (ps : List Pattern) (ks : List Kind) : Prop where
  scans : ∀ b rest ks', Scans rest ks' →
    Scans ((List.intersperse [' '] texts).flatten ++ Bracket.closer b :: rest)
      (ks ++ .closing b :: ks')
  derives : Derives [] ks ps

theorem boundary_closer (b : Bracket) (rest : List Char) : Boundary (b.closer :: rest) := by
  rintro c ⟨⟩
  cases b <;> simp [Bracket.closer]

theorem SpellsAll.nil : SpellsAll [] [] [] := ⟨fun b _ _ h => h.closer b, .nil⟩

theorem SpellsAll.singleton (h : Spells true text p ks) : SpellsAll [text] [p] ks := by
  refine ⟨fun b rest ks' hks => ?_, ?_⟩
  · simpa using h.scans _ _ (boundary_closer b rest) (hks.closer b)
  · simpa using h.derives [] [] (fun _ => rfl) .nil

theorem Spells.cons {texts : List (List Char)} (htexts : texts ≠ [])
    (h : Spells false text p ks) (hall : SpellsAll texts ps ks') :
    SpellsAll (text :: texts) (p :: ps) (ks ++ ks') := by
  obtain ⟨next, texts, rfl⟩ := List.exists_cons_of_ne_nil htexts
  refine ⟨fun b rest ks'' hks => ?_, h.derives _ _ nofun hall.derives⟩
  have hrest := hall.scans b rest ks'' hks
  have hspace : Boundary (' ' :: ((List.intersperse [' '] (next :: texts)).flatten ++
      b.closer :: rest)) := by
    rintro c ⟨⟩
    simp
  simpa using h.scans _ _ hspace (.space rfl hrest)

theorem SpellsAll.group {texts : List (List Char)} (b : Bracket) (h : SpellsAll texts ps ks) :
    Spells last (bracketed b texts) (group b ps) (.opening b :: (ks ++ [.closing b])) := by
  refine ⟨fun rest ks' _ hks => ?_, fun ks' qs _ hrow => ?_, ?_⟩
  · simpa [bracketed] using (h.scans b rest ks' hks).opener b
  · simpa using Derives.group b h.derives hrow
  · cases b <;> exact nofun

theorem spells_backref (h : 1 ≤ n ∧ n ≤ 0x7fffffffffffffff) :
    ∃ ks, Spells last ('\\' :: Number.decimal n) (.backref n) ks := by
  have hvalue : (Int64.ofInt n).toInt = n := by
    rw [Int64.toInt_ofInt_of_le] <;> omega
  have hpiece := Token.piece_int (Int64.ofInt n)
  rw [hvalue, Number.decimalInt, if_neg (by omega), Int.natAbs_natCast] at hpiece
  refine ⟨[.backslash, .int (Int64.ofInt n)],
    fun rest ks' hrest hks => .backslash (hpiece _ _ hrest hks), fun ks' ps _ hrow => ?_, nofun⟩
  have := Derives.backref (n := Int64.ofInt n) (by omega) hrow
  rwa [hvalue, Int.toNat_natCast] at this

mutual
theorem exists_spells (hfloat : ReadBack float) : ∀ (p : Pattern) (last : Bool),
    Meets (written float) last p → ∃ ks, Spells last p.render p ks
  | .wildcard, _, _ => ⟨_, .atom Token.piece_wildcard .wildcard nofun⟩
  | .nonempty, _, _ => ⟨_, .atom Token.piece_ellipsis .ellipsis nofun⟩
  | .literal _, _, h => spells_literal hfloat h
  | .sequence ps, _, h => (exists_spellsAll hfloat ps h).elim fun _ hall => ⟨_, hall.group .round⟩
  | .union ps, _, h => (exists_spellsAll hfloat ps h).elim fun _ hall => ⟨_, hall.group .curly⟩
  | .every ps, _, h => (exists_spellsAll hfloat ps h).elim fun _ hall => ⟨_, hall.group .square⟩
  | .capture p, last, h =>
    (exists_spells hfloat p last h).elim fun _ hp => ⟨_, hp.marker .capture nofun⟩
  | .negation p, last, h =>
    (exists_spells hfloat p last h.2).elim fun _ hp => ⟨_, hp.marker .negation fun _ => h.1⟩
  | .optional p, last, h =>
    (exists_spells hfloat p last h).elim fun _ hp => ⟨_, hp.marker .optional nofun⟩
  | .child p, last, h =>
    (exists_spells hfloat p last h).elim fun _ hp => ⟨_, hp.marker .child nofun⟩
  | .backref _, _, h => spells_backref h
theorem exists_spellsAll (hfloat : ReadBack float) : ∀ ps : List Pattern,
    MeetsAll (written float) ps → ∃ ks, SpellsAll (renderList ps) ps ks
  | [], _ => ⟨_, .nil⟩
  | [p], h => (exists_spells hfloat p true h.1).elim fun _ hp => ⟨_, .singleton hp⟩
  | p :: q :: ps, h =>
    (exists_spells hfloat p false h.1).elim fun _ hp =>
      (exists_spellsAll hfloat (q :: ps) h.2).elim fun _ hall => ⟨_, hp.cons nofun hall⟩
end

theorem Spells.compile (h : Spells true text p ks) : Query.compile text [] = .ok ⟨text, p⟩ := by
  have hscan : Scans text ks := by
    simpa using h.scans [] [] nofun .nil
  have hroot : Derives [] ks [p] := by
    simpa using h.derives [] [] (fun _ => rfl) .nil
  exact Token.compile_eq_ok_iff.2 ⟨rfl, ks, hscan, hroot⟩

theorem compile_render (hfloat : ReadBack float) (h : p.Meets (written float) true) :
    Query.compile p.render [] = .ok (Query.ofPattern p) :=
  (exists_spells hfloat p true h).elim fun _ hp => hp.compile

/-- A pattern without floats and bound arguments compiles from its own text. -/
theorem compile_ofPattern (h : p.Meets (written fun _ => False) true) :
    Query.compile (Query.ofPattern p).source [] = .ok (Query.ofPattern p) :=
  compile_render nofun h

theorem compile_ofPattern_signs :
    Query.compile (Query.ofPattern (.sequence [.literal (.sym "nil"),
      .negation (.literal (.sym "+")), .capture .wildcard, .backref 1,
      .literal (.sym "!")])).source [] =
    .ok (Query.ofPattern (.sequence [.literal (.sym "nil"),
      .negation (.literal (.sym "+")), .capture .wildcard, .backref 1, .literal (.sym "!")])) :=
  have hplus : ¬ IsEquation (.literal (.sym "+")) := by simp [IsEquation]
  compile_ofPattern ⟨.name (.plain (by decide) (List.all_eq_true.1 rfl)) (by decide),
    ⟨hplus, .operator (by decide)⟩, trivial, ⟨by decide, by decide⟩, .bang rfl, trivial⟩

end TreeQuery.Pattern
