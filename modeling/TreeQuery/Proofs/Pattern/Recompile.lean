import TreeQuery.Proofs.Number.Reading
import TreeQuery.Proofs.Pattern.Rendering

/-!
# Compiled patterns compile again

The symbols of a compiled pattern are operators or names (`meets_of_compile`). So its rendering
compiles to it, unless a symbol is a marked line, an operator is formed across a negation, or a
float is infinite or written with an exponent (`recompiles`). For marked lines that is because they
are written without a colon (`not_recompiles`).
-/

namespace TreeQuery.Pattern

open Token (Kind Scans IsName Piece markedLines operators)
open TreeQuery.Pattern.Parser (Atom Derives)
open Binary64 (infinite)

-- ---------------------------------------------------------------------------
-- Conditions
-- ---------------------------------------------------------------------------

structure Terms.Entails (t t' u : Terms) : Prop where
  literal : ∀ {last l}, t.literal last l → t'.literal last l → u.literal last l
  negated : ∀ {p}, t.negated p → t'.negated p → u.negated p
  reference : ∀ {n}, t.reference n → t'.reference n → u.reference n

mutual
theorem Terms.Entails.meets {t t' u : Terms} (hu : t.Entails t' u) :
    ∀ (p : Pattern) {last : Bool}, p.Meets t last → p.Meets t' last → p.Meets u last
  | .wildcard, _, _, _ => trivial
  | .nonempty, _, _, _ => trivial
  | .literal _, _, h, h' => hu.literal h h'
  | .sequence ps, _, h, h' => hu.meetsAll ps h h'
  | .union ps, _, h, h' => hu.meetsAll ps h h'
  | .every ps, _, h, h' => hu.meetsAll ps h h'
  | .negation p, _, h, h' => ⟨hu.negated h.1 h'.1, hu.meets p h.2 h'.2⟩
  | .capture p, _, h, h' => hu.meets p h h'
  | .optional p, _, h, h' => hu.meets p h h'
  | .child p, _, h, h' => hu.meets p h h'
  | .backref _, _, h, h' => hu.reference h h'
theorem Terms.Entails.meetsAll {t t' u : Terms} (hu : t.Entails t' u) :
    ∀ ps : List Pattern, MeetsAll t ps → MeetsAll t' ps → MeetsAll u ps
  | [], _, _ => trivial
  | p :: ps, h, h' => ⟨hu.meets p h.1 h'.1, hu.meetsAll ps h.2 h'.2⟩
end

inductive TextName (last : Bool) : List Char → Prop
  | operator {cs} : cs ∈ operators → TextName last cs
  | name {cs} : IsName cs → TextName last cs
  | bang : last = true → TextName last ['!']

/-- The literals that are read from a text without arguments. -/
def Legible (last : Bool) : Literal → Prop
  | .nil | .int _ | .float _ | .str _ => True
  | .sym name => TextName last name.toList
  | .value _ => False

def legible : Terms where
  literal := Legible
  negated _ := True
  reference n := 1 ≤ n ∧ n ≤ 0x7fffffffffffffff

def Pointed (x : Binary64) : Prop := x.magnitude < infinite ∧ 'e' ∉ x.text

/-- The literals whose text is not read as something else. -/
def Unambiguous : Literal → Prop
  | .nil | .int _ | .str _ | .value _ => True
  | .float x => Pointed x
  | .sym name => name.toList ∉ markedLines

/-- No literal is read as something else, and no operator is formed across a negation. -/
def unambiguous : Terms where
  literal _ := Unambiguous
  negated p := ¬ IsEquation p
  reference _ := True

variable {k : Kind} {ks : List Kind} {p : Pattern} {ps : List Pattern} {c : Char} {n : Nat}
  {cs rest text source : List Char} {q : Query} {x : Binary64} {last : Bool} {l : Literal}

theorem Legible.writable (h : Legible last l) (h' : Unambiguous l) : Writable Pointed last l := by
  cases l with
  | nil | int | str => trivial
  | float x => exact h'
  | sym name =>
    have hname : TextName last name.toList := h
    have hmarked : name.toList ∉ markedLines := h'
    show SymbolName last name.toList
    generalize name.toList = cs at hname hmarked
    cases hname with
    | operator hop => exact .operator hop
    | name hname => exact .name hname hmarked
    | bang hlast => exact .bang hlast
  | value => exact h.elim

theorem readBack_pointed : ReadBack Pointed := by
  rintro x ⟨hx, he⟩
  have hread := ofText?_text hx
  obtain ⟨sign, ds, fs, htext, hsign, hds, hfs⟩ := exists_point hx he
  rw [htext] at hread ⊢
  refine ⟨Token.piece_float hsign hds.ne_nil hds.isDigit hfs.ne_nil hfs.isDigit hread, ?_⟩
  rcases hsign with rfl | rfl
  · obtain ⟨c, ds, rfl⟩ := List.exists_cons_of_ne_nil hds.ne_nil
    rintro ⟨⟩
    cases hds.isDigit '=' List.mem_cons_self
  · exact nofun

-- ---------------------------------------------------------------------------
-- What comes from a text
-- ---------------------------------------------------------------------------

namespace Token

def Named : Kind → Prop
  | .symbol name | .word name => name ∈ operators ∨ IsName name
  | _ => True

theorem operator?_mem {op : List Char} (h : operator? cs = some op) : op ∈ operators :=
  List.mem_of_find?_eq_some h

theorem named_of_numeral {sign digits : List Char} (h : numeral sign digits = .ok (k, text)) :
    Named k := by
  unfold numeral at h
  dsimp only at h
  split at h
  · split at h <;> cases h
    trivial
  · split at h <;> cases h
    trivial

theorem named_of_number (h : (number cs).map (fun (kind, text) => (kind, text.length - 1)) =
    .ok (k, n)) : Named k := by
  cases hnumber : number cs with
  | error e =>
    rw [hnumber] at h
    cases h
  | ok r =>
    rw [hnumber] at h
    cases h
    unfold number at hnumber
    split at hnumber <;> exact named_of_numeral hnumber

theorem named_of_single? (h : single? c = some k) : Named k := by
  unfold single? at h
  split at h <;> cases h <;> trivial

theorem named_of_symbol (h : symbol rest = .ok (k, n)) : Named k := by
  unfold symbol at h
  split at h
  · next hop =>
    cases h
    exact .inl (operator?_mem hop)
  split at h
  · next hword =>
    cases h
    exact .inr (isName_name hword)
  · cases h

theorem named_of_next (h : next c rest = .ok (k, n)) : Named k := by
  unfold next at h
  split at h
  · exact named_of_number h
  split at h
  · next hop =>
    cases h
    exact .inl (operator?_mem hop)
  split at h
  · exact named_of_number h
  split at h
  · cases h
    trivial
  split at h
  · cases h
    trivial
  split at h
  · next hsingle =>
    cases h
    exact named_of_single? hsingle
  split at h
  · unfold argument at h
    dsimp only at h
    split at h <;> cases h
    trivial
  split at h
  · unfold str at h
    split at h <;> cases h
    trivial
  split at h
  · exact named_of_symbol h
  split at h
  · next hword =>
    cases h
    exact .inr (isName_name hword)
  · cases h

theorem Scans.named (h : Scans text ks) : ∀ k ∈ ks, Named k := by
  induction h with
  | nil => exact nofun
  | space _ _ ih => exact ih
  | token _ hnext _ ih => exact List.forall_mem_cons.2 ⟨named_of_next hnext, ih⟩

end Token

theorem textName_ofList (h : cs ∈ operators ∨ IsName cs) :
    TextName last (String.ofList cs).toList := by
  rw [String.toList_ofList]
  exact h.elim .operator .name

theorem Legible.ofWord (h : cs ∈ operators ∨ IsName cs) : Legible last (Parser.ofWord cs) := by
  unfold Parser.ofWord
  split
  · trivial
  · exact textName_ofList h

theorem meets_of_atom (hk : Token.Named k) (h : Atom [] k p) : p.Meets legible last := by
  cases h with
  | wildcard | ellipsis | int | float | str => trivial
  | symbol name => exact textName_ofList hk
  | word name => exact Legible.ofWord hk
  | argument _ ha => cases ha

theorem meetsAll_of_derives (h : Derives [] ks ps) (hks : ∀ k ∈ ks, Token.Named k) :
    MeetsAll legible ps := by
  induction h with
  | nil => trivial
  | atom hatom _ ih =>
    obtain ⟨hk, hks⟩ := List.forall_mem_cons.1 hks
    exact ⟨meets_of_atom hk hatom, ih hks⟩
  | bang => exact ⟨.bang rfl, trivial⟩
  | @backref n ks ps hn _ ih =>
    have hmax : n.toInt < 2 ^ 63 := n.toInt_lt
    have hnat : 1 ≤ n.toInt.toNat ∧ n.toInt.toNat ≤ 0x7fffffffffffffff := by omega
    exact ⟨hnat, ih fun k hk => hks k (.tail _ (.tail _ hk))⟩
  | marker m _ ih =>
    obtain ⟨hp, hps⟩ := ih fun k hk => hks k (.tail _ hk)
    cases m with
    | negation => exact ⟨⟨trivial, hp⟩, hps⟩
    | _ => exact ⟨hp, hps⟩
  | group b _ _ ihinner ih =>
    have hinner := ihinner fun k hk => hks k (.tail _ (List.mem_append_left _ hk))
    have hrow := ih fun k hk => hks k (.tail _ (List.mem_append_right _ (.tail _ hk)))
    cases b <;> exact ⟨hinner, hrow⟩

theorem meets_of_compile (h : Query.compile source [] = .ok q) : q.root.Meets legible true := by
  obtain ⟨-, ks, hscan, hroot⟩ := Token.compile_eq_ok_iff.1 h
  exact (meetsAll_of_derives hroot hscan.named).1

/-- A compiled pattern compiles from its own text, unless a part of the text is read as something
else. -/
theorem recompiles (h : Query.compile source [] = .ok q) (hroot : q.root.Meets unambiguous true) :
    Query.compile (Query.ofPattern q.root).source [] = .ok (Query.ofPattern q.root) := by
  have hwritten : legible.Entails unambiguous (written Pointed) :=
    ⟨Legible.writable, fun _ h => h, fun h _ => h⟩
  exact compile_render readBack_pointed (hwritten.meets q.root (meets_of_compile h) hroot)

theorem recompiles_union : ∃ q : Query,
    Query.compile ['{', 'a', ' ', '!', ' ', '+', ' ', '1', '.', '5', '0', '}'] [] = .ok q ∧
    q.root.Meets unambiguous true ∧
    Query.compile (Query.ofPattern q.root).source [] = .ok (Query.ofPattern q.root) := by
  have hnext : Token.next '1' ['.', '5', '0', '}'] = .ok (.float ⟨0x3ff8000000000000⟩, 3) := by
    decide +kernel
  have hscan : Scans ['{', 'a', ' ', '!', ' ', '+', ' ', '1', '.', '5', '0', '}'] _ :=
    .token rfl rfl <| .token rfl rfl <| .space rfl <| .token rfl rfl <| .space rfl <|
      .token rfl rfl <| .space rfl <| .token rfl hnext <| .token rfl rfl .nil
  have hrow : Derives [] [.word ['a'], .marker .negation, .word ['+'],
      .float ⟨0x3ff8000000000000⟩] _ :=
    .atom (.word _) <| .marker .negation <| .atom (.word _) <| .atom (.float _) .nil
  have hroot : Derives [] _ [.union [.literal (.sym "a"), .negation (.literal (.sym "+")),
      .literal (.float ⟨0x3ff8000000000000⟩)]] := .group .curly hrow .nil
  have hcompile := (Token.compile_eq_ok_iff (q := ⟨_, _⟩)).2 ⟨rfl, _, hscan, hroot⟩
  have hpointed : Pointed ⟨0x3ff8000000000000⟩ := ⟨by decide, by decide +kernel⟩
  have hplus : ¬ IsEquation (.literal (.sym "+")) := by simp [IsEquation]
  have hnames : "a".toList ∉ markedLines ∧ "+".toList ∉ markedLines := by decide
  have hunion : Meets unambiguous true (.union [.literal (.sym "a"),
      .negation (.literal (.sym "+")), .literal (.float ⟨0x3ff8000000000000⟩)]) :=
    ⟨hnames.1, ⟨hplus, hnames.2⟩, hpointed, trivial⟩
  exact ⟨_, hcompile, hunion, recompiles hcompile hunion⟩

/-- The symbol `_!`, written with a colon, is a pattern whose own text is a wildcard and a sign. -/
theorem not_recompiles : ∃ q, Query.compile [':', '_', '!'] [] = .ok q ∧
    ∀ q', Query.compile (Query.ofPattern q.root).source [] ≠ .ok q' := by
  have hcompile : Query.compile [':', '_', '!'] [] =
      .ok ⟨[':', '_', '!'], .literal (.sym "_!")⟩ :=
    Token.compile_eq_ok_iff.2 ⟨rfl, _, .token rfl rfl .nil, .atom (.symbol _) .nil⟩
  refine ⟨_, hcompile, fun q' h => ?_⟩
  obtain ⟨-, ks, hscan, hroot⟩ := Token.compile_eq_ok_iff.1 h
  have htext : (Query.ofPattern (.literal (.sym "_!"))).source = ['_', '!'] := rfl
  rw [htext] at hscan
  obtain rfl : ks = [.wildcard, .marker .negation] := by
    cases hscan with
    | space hc => cases hc
    | token _ hnext hrest =>
      cases hnext
      cases hrest with
      | space hc => cases hc
      | token _ hnext hrest =>
        cases hnext
        cases hrest
        rfl
  cases hroot with
  | atom _ hrow => exact absurd hrow.eq_nil nofun

end TreeQuery.Pattern
