import TreeQuery.Proofs.Number.Integer
import TreeQuery.Proofs.Sexp.Source
import TreeQuery.Proofs.Text.Class
import TreeQuery.Proofs.Tree.Every

/-!
# Renderings of trees are read back

The rendering of a tree whose scalars and tags are written as single words or quoted texts is read
as the tree, except that a tag loses a colon before it (`items_render`). Trees that come from
a text have no others, so a tree without floats is read back from its rendering just if its tags
and symbols are such words and no tag begins with a colon (`parse_render_iff`).
-/

namespace TreeQuery.Sexp

open Text (width width_append)
open Lexeme (scanFrom)

variable {stop pos pos' : Nat} {w x text source rest : List Char} {a b : Scalar} {tag name : String}
  {t u : Tree} {cs ts us done out : List Tree} {o : Open} {os : List Open} {n : Int64}
  {kept : Scalar → Prop}

/-- A scalar whose rendering is read as some scalar, as itself if it meets a condition. -/
def ReadAs (kept : Scalar → Prop) (a : Scalar) : Prop :=
  ∀ rest, Stops rest → ∃ b, Token rest a.render b ∧ (b.same a = true ↔ kept a)

def ReadBack : Scalar → Prop := ReadAs fun _ => True

def IsTag (tag : String) : Prop := Word tag.toList

def Unbroken (a : Scalar) : Prop :=
  ∀ name, a = .sym name → ∀ c ∈ name.toList, Lexeme.isWord c = true

mutual
/-- The second tree has the tags that the reader makes of those of the first, and the scalars that
meet the condition. -/
def Reread (kept : Scalar → Prop) : Tree → Tree → Prop
  | .leaf a _, .leaf b _ => b.same a = true ↔ kept a
  | .node s as _, .node t bs _ => tag? s.toList = some t ∧ RereadList kept as bs
  | _, _ => False
def RereadList (kept : Scalar → Prop) : List Tree → List Tree → Prop
  | [], [] => True
  | a :: as, b :: bs => Reread kept a b ∧ RereadList kept as bs
  | _, _ => False
end

-- ---------------------------------------------------------------------------
-- Scalars
-- ---------------------------------------------------------------------------

theorem quotes_body (s : List Char) : Quotes (Text.Quoted.body s) s := by
  induction s with
  | nil => exact .nil
  | cons c s ih =>
    have hbody : Text.Quoted.body (c :: s) = Text.Quoted.escape c ++ Text.Quoted.body s := by
      simp [Text.Quoted.body]
    rw [hbody]
    unfold Text.Quoted.escape
    split
    · exact .escape '"' ih
    · exact .escape '\\' ih
    · exact .escape 'n' ih
    · exact .escape 't' ih
    · next hquote hslash _ _ => exact .plain hquote hslash ih

theorem isWord_of_isDigit {c : Char} (h : c.isDigit = true) : Lexeme.isWord c = true := by
  have hne : ∀ d, Char.isDigit d = false → c ≠ d := fun d hd => Text.ne_of_class h hd
  simp [Lexeme.isWord, Text.isBlank, hne ' ' rfl, hne '\t' rfl, hne '\n' rfl, hne '\x0c' rfl,
    hne '\r' rfl, hne '(' rfl, hne ')' rfl, hne '"' rfl, hne ';' rfl]

theorem word_decimalInt (n : Int) : Word (Number.decimalInt n) := by
  have hdigits : ∀ c ∈ Number.decimal n.natAbs, Lexeme.isWord c = true :=
    fun c hc => isWord_of_isDigit (Number.isDigit_of_mem_decimal hc)
  unfold Number.decimalInt
  split
  · exact ⟨List.cons_ne_nil _ _, List.forall_mem_cons.2 ⟨rfl, hdigits⟩⟩
  · exact ⟨Number.decimal_ne_nil _, hdigits⟩

theorem looksNumeric_digit {c : Char} (hc : c.isDigit = true) : looksNumeric (c :: x) = true := by
  have hminus : c ≠ '-' := Text.ne_of_class hc rfl
  unfold looksNumeric
  split
  · next h => exact absurd (List.cons.inj h).1 hminus
  · next h => exact (List.cons.inj h).1 ▸ hc
  · next h => cases h

theorem looksNumeric_decimalInt (n : Int) : looksNumeric (Number.decimalInt n) = true := by
  obtain ⟨c, cs, hcs, hc⟩ := Number.exists_decimal n.natAbs
  unfold Number.decimalInt
  rw [hcs]
  split
  · exact hc
  · exact looksNumeric_digit hc

theorem scalar?_of_looksNumeric (h : looksNumeric w = true) :
    scalar? w = ((Number.integer? w).map .int <|> (Binary64.ofText? w).map .float) := by
  have hnil : w ≠ "nil".toList := by
    rintro rfl
    cases h
  delta scalar?
  rw [if_neg hnil]
  split
  · cases h
  · rw [if_pos h]

theorem scalar?_decimalInt (n : Int64) : scalar? (Number.decimalInt n.toInt) = some (.int n) := by
  rw [scalar?_of_looksNumeric (looksNumeric_decimalInt _), Number.integer?_decimalInt]
  rfl

theorem scalar?_colon (name : String) : scalar? (':' :: name.toList) = some (.sym name) := by
  have hnil : ':' :: name.toList ≠ "nil".toList := by
    rintro ⟨⟩
  delta scalar?
  rw [if_neg hnil]
  simp only [String.ofList_toList]

theorem readBack_of_unbroken (hfloat : ∀ x, a ≠ .float x) (h : Unbroken a) : ReadBack a := by
  intro rest hrest
  cases a with
  | int n => exact ⟨.int n, .word (word_decimalInt _) (scalar?_decimalInt n) hrest, by simp⟩
  | float x => exact absurd rfl (hfloat x)
  | str text =>
    refine ⟨_, .quoted (quotes_body text.toList), ?_⟩
    simp
  | sym name =>
    have hword : Word (':' :: name.toList) :=
      ⟨List.cons_ne_nil _ _, List.forall_mem_cons.2 ⟨rfl, h name rfl⟩⟩
    exact ⟨.sym name, .word hword (scalar?_colon name) hrest, by simp⟩
  | nil => exact ⟨.nil, .word ⟨by decide, List.all_eq_true.1 rfl⟩ rfl hrest,
      iff_of_true rfl trivial⟩

-- ---------------------------------------------------------------------------
-- What a rendering denotes
-- ---------------------------------------------------------------------------

theorem stops_renderList (cs : List Tree) : Stops (Tree.renderList cs) := by
  cases cs with
  | nil => exact .nil
  | cons c cs =>
    rintro d ⟨⟩
    rfl

theorem render_node (tag : String) (cs : List Tree) (span : Option Span) :
    (Tree.node tag cs span).render = formText [] tag.toList (Tree.renderList cs) := by
  simp [Tree.render, formText]

theorem renderList_cons (c : Tree) (cs : List Tree) :
    Tree.renderList (c :: cs) = [' '] ++ (c.render ++ Tree.renderList cs) := by
  simp [Tree.renderList]

theorem gap_space : Gap [' '] := .blank rfl .nil

def Tagging (tag : String) : Prop := IsTag tag ∧ tag? tag.toList ≠ none

mutual
theorem items_render : ∀ (t : Tree) (pos : Nat) (rest : List Char) {ts : List Tree},
    t.Every (ReadAs kept) Tagging → Stops rest → Items (pos + width t.render) rest ts →
    ∃ u, Items pos (t.render ++ rest) (u :: ts) ∧ Reread kept t u
  | .leaf a _, pos, rest, ts, ht, hrest, hts => by
    obtain ⟨b, htok, hsame⟩ := ht rest hrest
    exact ⟨_, .leaf htok hts, hsame⟩
  | .node tag cs span, pos, rest, ts, ht, hrest, hts => by
    obtain ⟨⟨hword, htag⟩, hcs⟩ := ht
    obtain ⟨name, htag⟩ := Option.ne_none_iff_exists'.1 htag
    obtain ⟨us, hus, hreread⟩ := items_renderList cs (pos + 1 + width [] + width tag.toList) hcs
    rw [render_node] at hts ⊢
    exact ⟨_, .form .nil hword htag (stops_renderList cs) hus hts, htag, hreread⟩
theorem items_renderList : ∀ (cs : List Tree) (pos : Nat),
    Tree.EveryList (ReadAs kept) Tagging cs →
    ∃ us, Items pos (Tree.renderList cs) us ∧ RereadList kept cs us
  | [], pos, _ => ⟨[], .nil pos, trivial⟩
  | c :: cs, pos, h => by
    obtain ⟨us, hus, hreread⟩ :=
      items_renderList cs (pos + width [' '] + width c.render) h.2
    obtain ⟨u, hu, hc⟩ := items_render c _ _ h.1 (stops_renderList cs) hus
    rw [renderList_cons]
    exact ⟨u :: us, .gap gap_space hu, hc, hreread⟩
end

-- ---------------------------------------------------------------------------
-- When the reader goes through a rendering
-- ---------------------------------------------------------------------------

mutual
theorem tagging_of_forms : ∀ {t : Tree} {pos : Nat} {x : List Char} {os : List Open}
    {done : List Tree}, t.Every (ReadAs kept) IsTag → Stops x →
    forms stop (scanFrom .between pos (t.render ++ x)) os done = .ok out →
    t.Every (ReadAs kept) Tagging
  | .leaf _ _, _, _, _, _, ht, _, _ => ht
  | .node tag cs span, pos, x, os, done, ht, hx, h => by
    rw [render_node, scanFrom_form .nil ht.1 (stops_renderList cs)] at h
    cases htag : tag? tag.toList with
    | none => simp [forms, htag] at h
    | some name =>
      rw [forms_opening htag] at h
      exact ⟨⟨ht.1, by simp [htag]⟩, tagging_of_formsList ht.2 h⟩
theorem tagging_of_formsList : ∀ {cs : List Tree} {pos : Nat} {x : List Char} {o : Open}
    {os : List Open} {done : List Tree}, Tree.EveryList (ReadAs kept) IsTag cs →
    forms stop (scanFrom .between pos (Tree.renderList cs ++ ')' :: x)) (o :: os) done =
      .ok out → Tree.EveryList (ReadAs kept) Tagging cs
  | [], _, _, _, _, _, _, _ => trivial
  | c :: cs, pos, x, o, os, done, hcs, h => by
    have hx : Stops (Tree.renderList cs ++ ')' :: x) := (stops_renderList cs).append (.closing x)
    rw [renderList_cons, List.append_assoc, scanFrom_gap gap_space, List.append_assoc] at h
    have hc := tagging_of_forms hcs.1 hx h
    obtain ⟨u, hu, -⟩ := items_render c _ [] hc .nil (.nil _)
    rw [List.append_nil] at hu
    rw [hu.read hx (by simp)] at h
    exact ⟨hc, tagging_of_formsList hcs.2 h⟩
end

theorem ite_isEmpty_eq_some_iff : (if x.isEmpty then none else some (String.ofList x)) = some tag ↔
    tag.toList ≠ [] ∧ x = tag.toList := by
  constructor
  · intro h
    split at h
    · cases h
    · next hne =>
      cases h
      simpa using hne
  · rintro ⟨hne, rfl⟩
    simpa using hne

theorem tag?_eq_some_iff : tag? w = some tag ↔
    tag.toList ≠ [] ∧ (w = ':' :: tag.toList ∨ w = tag.toList ∧ w.head? ≠ some ':') := by
  unfold tag?
  split
  · rw [ite_isEmpty_eq_some_iff]
    simp
  · next hcolon =>
    have hhead : w.head? ≠ some ':' := fun h => by
      obtain ⟨cs, rfl⟩ := List.head?_eq_some_iff.1 h
      exact hcolon cs rfl
    have hne : w ≠ ':' :: tag.toList := hcolon _
    rw [ite_isEmpty_eq_some_iff]
    simp [hhead, hne]

theorem tag?_eq_self_iff : tag? tag.toList = some tag ↔
    tag.toList ≠ [] ∧ tag.toList.head? ≠ some ':' := by
  rw [tag?_eq_some_iff]
  simp

mutual
theorem Reread.same_iff : ∀ {t u : Tree}, Reread kept t u →
    (u.same t = true ↔ t.Every kept (fun tag => tag? tag.toList = some tag))
  | .leaf _ _, .leaf _ _, h => h
  | .node s as _, .node t bs _, h => by
    have hs : t = s ↔ tag? s.toList = some s := by
      rw [h.1, Option.some.injEq]
    rw [Tree.same, Bool.and_eq_true, beq_iff_eq, RereadList.same_iff h.2, hs]
    rfl
theorem RereadList.same_iff : ∀ {ts us : List Tree}, RereadList kept ts us →
    (Tree.sameList us ts = true ↔
      Tree.EveryList kept (fun tag => tag? tag.toList = some tag) ts)
  | [], [], _ => ⟨fun _ => trivial, fun _ => rfl⟩
  | _ :: _, _ :: _, h => by
    rw [Tree.sameList, Bool.and_eq_true, h.1.same_iff, RereadList.same_iff h.2]
    rfl
end

-- ---------------------------------------------------------------------------
-- What comes from a text
-- ---------------------------------------------------------------------------

theorem Word.unbroken (hw : Word w) (h : scalar? w = some a) : Unbroken a := by
  rintro name rfl
  delta scalar? at h
  generalize Number.integer? w = int at h
  generalize Binary64.ofText? w = float at h
  split at h
  · cases h
  split at h
  · next cs =>
    cases h
    intro c hc
    exact hw.isWord c (List.mem_cons_of_mem _ (by simpa using hc))
  split at h
  · cases int <;> cases float <;> cases h
  · cases h
    intro c hc
    exact hw.isWord c (by simpa using hc)

theorem Word.isTag (hw : Word w) (h : tag? w = some tag) : IsTag tag := by
  obtain ⟨hne, hcolon | ⟨rfl, -⟩⟩ := tag?_eq_some_iff.1 h
  · exact ⟨hne, fun c hc => hw.isWord c (hcolon ▸ List.mem_cons_of_mem _ hc)⟩
  · exact hw

theorem Token.unbroken : Token rest x a → Unbroken a
  | .word hw ha _ => hw.unbroken ha
  | .quoted _ => nofun

theorem Items.unbroken (h : Items pos text ts) : Tree.EveryList Unbroken IsTag ts := by
  induction h with
  | nil => trivial
  | gap _ _ ih => exact ih
  | leaf htok _ ih => exact ⟨htok.unbroken, ih⟩
  | form _ hw htag _ _ _ ihcs ih => exact ⟨⟨hw.isTag htag, ihcs⟩, ih⟩

theorem unbroken_of_parse (h : parseChars source = .ok t) : t.Every Unbroken IsTag := by
  obtain ⟨g, text, tail, -, -, -, hroot⟩ := exists_root h
  rcases hroot.items with ht | ⟨ts, hts, span, rfl⟩
  · exact ht.unbroken.1
  · exact ⟨⟨by decide, List.all_eq_true.1 rfl⟩, hts.unbroken⟩

theorem Unbroken.of_same (hsame : a.same b = true) (h : Unbroken a) : Unbroken b := by
  rintro name rfl
  cases a with
  | sym name' =>
    rw [Scalar.same_sym, beq_iff_eq] at hsame
    exact hsame ▸ h name' rfl
  | _ => cases hsame

-- ---------------------------------------------------------------------------
-- Rendering and reading
-- ---------------------------------------------------------------------------

def Floatless (t : Tree) : Prop := t.Every (fun a => ∀ x, a ≠ .float x) (fun _ => True)

/-- Symbols of word characters, tags of word characters without a colon before them. -/
def Rereadable (t : Tree) : Prop :=
  t.Every Unbroken (fun tag => IsTag tag ∧ tag.toList.head? ≠ some ':')

variable {span : Option Span}

theorem parseChars_render (h : (Tree.node tag cs span).Every (ReadAs kept) Tagging) :
    ∃ u, parseChars (Tree.node tag cs span).render = .ok u ∧
      Reread kept (.node tag cs span) u := by
  obtain ⟨u, hu, hreread⟩ := items_render (.node tag cs span) 0 [] h .nil (.nil _)
  have hnode : ∀ t ∈ [u], t.isNode = true := by
    cases u with
    | leaf => exact hreread.elim
    | node => simp [Tree.isNode]
  have hparse : parseChars ([] ++ ((Tree.node tag cs span).render ++ [])) = .ok u := by
    rw [List.append_nil] at hu
    exact parseChars_of_items .nil hu hnode rfl (.gap .nil)
  rw [List.nil_append, List.append_nil] at hparse
  exact ⟨u, hparse, hreread⟩

theorem tagging_of_parse (h : t.Every (ReadAs kept) IsTag)
    (hparse : parseChars t.render = .ok u) : t.Every (ReadAs kept) Tagging := by
  unfold parseChars at hparse
  cases hforms : forms (width t.render) (Lexeme.scan t.render) [] [] with
  | error e =>
    rw [hforms] at hparse
    cases hparse
  | ok out =>
    rw [Lexeme.scan, ← List.append_nil t.render] at hforms
    exact tagging_of_forms h .nil hforms

theorem exists_reread_iff (h : (Tree.node tag cs span).Every (ReadAs kept) IsTag) :
    (∃ u, parseChars (Tree.node tag cs span).render = .ok u ∧
      u.same (.node tag cs span) = true) ↔
      (Tree.node tag cs span).Every kept (fun tag => tag? tag.toList = some tag) := by
  constructor
  · rintro ⟨u, hparse, hsame⟩
    obtain ⟨u', hparse', hreread⟩ := parseChars_render (tagging_of_parse h hparse)
    rw [hparse] at hparse'
    cases hparse'
    exact hreread.same_iff.1 hsame
  · intro hkept
    have htagging : (Tree.node tag cs span).Every (ReadAs kept) Tagging :=
      h.and (fun _ h _ => h) (fun _ h htag => ⟨h, by simp [htag]⟩) hkept
    obtain ⟨u, hparse, hreread⟩ := parseChars_render htagging
    exact ⟨u, hparse, hreread.same_iff.2 hkept⟩

/-- A tree without floats comes back from its rendering just if its tags and symbols are words. -/
theorem parse_render_iff (hfloat : Floatless (.node tag cs span)) :
    (∃ u, parse (String.ofList (Tree.node tag cs span).render) = .ok u ∧
      u.same (.node tag cs span) = true) ↔ Rereadable (.node tag cs span) := by
  simp only [parse, String.toList_ofList]
  constructor
  · rintro ⟨u, hparse, hsame⟩
    have hwords := Tree.every_of_same (fun _ _ h ha => Unbroken.of_same h ha) hsame
      (unbroken_of_parse hparse)
    have hread : (Tree.node tag cs span).Every ReadBack IsTag :=
      hfloat.and (fun _ => readBack_of_unbroken) (fun _ _ h => h) hwords
    obtain ⟨u', hparse', hreread⟩ := parseChars_render (tagging_of_parse hread hparse)
    rw [hparse] at hparse'
    cases hparse'
    exact hwords.and (fun _ h _ => h) (fun _ h htag => ⟨h, (tag?_eq_self_iff.1 htag).2⟩)
      (hreread.same_iff.1 hsame)
  · intro h
    have hkeeps : ∀ tag : String, IsTag tag ∧ tag.toList.head? ≠ some ':' →
        tag? tag.toList = some tag :=
      fun _ h => tag?_eq_self_iff.2 ⟨h.1.ne_nil, h.2⟩
    have hread : (Tree.node tag cs span).Every ReadBack Tagging :=
      hfloat.and (fun _ => readBack_of_unbroken) (fun tag _ h => ⟨h.1, by simp [hkeeps tag h]⟩) h
    obtain ⟨u, hparse, hreread⟩ := parseChars_render hread
    exact ⟨u, hparse, hreread.same_iff.2 (h.imp (fun _ _ => trivial) hkeeps)⟩

theorem parse_render_iff_colon :
    (∃ u, parse (String.ofList (Tree.node "a" [.leaf (.sym ":b") none] none).render) = .ok u ∧
      u.same (.node "a" [.leaf (.sym ":b") none] none) = true) ∧
    ¬ ∃ u, parse (String.ofList (Tree.node ":a" [] none).render) = .ok u ∧
      u.same (.node ":a" [] none) = true := by
  have hsymbol : Floatless (.node "a" [.leaf (.sym ":b") none] none) := ⟨trivial, nofun, trivial⟩
  have htag : Floatless (.node ":a" [] none) := ⟨trivial, trivial⟩
  refine ⟨(parse_render_iff hsymbol).2
      ⟨⟨⟨by decide, List.all_eq_true.1 rfl⟩, by decide⟩, ?_, trivial⟩,
    fun h => ((parse_render_iff htag).1 h).1.2 rfl⟩
  rintro name ⟨⟩
  exact List.all_eq_true.1 rfl

end TreeQuery.Sexp
