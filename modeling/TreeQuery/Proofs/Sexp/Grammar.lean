import TreeQuery.Proofs.Sexp.Places
import TreeQuery.Proofs.Sexp.Rendering

/-!
# The grammar of source texts

A source is trivia, then forms with trivia behind each; a form is a parenthesis, a tag, elements
with trivia before each, and a parenthesis. `Source` gives every text of the grammar the tree that
it stands for, told without the functions that the reader uses on words. The reader accepts these
texts, with these trees, and no others (`parse_eq_ok_iff_source`).
-/

namespace TreeQuery.Sexp

open Text (width width_append)

-- ---------------------------------------------------------------------------
-- The grammar
-- ---------------------------------------------------------------------------

inductive Numeric : List Char → Prop
  | digit {c cs} : c.isDigit = true → Numeric (c :: cs)
  | minus {c cs} : c.isDigit = true → Numeric ('-' :: c :: cs)

/-- The scalar that a word stands for; a numeric word that is no number stands for none. -/
inductive Means : List Char → Scalar → Prop
  | nil : Means "nil".toList .nil
  | colon (name : List Char) : Means (':' :: name) (.sym (String.ofList name))
  | bare {w} : w ≠ "nil".toList → w.head? ≠ some ':' → ¬ Numeric w →
      Means w (.sym (String.ofList w))
  | int {w n} : Numeric w → Number.integer? w = some n → Means w (.int n)
  | float {w x} : Numeric w → Number.integer? w = none → Binary64.ofText? w = some x →
      Means w (.float x)

inductive Tags : List Char → String → Prop
  | colon {name} : name ≠ [] → Tags (':' :: name) (String.ofList name)
  | bare {w} : w ≠ [] → w.head? ≠ some ':' → Tags w (String.ofList w)

mutual
inductive Compound : Nat → List Char → Tree → Prop
  | mk {pos g w tag body cs} : Gap g → Word w → Tags w tag → Stops body →
      Elements (pos + 1 + width g + width w) body cs →
      Compound pos (formText g w body)
        (.node tag cs (some (Span.between pos (pos + width (formText g w body)))))
inductive Elements : Nat → List Char → List Tree → Prop
  | gap {pos g} : Gap g → Elements pos g []
  | cons {pos g text rest t ts} : Gap g → Element (pos + width g) rest text t →
      Elements (pos + width g + width text) rest ts → Elements pos (g ++ (text ++ rest)) (t :: ts)
/-- One element, with the text behind it, where a word has to stop. -/
inductive Element : Nat → List Char → List Char → Tree → Prop
  | word {pos behind w a} : Word w → Means w a → Stops behind →
      Element pos behind w (.leaf a (some (Span.between pos (pos + width w))))
  | quoted {pos behind body s} : Quotes body s →
      Element pos behind (quotedText body) (.leaf (.str (String.ofList s))
        (some (Span.between pos (pos + width (quotedText body)))))
  | compound {pos behind text t} : Compound pos text t → Element pos behind text t
end

/-- Forms with trivia behind each; behind the last a comment may run to the end of the text. -/
inductive Compounds : Nat → List Char → List Tree → Prop
  | last {pos text g t} : Compound pos text t → Trailing g → Compounds pos (text ++ g) [t]
  | cons {pos text g rest t ts} : Compound pos text t → Gap g →
      Compounds (pos + width text + width g) rest ts →
      Compounds pos (text ++ (g ++ rest)) (t :: ts)

/-- The texts of the grammar. Several forms are the children of one node that spans them. -/
inductive Source : List Char → Tree → Prop
  | one {g text t} : Gap g → Compounds (width g) text [t] → Source (g ++ text) t
  | several {g text ts first last} : Gap g → Compounds (width g) text ts → 2 ≤ ts.length →
      ts.head?.bind Tree.span = some first → ts.getLast?.bind Tree.span = some last →
      Source (g ++ text) (.node "begin" ts (some (Span.between first.start last.stop)))

variable {pos : Nat} {w g text rest tail behind : List Char} {a : Scalar} {tag : String}
  {t : Tree} {ts : List Tree}

-- ---------------------------------------------------------------------------
-- Words
-- ---------------------------------------------------------------------------

theorem looksNumeric_iff : looksNumeric w = true ↔ Numeric w := by
  constructor
  · intro h
    obtain ⟨c, cs, hc, rfl | rfl⟩ := exists_digit_of_looksNumeric h
    · exact .digit hc
    · exact .minus hc
  · intro h
    cases h with
    | digit hc => exact looksNumeric_digit hc
    | minus hc => exact hc

theorem scalar?_of_bare (hnil : w ≠ "nil".toList) (hcolon : w.head? ≠ some ':')
    (hnumeric : ¬ Numeric w) : scalar? w = some (.sym (String.ofList w)) := by
  rw [← looksNumeric_iff] at hnumeric
  delta scalar?
  rw [if_neg hnil]
  split
  · exact absurd rfl hcolon
  · rw [if_neg hnumeric]

theorem Means.scalar? (h : Means w a) : scalar? w = some a := by
  cases h with
  | nil => rfl
  | colon name => simpa using scalar?_colon (String.ofList name)
  | bare hnil hcolon hnumeric => exact scalar?_of_bare hnil hcolon hnumeric
  | int hnumeric hint =>
    rw [scalar?_of_looksNumeric (looksNumeric_iff.2 hnumeric), hint]
    rfl
  | float hnumeric hint hfloat =>
    rw [scalar?_of_looksNumeric (looksNumeric_iff.2 hnumeric), hint, hfloat]
    rfl

theorem exists_means_of_numeric (hnumeric : Numeric w) (h : Sexp.scalar? w = some a) :
    Means w a := by
  rw [scalar?_of_looksNumeric (looksNumeric_iff.2 hnumeric)] at h
  generalize hint : Number.integer? w = int at h
  generalize hfloat : Binary64.ofText? w = float at h
  cases int with
  | some n =>
    cases h
    exact .int hnumeric hint
  | none =>
    cases float with
    | some x =>
      cases h
      exact .float hnumeric hint hfloat
    | none => cases h

theorem means_iff : Means w a ↔ scalar? w = some a := by
  refine ⟨Means.scalar?, fun h => ?_⟩
  by_cases hnumeric : Numeric w
  · exact exists_means_of_numeric hnumeric h
  by_cases hnil : w = "nil".toList
  · subst hnil
    cases h
    exact .nil
  by_cases hcolon : w.head? = some ':'
  · obtain ⟨name, rfl⟩ := List.head?_eq_some_iff.1 hcolon
    rw [(Means.colon name).scalar?] at h
    cases h
    exact .colon name
  · rw [scalar?_of_bare hnil hcolon hnumeric] at h
    cases h
    exact .bare hnil hcolon hnumeric

theorem tags_iff : Tags w tag ↔ tag? w = some tag := by
  rw [tag?_eq_some_iff]
  constructor
  · intro h
    cases h with
    | colon hne => simpa using hne
    | bare hne hcolon => simpa using ⟨hne, hcolon⟩
  · rintro ⟨hne, rfl | ⟨rfl, hcolon⟩⟩
    · simpa using Tags.colon hne
    · simpa using Tags.bare hne hcolon

-- ---------------------------------------------------------------------------
-- Forms
-- ---------------------------------------------------------------------------

mutual
theorem Compound.form : ∀ {pos : Nat} {text : List Char} {t : Tree},
    Compound pos text t → Form pos text t
  | _, _, _, .mk hg hw htag hbody hcs => .mk hg hw (tags_iff.1 htag) hbody hcs.items
theorem Elements.items : ∀ {pos : Nat} {text : List Char} {ts : List Tree},
    Elements pos text ts → Items pos text ts
  | pos, g, _, .gap hg => by
    have hitems := Items.gap hg (.nil (pos + width g))
    rwa [List.append_nil] at hitems
  | _, _, _, .cons hg h hrest => .gap hg (h.items hrest.items)
theorem Element.items : ∀ {pos : Nat} {behind text : List Char} {t : Tree} {ts : List Tree},
    Element pos behind text t → Items (pos + width text) behind ts →
    Items pos (text ++ behind) (t :: ts)
  | _, _, _, _, _, .word hw ha hstops, hrest => .leaf (.word hw (means_iff.1 ha) hstops) hrest
  | _, _, _, _, _, .quoted hq, hrest => .leaf (.quoted hq) hrest
  | _, _, _, _, _, .compound h, hrest => h.form.items_cons hrest
end

theorem Elements.after (hg : Gap g) (h : Elements (pos + width g) text ts) :
    Elements pos (g ++ text) ts := by
  cases h with
  | gap hg' => exact .gap (hg.append hg')
  | cons hg' h hrest =>
    rw [Nat.add_assoc pos, ← width_append] at h hrest
    rw [← List.append_assoc]
    exact .cons (hg.append hg') h hrest

theorem Element.elements (h : Element pos rest text t)
    (hrest : Elements (pos + width text) rest ts) :
    Elements pos (text ++ rest) (t :: ts) :=
  .cons Gap.nil h hrest

theorem Token.element : Token rest text a →
    Element pos rest text (.leaf a (some (Span.between pos (pos + width text))))
  | .word hw ha hstops => .word hw (means_iff.2 ha) hstops
  | .quoted hq => .quoted hq

theorem Items.elements (h : Items pos text ts) : Elements pos text ts := by
  induction h with
  | nil => exact .gap .nil
  | gap hg _ ih => exact ih.after hg
  | leaf htok _ ih => exact htok.element.elements ih
  | form hg hw htag hbody _ _ ihcs ih =>
    have hform := Compound.mk hg hw (tags_iff.2 htag) hbody ihcs
    exact (Element.compound hform).elements ih

theorem Form.compound (h : Form pos text t) : Compound pos text t := by
  obtain ⟨hg, hw, htag, hbody, hcs⟩ := h
  exact .mk hg hw (tags_iff.2 htag) hbody hcs.elements

-- ---------------------------------------------------------------------------
-- Whole texts
-- ---------------------------------------------------------------------------

theorem Compounds.items (h : Compounds pos text ts) : ∃ core tail, text = core ++ tail ∧
    Trailing tail ∧ Items pos core ts ∧ ∀ t ∈ ts, t.isNode = true := by
  induction h with
  | last h htail => exact ⟨_, _, rfl, htail, h.form.items, by simp [h.form.isNode]⟩
  | @cons pos text g rest t ts h hg _ ih =>
    obtain ⟨core, tail, rfl, htail, hitems, hnodes⟩ := ih
    exact ⟨text ++ (g ++ core), tail, by simp, htail, h.form.items_cons (.gap hg hitems),
      List.forall_mem_cons.2 ⟨h.form.isNode, hnodes⟩⟩

theorem Items.compounds (h : Items pos text (t :: ts)) (hnodes : ∀ u ∈ t :: ts, u.isNode = true)
    (htail : Trailing tail) : ∃ g rest, text ++ tail = g ++ rest ∧ Gap g ∧
      Compounds (pos + width g) rest (t :: ts) := by
  induction ts generalizing pos text t with
  | nil =>
    obtain ⟨g, form, rest, rfl, hg, hform, hrest⟩ := h.exists_form (hnodes t List.mem_cons_self)
    exact ⟨g, form ++ (rest ++ tail), by simp, hg,
      .last hform.compound (hrest.gap_of_nil.trailing_append htail)⟩
  | cons u us ih =>
    obtain ⟨g, form, rest, rfl, hg, hform, hrest⟩ := h.exists_form (hnodes t List.mem_cons_self)
    obtain ⟨g', rest', htext, hg', hcompounds⟩ :=
      ih hrest fun v hv => hnodes v (List.mem_cons_of_mem _ hv)
    exact ⟨g, form ++ (g' ++ rest'), by simp [htext], hg, .cons hform.compound hg' hcompounds⟩

theorem Source.parseChars {source : List Char} (h : Source source t) :
    parseChars source = .ok t := by
  cases h with
  | one hg h =>
    obtain ⟨core, tail, rfl, htail, hitems, hnodes⟩ := h.items
    exact parseChars_of_items hg hitems hnodes rfl htail
  | several hg h hlen hfirst hlast =>
    obtain ⟨core, tail, rfl, htail, hitems, hnodes⟩ := h.items
    obtain ⟨t, ht, hfirst⟩ := Option.bind_eq_some_iff.1 hfirst
    obtain ⟨u, hu, hlast⟩ := Option.bind_eq_some_iff.1 hlast
    exact parseChars_of_items hg hitems hnodes (wrap_of_spans hlen ht hfirst hu hlast) htail

theorem source_of_parse {source : List Char} (h : Sexp.parseChars source = .ok t) :
    Source source t := by
  obtain ⟨text, tail, ts, rfl, htail, hitems, hnodes, hwrap⟩ := parseChars_eq_ok_iff.1 h
  cases ts with
  | nil => cases hwrap
  | cons u us =>
    have hspans : ∀ v ∈ u :: us, v.span ≠ none := fun v hv => Tree.span_of_mem hitems.spanned hv
    obtain ⟨g, rest, htext, hg, hcompounds⟩ := hitems.compounds hnodes htail
    rw [Nat.zero_add] at hcompounds
    rw [htext]
    cases us with
    | nil =>
      cases hwrap
      exact .one hg hcompounds
    | cons v us =>
      have hlen : 2 ≤ (u :: v :: us).length := by simp
      have hhead : (u :: v :: us).head? = some u := rfl
      obtain ⟨w, hlast⟩ : ∃ w, (u :: v :: us).getLast? = some w :=
        ⟨_, List.getLast?_eq_some_getLast (List.cons_ne_nil _ _)⟩
      obtain ⟨first, hfirst⟩ := Option.ne_none_iff_exists'.1 (hspans u List.mem_cons_self)
      obtain ⟨last, hstop⟩ := Option.ne_none_iff_exists'.1 (hspans w (List.mem_of_getLast? hlast))
      rw [wrap_of_spans hlen hhead hfirst hlast hstop] at hwrap
      cases hwrap
      exact .several hg hcompounds hlen (by rw [hhead]; exact hfirst) (by rw [hlast]; exact hstop)

/-- The reader accepts the texts of the grammar and gives each its tree. -/
theorem parse_eq_ok_iff_source {source : String} :
    parse source = .ok t ↔ Source source.toList t :=
  ⟨source_of_parse, Source.parseChars⟩

end TreeQuery.Sexp
