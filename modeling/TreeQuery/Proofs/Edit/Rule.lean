import TreeQuery.Edit.Rule
import TreeQuery.Proofs.Edit.Pass
import TreeQuery.Proofs.Edit.Reparse

/-!
# Rules and the trees of what they write

The edits of a rule are the cuts of the tree at the occurrences that it selects
(`Rule.edits_eq_cuts`), so on a text that was read a rule always applies, and rewriting the text
and then reading it is the same as reading it and then rewriting the tree
(`Rule.parse_apply`).
-/

namespace TreeQuery

namespace Query

variable {q : Query} {t : Tree} {o : Occurrence}

theorem map_numberedFrom (n : Nat) (found : List (Site × Outcome)) :
    (numberedFrom n found).map (fun o => (o.site, o.outcome)) = found := by
  induction found generalizing n with
  | nil => rfl
  | cons h found ih => simp [ih]

theorem hits_eq (q : Query) (t : Tree) :
    q.hits [] t = (q.search t).map fun o => (o.site, o.outcome) := by
  rw [search_eq, map_numberedFrom]

theorem pairwise_search (q : Query) (t : Tree) :
    (q.search t).Pairwise (fun a b => a.site.above ≠ b.site.above) := by
  have h := q.pairwise_hits t []
  rwa [hits_eq, List.pairwise_map] at h

theorem span_of_mem_search (ht : t.Spanned) (ho : o ∈ q.search t) : o.tree.span ≠ none :=
  (ht.at? (hitAt_of_mem_search ho).tree).span

theorem cuts_eq_search (q : Query) (t : Tree) {new : List Nat → Option (List Char)}
    (hnew : ∀ p, new p ≠ none → ∃ o ∈ q.search t, o.site.above = p) :
    t.cuts new [] = (q.search t).flatMap fun o => cutHit new (o.site, o.outcome) := by
  rw [q.cuts_eq_hits t [], hits_eq, List.flatMap_map]
  intro p _ hp
  obtain ⟨o, ho, he⟩ := hnew p hp
  rw [hits_eq]
  exact ⟨_, List.mem_map_of_mem ho, he⟩

theorem forall₂_cuts (sel : Occurrence → Bool) (text : Occurrence → List Char)
    {os : List Occurrence} (hos : ∀ o ∈ os, o.tree.span ≠ none) :
    List.Forall₂ (fun o e => o.tree.span = some e.span ∧ e.text = text o) (os.filter sel)
      (os.flatMap fun o =>
        if sel o then o.tree.span.toList.map (Edit.replace · (text o)) else []) := by
  induction os with
  | nil => exact .nil
  | cons o os ih =>
    obtain ⟨ho, hos⟩ := List.forall_mem_cons.1 hos
    rw [List.flatMap_cons]
    by_cases hs : sel o = true
    · obtain ⟨span, hspan⟩ := Option.ne_none_iff_exists'.1 ho
      rw [List.filter_cons_of_pos hs, if_pos hs, hspan]
      exact .cons ⟨hspan, rfl⟩ (ih hos)
    · rw [List.filter_cons_of_neg hs, if_neg hs]
      exact ih hos

end Query

namespace Rule

variable {r : Rule} {t : Tree} {o : Occurrence} {p : List Nat} {source : List Char}

def selects (r : Rule) (o : Occurrence) : Bool := r.only.all (· == o.index)

def selected (r : Rule) (t : Tree) : List Occurrence := (r.query.search t).filter r.selects

def at? (r : Rule) (t : Tree) (above : List Nat) : Option Occurrence :=
  (r.selected t).find? (·.site.above == above)

theorem find?_eq_some_iff {os : List Occurrence}
    (h : os.Pairwise (fun a b => a.site.above ≠ b.site.above)) :
    os.find? (·.site.above == p) = some o ↔ o ∈ os ∧ o.site.above = p := by
  induction os with
  | nil => simp
  | cons a os ih =>
    obtain ⟨ha, hos⟩ := List.pairwise_cons.1 h
    by_cases hp : a.site.above = p
    · rw [List.find?_cons_of_pos (by simpa using hp), Option.some.injEq]
      constructor
      · rintro rfl
        exact ⟨List.mem_cons_self, hp⟩
      · rintro ⟨ho, he⟩
        rcases List.mem_cons.1 ho with rfl | ho
        · rfl
        · exact absurd (hp.trans he.symm) (ha o ho)
    · rw [List.find?_cons_of_neg (by simpa using hp), ih hos, List.mem_cons]
      constructor
      · exact fun ⟨ho, he⟩ => ⟨.inr ho, he⟩
      · rintro ⟨rfl | ho, he⟩
        · exact absurd he hp
        · exact ⟨ho, he⟩

theorem at?_eq_some_iff : r.at? t p = some o ↔ o ∈ r.selected t ∧ o.site.above = p :=
  find?_eq_some_iff ((r.query.pairwise_search t).filter r.selects)

theorem at?_above (ho : o ∈ r.query.search t) :
    r.at? t o.site.above = if r.selects o then some o else none := by
  split
  · next hs => exact at?_eq_some_iff.2 ⟨List.mem_filter.2 ⟨ho, hs⟩, rfl⟩
  · next hs =>
    rw [Option.eq_none_iff_forall_ne_some]
    intro o' ho'
    obtain ⟨hm, he⟩ := at?_eq_some_iff.1 ho'
    obtain ⟨hm, hs'⟩ := List.mem_filter.1 hm
    have hfind := (find?_eq_some_iff (r.query.pairwise_search t)).2 ⟨hm, he⟩
    rw [(find?_eq_some_iff (r.query.pairwise_search t)).2 ⟨ho, rfl⟩, Option.some.injEq] at hfind
    exact hs (hfind ▸ hs')

/-- The replacement of an occurrence, if it is selected. -/
def replacement (r : Rule) (source : List Char) (o : Occurrence) : List Edit :=
  if r.selects o then o.tree.span.toList.map (Edit.replace · (r.render o source)) else []

theorem edit_eq (ho : o.tree.span ≠ none) : r.edit source o = .ok (r.replacement source o) := by
  obtain ⟨span, hspan⟩ := Option.ne_none_iff_exists'.1 ho
  cases hs : r.only.all (· == o.index) <;> simp [edit, replace, replacement, selects, hs, hspan]

/-- The texts that the rule writes, by the places where it does. -/
def texts (r : Rule) (t : Tree) (source : List Char) (above : List Nat) : Option (List Char) :=
  (r.at? t above).map (r.render · source)

theorem cutHit_texts (ho : o ∈ r.query.search t) :
    Query.cutHit (r.texts t source) (o.site, o.outcome) = r.replacement source o := by
  rw [Query.cutHit, texts, at?_above ho, replacement]
  split <;> simp_all [Occurrence.tree]

theorem edits_eq_cuts (r : Rule) (t : Tree) (source : List Char) :
    (r.query.search t).flatMap (r.replacement source) = t.cuts (r.texts t source) [] := by
  rw [r.query.cuts_eq_search]
  · exact List.flatMap_congr fun o ho => (cutHit_texts ho).symm
  · intro p hp
    obtain ⟨text, htext⟩ := Option.ne_none_iff_exists'.1 hp
    obtain ⟨o, ho, -⟩ := Option.map_eq_some_iff.1 htext
    obtain ⟨hm, he⟩ := at?_eq_some_iff.1 ho
    exact ⟨o, (List.mem_filter.1 hm).1, he⟩

theorem apply_eq (source : List Char) (ht : t.Spanned) : r.apply t source =
    ((Plan.mk (t.cuts (r.texts t source) [])).apply source).map fun output =>
      ⟨output, (r.query.search t).length, (t.cuts (r.texts t source) []).length⟩ := by
  rw [apply, Query.revise_eq source fun o ho => edit_eq (Query.span_of_mem_search ht ho),
    edits_eq_cuts]

/-- The tree with the selected occurrences replaced. -/
def patch (r : Rule) (form : Occurrence → Tree) (t : Tree) : Tree :=
  t.patch (fun above => (r.at? t above).map form) []

/-- Rewriting a text that was read and then reading it is the same as rewriting the tree, if
every text that the rule writes is one form. The rule may be any, and may be restricted. -/
theorem parse_apply (r : Rule) (form : Occurrence → Tree)
    (hparse : Sexp.parseChars source = .ok t)
    (hform : ∀ o ∈ r.selected t, Sexp.IsForm (r.render o source) (form o)) :
    ∃ revision u, r.apply t source = .ok revision ∧ Sexp.parseChars revision.output = .ok u ∧
      u.bare = (r.patch form t).bare ∧ u.same (r.patch form t) = true := by
  have hforms : Sexp.Forms (r.texts t source) fun above => (r.at? t above).map form := by
    intro above
    simp only [texts]
    cases ho : r.at? t above with
    | none => exact .none
    | some o => exact .some (hform o (at?_eq_some_iff.1 ho).1)
  obtain ⟨out, hsplices, hout⟩ := Sexp.parse_cuts hparse (r.texts t source)
  obtain ⟨u, hu, hbare⟩ := hout _ hforms
  have happly := apply_eq (r := r) source (Sexp.spanned_of_parse hparse)
  rw [hsplices.apply] at happly
  exact ⟨_, u, happly, hu, hbare, Tree.same_of_bare_eq hbare (Sexp.same_of_parse hu)⟩

def wrapSecond : Rule := ⟨⟨"x".toList, .literal (.sym "x")⟩, "(y $0)".toList, some 2⟩

theorem parse_apply_wrapSecond :
    ∃ t revision u, Sexp.parseChars "(a (x 1) (x \"(\"))".toList = .ok t ∧
      wrapSecond.apply t "(a (x 1) (x \"(\"))".toList = .ok revision ∧
      Sexp.parseChars revision.output = .ok u ∧
      u.same (.node "a" [.node "x" [.leaf (.int 1) none] none,
        .node "y" [.node "x" [.leaf (.str "(") none] none] none] none) = true := by
  let one : Tree := .node "x" [.leaf (.int 1) (some (Span.between 6 7))] (some (Span.between 3 8))
  let two : Tree :=
    .node "x" [.leaf (.str "(") (some (Span.between 12 15))] (some (Span.between 9 16))
  let new : Tree := .node "y" [.node "x" [.leaf (.str "(") (some (Span.between 6 9))]
    (some (Span.between 3 10))] (some (Span.between 0 11))
  let t : Tree := .node "a" [one, two] (some (Span.between 0 17))
  have hparse : Sexp.parseChars "(a (x 1) (x \"(\"))".toList = .ok t := rfl
  have hselected : wrapSecond.selected t = [⟨⟨[1], two⟩, .matched, 2⟩] := rfl
  have hform : ∀ o ∈ wrapSecond.selected t,
      Sexp.IsForm (wrapSecond.render o "(a (x 1) (x \"(\"))".toList) new := by
    rw [hselected]
    exact List.forall_mem_singleton.2 ⟨rfl, rfl⟩
  obtain ⟨revision, u, happly, hu, -, hsame⟩ :=
    parse_apply wrapSecond (fun _ => new) hparse hform
  refine ⟨t, revision, u, hparse, happly, hu, ?_⟩
  rw [← Tree.same_bare] at hsame ⊢
  exact hsame

end Rule

end TreeQuery
