import Mathlib
import TreeQuery.Proofs.Edit.Rule

/-!
# Rules on texts that were read

On the tree of a text that was read a rule never fails (`Rule.apply_parsed`): it makes one edit
for each occurrence that it selects, and everything between these occurrences stays. A rule that
writes what is there already, or selects nothing, leaves the text as it is.
-/

namespace TreeQuery

variable {source : List Char} {e : Edit}

namespace Rule

variable {r : Rule} {t : Tree} {o : Occurrence} {os : List Occurrence}

/-- The edit puts in the place of the occurrence what the rule writes about it. -/
def Makes (r : Rule) (source : List Char) (o : Occurrence) (e : Edit) : Prop :=
  o.tree.span = some e.span ∧ e.text = r.render o source

theorem makes_of_mem_replacement (he : e ∈ r.replacement source o) : r.Makes source o e := by
  rw [replacement] at he
  split at he
  · obtain ⟨span, hspan, rfl⟩ := List.mem_map.1 he
    exact ⟨Option.mem_toList.1 hspan, rfl⟩
  · cases he

theorem makes_replacements (hos : ∀ o ∈ os, o.tree.span ≠ none) :
    List.Forall₂ (r.Makes source) (os.filter r.selects) (os.flatMap (r.replacement source)) :=
  Query.forall₂_cuts r.selects (r.render · source) hos

theorem render_whole (hr : r.template = "$0".toList) (o : Occurrence) (source : List Char) :
    r.render o source = o.tree.textIn source := by
  rw [render, hr]
  exact List.append_nil _

theorem index_of_mem_search {q : Query} (ho : o ∈ q.search t) :
    1 ≤ o.index ∧ o.index ≤ (q.search t).length := by
  obtain ⟨i, hi⟩ := List.mem_iff_getElem?.1 ho
  obtain ⟨hlt, -⟩ := List.getElem?_eq_some_iff.1 hi
  rw [Query.getElem?_search, Option.map_eq_some_iff] at hi
  obtain ⟨h, -, rfl⟩ := hi
  exact ⟨Nat.le_add_left 1 i, hlt⟩

theorem selected_eq_nil {k : Nat} (hk : r.only = some k)
    (hout : k = 0 ∨ (r.query.search t).length < k) : r.selected t = [] := by
  refine List.filter_eq_nil_iff.2 fun o ho => ?_
  have := index_of_mem_search ho
  simp only [selects, hk, Option.all_some, beq_iff_eq]
  omega

/-- On a text that was read a rule always applies. Its edits are one for each selected occurrence,
in the order of the text, and all that is not replaced by them is kept. The rule of the template
`$0` changes nothing, nor does one that is restricted to a number that no occurrence has. -/
theorem apply_parsed (r : Rule) (h : Sexp.parseChars source = .ok t) :
    ∃ edits output,
      r.apply t source =
        .ok ⟨output, (r.query.search t).length, (r.selected t).length⟩ ∧
      List.Forall₂ (r.Makes source) (r.selected t) edits ∧ Splices 0 source edits output ∧
      (r.template = "$0".toList → output = source) ∧
      (∀ k, r.only = some k → k = 0 ∨ (r.query.search t).length < k → output = source) := by
  have hspanned := Sexp.spanned_of_parse h
  obtain ⟨output, hsplices, -⟩ := Sexp.parse_cuts h (r.texts t source)
  have happly := apply_eq (r := r) source hspanned
  rw [hsplices.apply] at happly
  have hmakes : List.Forall₂ (r.Makes source) (r.selected t)
      ((r.query.search t).flatMap (r.replacement source)) :=
    makes_replacements fun o ho => Query.span_of_mem_search hspanned ho
  rw [edits_eq_cuts] at hmakes
  refine ⟨_, output, ?_, hmakes, hsplices, fun hr => ?_, fun k hk hout => ?_⟩
  · rw [happly, ← hmakes.length_eq]
    rfl
  · have hsource : source = [] ++ source := rfl
    refine hsplices.eq_of_same hsource rfl fun e he old hold => ?_
    rw [← edits_eq_cuts] at he
    obtain ⟨o, -, ho⟩ := List.mem_flatMap.1 he
    obtain ⟨hspan, htext⟩ := makes_of_mem_replacement ho
    rw [htext, render_whole hr, Tree.textIn_of_text? hspan hold]
  · rw [selected_eq_nil hk hout] at hmakes
    generalize t.cuts (r.texts t source) [] = edits at hmakes hsplices
    cases hmakes
    cases hsplices
    rfl

def mark : Rule := ⟨⟨"x".toList, .literal (.sym "x")⟩, "é$0".toList, none⟩

theorem apply_parsed_mark :
    ∃ t edits, Sexp.parseChars "(x é) (y (x 2))".toList = .ok t ∧
      mark.apply t "(x é) (y (x 2))".toList = .ok ⟨"é(x é) (y é(x 2))".toList, 2, 2⟩ ∧
      edits.map (·.span) = [Span.between 0 6, Span.between 10 15] ∧
      Splices 0 "(x é) (y (x 2))".toList edits "é(x é) (y é(x 2))".toList := by
  let one : Tree := .node "x" [.leaf (.sym "é") (some (Span.between 3 5))] (some (Span.between 0 6))
  let two : Tree :=
    .node "x" [.leaf (.int 2) (some (Span.between 13 14))] (some (Span.between 10 15))
  let t : Tree := .node "begin" [one, .node "y" [two] (some (Span.between 7 16))]
    (some (Span.between 0 16))
  have hparse : Sexp.parseChars "(x é) (y (x 2))".toList = .ok t := rfl
  have hselected : mark.selected t =
      [⟨⟨[0], one⟩, .matched, 1⟩, ⟨⟨[0, 1], two⟩, .matched, 2⟩] := rfl
  have happly : mark.apply t "(x é) (y (x 2))".toList =
      .ok ⟨"é(x é) (y é(x 2))".toList, 2, 2⟩ := by cbv
  obtain ⟨edits, output, hok, hmakes, hsplices, -⟩ := apply_parsed mark hparse
  rw [happly, Except.ok.injEq, Revision.mk.injEq] at hok
  refine ⟨t, edits, hparse, happly, ?_, hok.1 ▸ hsplices⟩
  rw [hselected] at hmakes
  obtain _ | ⟨⟨hone, -⟩, _ | ⟨⟨htwo, -⟩, _ | _⟩⟩ := hmakes
  simp only [List.map_cons, List.map_nil, ← Option.some.inj hone, ← Option.some.inj htwo]

end Rule

end TreeQuery
