import Mathlib
import TreeQuery.Proofs.Edit.Rule

/-!
# Edits within occurrences

An editor that keeps to the text of each occurrence can be judged occurrence by occurrence: if the
edits of each of them apply on their own, then all of them together apply, and the output is the
source with what they make of each occurrence alone in its place (`Query.revise_parsed`). Two
occurrences may touch, and both may insert where they do.
-/

namespace TreeQuery

variable {q : Query} {t : Tree} {o : Occurrence} {span : Span} {source slice out : List Char}
  {es : List Edit}

namespace Occurrence

/-- The edits stay within the occurrence, ends included, and apply as a plan of their own. -/
structure Owns (o : Occurrence) (source : List Char) (es : List Edit) : Prop where
  within : ∀ span, o.tree.span = some span →
    ∀ e ∈ es, span.start ≤ e.span.start ∧ e.span.stop ≤ span.stop
  applies : ∃ out, (Plan.mk es).apply source = .ok out

/-- The replacement puts in the place of the occurrence what the edits make of its text alone. -/
structure Revises (o : Occurrence) (source : List Char) (es : List Edit) (whole : Edit) :
    Prop where
  span : o.tree.span = some whole.span
  text : ∃ slice, whole.span.text? source = some slice ∧
    (Plan.mk (es.map (Edit.since whole.span.start))).apply slice = .ok whole.text

theorem Revises.eq_replace {whole : Edit} (h : o.Revises source es whole)
    (hspan : o.tree.span = some span) (hslice : span.text? source = some slice)
    (happly : (Plan.mk (es.map (Edit.since span.start))).apply slice = .ok out) :
    whole = Edit.replace span out := by
  obtain ⟨hspan', slice', hslice', happly'⟩ := h
  obtain rfl : span = whole.span := Option.some.inj (hspan.symm.trans hspan')
  obtain rfl : slice = slice' := Option.some.inj (hslice.symm.trans hslice')
  obtain rfl : out = whole.text := Except.ok.inj (happly.symm.trans happly')
  rfl

theorem Owns.weaves (h : o.Owns source es) (hspan : o.tree.span = some span)
    (hslice : span.text? source = some slice) :
    ∃ out, Weaves span.start slice (Plan.mk es).ordered out := by
  obtain ⟨pre, post, hsource, hpre, hwidth⟩ := Text.slice?_eq_some_iff.1 hslice
  obtain ⟨out, hout⟩ := h.applies
  have hall := Plan.apply_eq_ok_iff_weaves.1 hout
  have hwhole : source = [] ++ source := rfl
  rw [← hpre] at hwidth ⊢
  refine exists_weaves hsource (fun e he => hall.fits hwhole rfl he) ?_ hall.pairwise
  intro e he
  obtain ⟨hstart, hstop⟩ := h.within span hspan e ((Plan.mk es).ordered_perm.mem_iff.1 he)
  omega

theorem exists_text (source : List Char) (edits : Occurrence → List Edit) (o : Occurrence) :
    ∃ text, o.Owns source (edits o) → ∀ span slice, o.tree.span = some span →
      span.text? source = some slice →
      Weaves span.start slice (Plan.mk (edits o)).ordered text := by
  by_cases h : o.Owns source (edits o) ∧
      ∃ span slice, o.tree.span = some span ∧ span.text? source = some slice
  · obtain ⟨hown, span, slice, hspan, hslice⟩ := h
    obtain ⟨text, htext⟩ := hown.weaves hspan hslice
    refine ⟨text, ?_⟩
    intro _ span' slice' hspan' hslice'
    obtain rfl : span = span' := Option.some.inj (hspan.symm.trans hspan')
    obtain rfl : slice = slice' := Option.some.inj (hslice.symm.trans hslice')
    exact htext
  · refine ⟨[], ?_⟩
    intro hown span slice hspan hslice
    exact absurd ⟨hown, span, slice, hspan, hslice⟩ h

end Occurrence

namespace Query

theorem splices_search (q : Query) (h : Sexp.parseChars source = .ok t)
    (text : Occurrence → List Char) :
    ∃ wholes output, Splices 0 source wholes output ∧
      List.Forall₂ (fun o e => o.tree.span = some e.span ∧ e.text = text o)
        (q.search t) wholes := by
  let new : List Nat → Option (List Char) :=
    fun above => ((q.search t).find? (·.site.above == above)).map text
  obtain ⟨output, hsplices, -⟩ := Sexp.parse_cuts h new
  have hcuts : t.cuts new [] =
      (q.search t).flatMap fun o => o.tree.span.toList.map (Edit.replace · (text o)) := by
    rw [q.cuts_eq_search]
    · refine List.flatMap_congr fun o ho => ?_
      have hfind := (Rule.find?_eq_some_iff (q.pairwise_search t)).2 ⟨ho, rfl⟩
      simp only [cutHit, new, hfind, Option.map_some, Occurrence.tree]
    · intro p hp
      obtain ⟨text, htext⟩ := Option.ne_none_iff_exists'.1 hp
      obtain ⟨o, ho, -⟩ := Option.map_eq_some_iff.1 htext
      exact ⟨o, (Rule.find?_eq_some_iff (q.pairwise_search t)).1 ho⟩
  rw [hcuts] at hsplices
  have hspans : ∀ o ∈ q.search t, o.tree.span ≠ none :=
    fun o ho => span_of_mem_search (Sexp.spanned_of_parse h) ho
  have hforall := forall₂_cuts (fun _ => true) text hspans
  simp only [List.filter_true, if_true] at hforall
  exact ⟨_, output, hsplices, hforall⟩

/-- On a text that was read, edits that keep to their occurrences and apply for each of them on
their own apply together, whatever the pattern. Each occurrence is replaced by what its own edits
make of it alone, and all that is outside of the occurrences is kept. -/
theorem revise_parsed (q : Query) (edits : Occurrence → List Edit)
    (h : Sexp.parseChars source = .ok t)
    (hown : ∀ o ∈ q.search t, o.Owns source (edits o)) :
    ∃ wholes output,
      q.revise t source (fun o => .ok (edits o)) =
        .ok ⟨output, (q.search t).length, ((q.search t).flatMap edits).length⟩ ∧
      List.Forall₂ (fun o whole => o.Revises source (edits o) whole) (q.search t) wholes ∧
      Splices 0 source wholes output := by
  choose text htext using Occurrence.exists_text source edits
  obtain ⟨wholes, output, hsplices, hwholes⟩ := q.splices_search h text
  have hsource : source = [] ++ source := rfl
  have hslices := hsplices.exists_text? hsource rfl
  have hweaves : List.Forall₂ (fun o whole => o.tree.span = some whole.span ∧
      ∀ slice, whole.span.text? source = some slice →
        Weaves whole.span.start slice (Plan.mk (edits o)).ordered whole.text)
      (q.search t) wholes := by
    refine List.Forall₂.imp ?_ ((List.forall₂_and_left _ _).2 ⟨hown, hwholes⟩)
    rintro o whole ⟨ho, hspan, hwhole⟩
    refine ⟨hspan, ?_⟩
    intro slice hslice
    rw [hwhole]
    exact htext o ho whole.span slice hspan hslice
  have hrevises : List.Forall₂ (fun o whole => o.Revises source (edits o) whole)
      (q.search t) wholes := by
    refine (List.Forall₂.imp ?_ ((List.forall₂_and_left _ _).2 ⟨hslices, hweaves.flip⟩)).flip
    rintro whole o ⟨⟨slice, hslice⟩, hspan, hweave⟩
    exact ⟨hspan, slice, hslice, Plan.apply_since (hweave slice hslice)⟩
  have happly : (Plan.mk ((q.search t).flatMap edits)).apply source = .ok output := by
    rw [List.flatMap_def]
    refine hsplices.apply_parts ?_
    rw [List.forall₂_map_left_iff]
    exact List.Forall₂.imp (fun o whole hw => hw.2) hweaves
  refine ⟨wholes, output, ?_, hrevises, hsplices⟩
  rw [revise_eq source fun o _ => rfl, happly]
  rfl

def addBetween (o : Occurrence) : List Edit :=
  if o.index = 1 then [Edit.insert 3 "a".toList]
  else [Edit.replace (Span.between 3 6) "(y)".toList, Edit.insert 3 "b".toList]

theorem revise_parsed_touching :
    ∃ t wholes, Sexp.parseChars "(x)(x)".toList = .ok t ∧
      (Query.mk "x".toList (.literal (.sym "x"))).revise t "(x)(x)".toList
        (fun o => .ok (addBetween o)) = .ok ⟨"(x)ab(y)".toList, 2, 3⟩ ∧
      wholes = [Edit.replace (Span.between 0 3) "(x)a".toList,
        Edit.replace (Span.between 3 6) "b(y)".toList] ∧
      Splices 0 "(x)(x)".toList wholes "(x)ab(y)".toList := by
  let q : Query := ⟨"x".toList, .literal (.sym "x")⟩
  let one : Tree := .node "x" [] (some (Span.between 0 3))
  let two : Tree := .node "x" [] (some (Span.between 3 6))
  let t : Tree := .node "begin" [one, two] (some (Span.between 0 6))
  have hparse : Sexp.parseChars "(x)(x)".toList = .ok t := rfl
  have hsearch : q.search t = [⟨⟨[0], one⟩, .matched, 1⟩, ⟨⟨[1], two⟩, .matched, 2⟩] := rfl
  have hown : ∀ o ∈ q.search t, o.Owns "(x)(x)".toList (addBetween o) := by
    rw [hsearch]
    refine List.forall_mem_cons.2 ⟨⟨?_, "(x)a(x)".toList, by cbv⟩,
      List.forall_mem_singleton.2 ⟨?_, "(x)b(y)".toList, by cbv⟩⟩
    · rintro span ⟨⟩
      decide
    · rintro span ⟨⟩
      decide
  obtain ⟨wholes, output, hok, hrevises, hsplices⟩ := revise_parsed q addBetween hparse hown
  have hrevise : q.revise t "(x)(x)".toList (fun o => .ok (addBetween o)) =
      .ok ⟨"(x)ab(y)".toList, 2, 3⟩ := by cbv
  rw [hrevise, Except.ok.injEq, Revision.mk.injEq] at hok
  rw [hsearch] at hrevises
  obtain _ | ⟨hone, _ | ⟨htwo, _ | _⟩⟩ := hrevises
  refine ⟨t, _, hparse, hrevise, ?_, hok.1 ▸ hsplices⟩
  congr
  · exact hone.eq_replace rfl rfl (by cbv)
  · exact htwo.eq_replace rfl rfl (by cbv)

end Query

end TreeQuery
