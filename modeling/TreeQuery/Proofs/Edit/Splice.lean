import Mathlib.Data.List.Forall2
import TreeQuery.Proofs.Edit.Weave

/-!
# Replacements in order

`Splices` relates a text, replacements of parts of it from left to right, and the text that they
make, window by window. It composes along the text, and a plan of such replacements applies. What
is replaced may as well be edited part by part (`Splices.weaves_parts`).
-/

namespace TreeQuery

open Text (width width_append)

variable {pos : Nat} {a b pre text source out out' : List Char} {es fs : List Edit}

/-- The replacements, in order and apart, turn the text that starts at the offset into another
one. -/
inductive Splices : Nat → List Char → List Edit → List Char → Prop
  | done (pos : Nat) (text : List Char) : Splices pos text [] text
  | cut {pos kept old rest new es out} : old ≠ [] →
      Splices (pos + width kept + width old) rest es out →
      Splices pos (kept ++ (old ++ rest))
        (Edit.replace (Span.between (pos + width kept) (pos + width kept + width old)) new :: es)
        (kept ++ (new ++ out))

namespace Splices

theorem keep (a : List Char) (h : Splices (pos + width a) text es out) :
    Splices pos (a ++ text) es (a ++ out) := by
  cases h with
  | done => exact .done _ _
  | @cut _ kept old rest new es out hold hrest =>
    rw [Nat.add_assoc pos, ← width_append] at hrest ⊢
    rw [← List.append_assoc a, ← List.append_assoc a]
    exact .cut hold hrest

theorem append (ha : Splices pos a es out) (hb : Splices (pos + width a) b fs out') :
    Splices pos (a ++ b) (es ++ fs) (out ++ out') := by
  induction ha with
  | done pos a => exact hb.keep a
  | cut hold _ ih =>
    rw [List.append_assoc, List.append_assoc, List.append_assoc, List.append_assoc]
    exact .cut hold (ih (by simpa [Nat.add_assoc] using hb))

theorem around (a : List Char) (h : Splices (pos + width a) text es out) (b : List Char) :
    Splices pos (a ++ (text ++ b)) es (a ++ (out ++ b)) := by
  simpa using (h.append (.done _ b)).keep a

theorem whole (hold : text ≠ []) (new : List Char) :
    Splices pos text [Edit.replace (Span.between pos (pos + width text)) new] new := by
  have h : Splices pos ([] ++ (text ++ [])) [Edit.replace (Span.between _ _) new] _ :=
    .cut hold (.done _ [])
  simpa using h

-- ---------------------------------------------------------------------------
-- The plan of the replacements
-- ---------------------------------------------------------------------------

theorem weaves (h : Splices pos text es out) : Weaves pos text es out := by
  induction h with
  | done => exact .done _ _
  | cut _ _ ih => exact .edit ih

theorem pairwise (h : Splices pos text es out) :
    es.Pairwise (fun a b => a.span.start < a.span.stop ∧ a.span.stop ≤ b.span.start) := by
  induction h with
  | done => exact .nil
  | @cut pos kept old rest new es out hold hrest ih =>
    refine List.pairwise_cons.2 ⟨fun e he => ?_, ih⟩
    have hwidth : width old ≠ 0 := mt Text.width_eq_zero.1 hold
    have := hrest.weaves.le_start he
    simp only [Edit.replace, Span.start_between, Span.stop_between]
    omega

theorem ordered_eq (h : Splices pos text es out) : (Plan.mk es).ordered = es := by
  refine List.mergeSort_of_pairwise (h.pairwise.imp fun hab => ?_)
  exact Edit.before_iff.2 (.inl (Nat.lt_of_lt_of_le hab.1 hab.2))

theorem apply (h : Splices 0 text es out) : (Plan.mk es).apply text = .ok out := by
  rw [Plan.apply_eq_ok_iff_weaves, h.ordered_eq]
  exact h.weaves

-- ---------------------------------------------------------------------------
-- Replacements in several steps
-- ---------------------------------------------------------------------------

theorem exists_text? (h : Splices pos text es out) (hsource : source = pre ++ text)
    (hpos : width pre = pos) : ∀ e ∈ es, ∃ old, e.span.text? source = some old := by
  induction h generalizing pre with
  | done => nofun
  | @cut pos kept old rest new es out _ _ ih =>
    subst hpos hsource
    have hold := Text.slice?_append (pre ++ kept) old rest
    simp only [width_append, List.append_assoc] at hold
    refine List.forall_mem_cons.2 ⟨⟨old, ?_⟩, ?_⟩
    · simpa [Edit.replace, Span.text?] using hold
    · exact ih (show _ = pre ++ kept ++ old ++ rest by simp) (by simp only [width_append])

/-- Edits that make of the text of every replacement what it is replaced by make the same text. -/
theorem weaves_parts {parts : List (List Edit)} (h : Splices pos text es out)
    (hsource : source = pre ++ text) (hpos : width pre = pos)
    (hparts : List.Forall₂ (fun part e => ∀ old, e.span.text? source = some old →
      Weaves e.span.start old part e.text) parts es) :
    Weaves pos text parts.flatten out := by
  induction h generalizing pre parts with
  | done =>
    cases hparts
    exact .done _ _
  | @cut pos kept old rest new es out _ _ ih =>
    subst hpos hsource
    obtain _ | ⟨hpart, hparts⟩ := hparts
    have hold := Text.slice?_append (pre ++ kept) old rest
    simp only [width_append, List.append_assoc] at hold
    have hweaves := hpart old (by simpa [Edit.replace, Span.text?] using hold)
    simp only [Edit.replace, Span.start_between] at hweaves
    have hrest := ih (show _ = pre ++ kept ++ old ++ rest by simp) (by simp only [width_append])
      hparts
    exact (hweaves.append hrest).keep kept

theorem apply_parts {parts : List (List Edit)} (h : Splices 0 text es out)
    (hparts : List.Forall₂ (fun part e => ∀ old, e.span.text? text = some old →
      Weaves e.span.start old (Plan.mk part).ordered e.text) parts es) :
    (Plan.mk parts.flatten).apply text = .ok out := by
  have hsource : text = [] ++ text := rfl
  have hweaves : Weaves 0 text (parts.flatMap fun part => (Plan.mk part).ordered) out := by
    rw [List.flatMap_def]
    refine h.weaves_parts hsource rfl ?_
    rwa [List.forall₂_map_left_iff]
  rw [Plan.apply_eq_ok_iff_weaves, Plan.ordered_flatten hweaves.pairwise]
  exact hweaves

theorem eq_of_same (h : Splices pos text es out) (hsource : source = pre ++ text)
    (hpos : width pre = pos)
    (hsame : ∀ e ∈ es, ∀ old, e.span.text? source = some old → e.text = old) : out = text := by
  have hparts : List.Forall₂ (fun part e => ∀ old, e.span.text? source = some old →
      Weaves e.span.start old part e.text) (es.map fun _ => []) es := by
    rw [List.forall₂_map_left_iff, List.forall₂_same]
    intro e he old hold
    rw [hsame e he old hold]
    exact .done _ _
  have hweaves := h.weaves_parts hsource hpos hparts
  have hnone : (es.map fun _ => ([] : List Edit)).flatten = [] := by simp
  rw [hnone] at hweaves
  cases hweaves
  rfl

end Splices

end TreeQuery
