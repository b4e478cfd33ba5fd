import TreeQuery.Proofs.Edit.Patch
import TreeQuery.Proofs.Sexp.Source

/-!
# Reading a text again

The nodes of a tree that was read are cut out of its text by their spans, whatever they are
replaced by. If every replacement is one form, the changed text reads as the patched tree
(`parse_cuts`).
-/

namespace TreeQuery.Sexp

open Text (width width_append)
open TreeQuery.Tree (cuts cutsList patch patchList bareList)

variable {pos i : Nat} {g w body text source : List Char} {tag : String} {span : Option Span}
  {above : List Nat} {t : Tree} {cs ts : List Tree} {new : List Nat → Option (List Char)}

/-- A tree for every text and no other, the one that the text is a form of. -/
def Forms (new : List Nat → Option (List Char)) (sub : List Nat → Option Tree) : Prop :=
  ∀ p, Option.Rel IsForm (new p) (sub p)

theorem Forms.of_none {sub : List Nat → Option Tree} (h : Forms new sub) {p : List Nat}
    (hp : new p = none) : sub p = none := by
  have hrel := h p
  rw [hp] at hrel
  generalize sub p = u at hrel
  cases hrel
  rfl

theorem Forms.of_some {sub : List Nat → Option Tree} (h : Forms new sub) {p : List Nat}
    {out : List Char} (hp : new p = some out) :
    ∃ u, sub p = some u ∧ ∀ pos, Form pos out (u.shift pos) := by
  have hrel := h p
  rw [hp] at hrel
  generalize sub p = u at hrel
  cases hrel with
  | @some _ u hform => exact ⟨u, rfl, fun pos => by simpa using hform.form.shift pos⟩

theorem Forms.isNode {sub : List Nat → Option Tree} (h : Forms new sub) (p : List Nat) (u : Tree)
    (hu : sub p = some u) : u.isNode = true := by
  have hrel := h p
  rw [hu] at hrel
  generalize new p = text at hrel
  cases hrel with
  | some hform => exact hform.form.isNode

-- ---------------------------------------------------------------------------
-- Cuts in a text
-- ---------------------------------------------------------------------------

def ItemsCut (new : List Nat → Option (List Char)) (above : List Nat) (i pos : Nat)
    (text : List Char) (ts : List Tree) : Prop :=
  ∃ out, Splices pos text (cutsList new above i ts) out ∧ ∀ sub, Forms new sub →
    out.head? = text.head? ∧
    ∀ pos', ∃ us, Items pos' out us ∧ bareList us = bareList (patchList sub above i ts)

def FormCut (new : List Nat → Option (List Char)) (above : List Nat) (pos : Nat)
    (text : List Char) (t : Tree) : Prop :=
  ∃ out, Splices pos text (cuts new above t) out ∧ ∀ sub, Forms new sub →
    ∀ pos', ∃ u, Form pos' out u ∧ u.bare = (patch sub above t).bare

theorem FormCut.mk (hg : Gap g) (hw : Word w) (htag : tag? w = some tag) (hbody : Stops body)
    (h : ItemsCut new above 0 (pos + 1 + width g + width w) body cs) :
    FormCut new above pos (formText g w body)
      (.node tag cs (some (Span.between pos (pos + width (formText g w body))))) := by
  cases hnew : new above with
  | some out =>
    refine ⟨out, ?_, fun sub hsub pos' => ?_⟩
    · rw [cuts, hnew]
      exact .whole (List.cons_ne_nil _ _) out
    · obtain ⟨u, hu, hform⟩ := hsub.of_some hnew
      refine ⟨_, hform pos', ?_⟩
      rw [patch, hu, Tree.bare_shift]
      rfl
  | none =>
    obtain ⟨out, hsplices, hout⟩ := h
    refine ⟨formText g w out, ?_, fun sub hsub pos' => ?_⟩
    · have htext : ∀ body, formText g w body = '(' :: (g ++ w) ++ (body ++ [')']) := by
        simp [formText]
      have hpos : pos + 1 + width g + width w = pos + width ('(' :: (g ++ w)) := by
        simp [Char.utf8Size]
        omega
      rw [hpos] at hsplices
      rw [cuts, hnew, htext, htext]
      exact hsplices.around _ [')']
    · obtain ⟨hhead, hitems⟩ := hout sub hsub
      obtain ⟨us, hus, hbare⟩ := hitems (pos' + 1 + width g + width w)
      refine ⟨_, .mk hg hw htag (hbody.congr hhead.symm) hus, ?_⟩
      rw [patch, hsub.of_none hnew]
      simp only [Option.getD_none, Tree.bare, hbare]

theorem Items.cut (h : Items pos text ts) (new : List Nat → Option (List Char))
    (above : List Nat) (i : Nat) : ItemsCut new above i pos text ts := by
  induction h generalizing above i with
  | nil pos => exact ⟨[], .done _ _, fun _ _ => ⟨rfl, fun pos' => ⟨[], .nil pos', rfl⟩⟩⟩
  | @gap pos g rest ts hg _ ih =>
    obtain ⟨out, hsplices, hout⟩ := ih above i
    refine ⟨g ++ out, hsplices.keep g, fun sub hsub => ?_⟩
    obtain ⟨hhead, hitems⟩ := hout sub hsub
    refine ⟨by simp [hhead], fun pos' => ?_⟩
    obtain ⟨us, hus, hbare⟩ := hitems (pos' + width g)
    exact ⟨us, .gap hg hus, hbare⟩
  | @leaf pos tok a rest ts htok _ ih =>
    obtain ⟨out, hsplices, hout⟩ := ih above (i + 1)
    refine ⟨tok ++ out, hsplices.keep tok, fun sub hsub => ?_⟩
    obtain ⟨hhead, hitems⟩ := hout sub hsub
    refine ⟨by simp [hhead], fun pos' => ?_⟩
    obtain ⟨us, hus, hbare⟩ := hitems (pos' + width tok)
    refine ⟨_, .leaf (htok.congr hhead.symm) hus, ?_⟩
    simp only [bareList, patchList, patch, Tree.bare, hbare]
  | @form pos g w tag body cs rest ts hg hw htag hbody _ _ ihcs ih =>
    obtain ⟨form, hform, hread⟩ := FormCut.mk hg hw htag hbody (ihcs (i :: above) 0)
    obtain ⟨out, hsplices, hout⟩ := ih above (i + 1)
    refine ⟨form ++ out, hform.append hsplices, fun sub hsub => ?_⟩
    obtain ⟨-, hitems⟩ := hout sub hsub
    have hhead : form.head? = some '(' := by
      obtain ⟨u, hu, -⟩ := hread sub hsub 0
      exact hu.head?
    refine ⟨by simp [hhead, formText], fun pos' => ?_⟩
    obtain ⟨u, hu, hbare⟩ := hread sub hsub pos'
    obtain ⟨us, hus, hbares⟩ := hitems (pos' + width form)
    refine ⟨u :: us, hu.items_cons hus, ?_⟩
    simp only [bareList, patchList, hbare, hbares]

theorem Form.cut (h : Form pos text t) (new : List Nat → Option (List Char)) (above : List Nat) :
    FormCut new above pos text t := by
  obtain ⟨hg, hw, htag, hbody, hcs⟩ := h
  exact .mk hg hw htag hbody (hcs.cut new above 0)

theorem Root.cut (h : Root pos text t) (new : List Nat → Option (List Char)) :
    ∃ out, Splices pos text (cuts new [] t) out ∧ ∀ sub, Forms new sub →
      ∃ us u, Items pos out us ∧ (∀ v ∈ us, v.isNode = true) ∧ wrap us = .ok u ∧
        u.bare = (patch sub [] t).bare := by
  cases h with
  | form hform =>
    obtain ⟨out, hsplices, hout⟩ := hform.cut new []
    refine ⟨out, hsplices, fun sub hsub => ?_⟩
    obtain ⟨u, hu, hbare⟩ := hout sub hsub pos
    exact ⟨[u], u, hu.items, by simp [hu.isNode], rfl, hbare⟩
  | @forms ts hitems hnodes hlen hhead =>
    cases hnew : new [] with
    | some out =>
      -- all forms together are replaced by one
      have htext : text ≠ [] := by
        rintro rfl
        cases hhead
      refine ⟨out, ?_, fun sub hsub => ?_⟩
      · rw [cuts, hnew]
        exact .whole htext out
      · obtain ⟨u, hu, hform⟩ := hsub.of_some hnew
        refine ⟨[u.shift pos], _, (hform pos).items, by simp [(hform pos).isNode], rfl, ?_⟩
        rw [patch, hu, Tree.bare_shift]
        rfl
    | none =>
      obtain ⟨out, hsplices, hout⟩ := hitems.cut new [] 0
      refine ⟨out, ?_, fun sub hsub => ?_⟩
      · rw [cuts, hnew]
        exact hsplices
      · obtain ⟨-, hread⟩ := hout sub hsub
        obtain ⟨us, hus, hbare⟩ := hread pos
        have hlen' : 2 ≤ us.length := by
          rw [← Tree.length_bareList, hbare, Tree.length_bareList, Tree.length_patchList]
          exact hlen
        have hnodes' : ∀ u ∈ us, u.isNode = true := by
          rw [← Tree.forall_isNode_bareList, hbare, Tree.forall_isNode_bareList]
          exact Tree.forall_isNode_patchList hsub.isNode [] 0 hnodes
        obtain ⟨span, hwrap⟩ := wrap_of_two_le hlen'
        refine ⟨us, _, hus, hnodes', hwrap, ?_⟩
        rw [patch, hsub.of_none hnew]
        simp only [Option.getD_none, Tree.bare, hbare]

/-- The cuts of a tree that was read turn its source into another text, and if all replacements
are forms, that text reads as the patched tree. -/
theorem parse_cuts (h : parseChars source = .ok t) (new : List Nat → Option (List Char)) :
    ∃ out, Splices 0 source (t.cuts new []) out ∧ ∀ sub, Forms new sub →
      ∃ u, parseChars out = .ok u ∧ u.bare = (t.patch sub []).bare := by
  obtain ⟨g, text, tail, rfl, hg, htail, hroot⟩ := exists_root h
  obtain ⟨out, hsplices, hout⟩ := hroot.cut new
  rw [← Nat.zero_add (width g)] at hsplices
  refine ⟨g ++ (out ++ tail), hsplices.around g tail, fun sub hsub => ?_⟩
  obtain ⟨us, u, hus, hnodes, hwrap, hbare⟩ := hout sub hsub
  exact ⟨u, parseChars_of_items hg hus hnodes hwrap htail, hbare⟩

end TreeQuery.Sexp
