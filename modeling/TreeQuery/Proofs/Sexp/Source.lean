import TreeQuery.Proofs.Number.NaN
import TreeQuery.Proofs.Sexp.Reader
import TreeQuery.Proofs.Text.Utf8
import TreeQuery.Proofs.Tree.Spans

/-!
# Accepted source texts

What an accepted text looks like as a whole: a gap, the text of the root, and what may follow it
(`exists_root`). Every value of its tree has a span, and none is a NaN.
-/

namespace TreeQuery.Sexp

open Text (width width_append)
open Lexeme (scan)

variable {pos n : Nat} {g w text tail source : List Char} {a : Scalar} {t u : Tree}
  {ts : List Tree}

-- ---------------------------------------------------------------------------
-- Scalars and spans
-- ---------------------------------------------------------------------------

theorem exists_digit_of_looksNumeric (h : looksNumeric w = true) :
    ∃ c cs, c.isDigit = true ∧ (w = c :: cs ∨ w = '-' :: c :: cs) := by
  unfold looksNumeric at h
  split at h
  · exact ⟨_, _, h, .inr rfl⟩
  · exact ⟨_, _, h, .inl rfl⟩
  · cases h

theorem isNaN_of_looksNumeric {x : Binary64} (h : looksNumeric w = true)
    (hx : Binary64.ofText? w = some x) : x.isNaN = false := by
  obtain ⟨c, cs, hc, rfl | rfl⟩ := exists_digit_of_looksNumeric h
  · exact Binary64.isNaN_of_ofText? hc hx
  · exact Binary64.isNaN_of_ofText?_minus hc hx

theorem scalar?_same (h : scalar? w = some a) : a.same a = true := by
  delta scalar? at h
  -- how a number is read does not matter here, and is better not computed
  generalize hint : Number.integer? w = int at h
  generalize hfloat : Binary64.ofText? w = float at h
  split at h
  · cases h
    rfl
  split at h
  · cases h
    simp
  split at h
  · next hnumeric =>
    cases int with
    | some n =>
      cases h
      simp
    | none =>
      cases float with
      | none => cases h
      | some x =>
        cases h
        have hnan := isNaN_of_looksNumeric hnumeric hfloat
        simp [Binary64.same, hnan]
  · cases h
    simp

theorem Token.same {rest tok : List Char} : Token rest tok a → a.same a = true
  | .word _ ha _ => scalar?_same ha
  | .quoted _ => by simp

theorem Items.same (h : Items pos text ts) : Tree.sameList ts ts = true := by
  induction h with
  | nil => rfl
  | gap _ _ ih => exact ih
  | leaf htok _ ih => simp [Tree.sameList, Tree.same, htok.same, ih]
  | form _ _ _ _ _ _ ihcs ih => simp [Tree.sameList, Tree.same, ihcs, ih]

theorem Items.spanned (h : Items pos text ts) : Tree.SpannedList ts := by
  induction h with
  | nil => trivial
  | gap _ _ ih => exact ih
  | leaf _ _ ih => exact ⟨by simp [Tree.Spanned], ih⟩
  | form _ _ _ _ _ _ ihcs ih => exact ⟨⟨by simp, ihcs⟩, ih⟩

theorem pos_body (pos n : Nat) (g w : List Char) :
    pos + 1 + width g + width w + n = pos + n + 1 + width g + width w := by
  omega

theorem Items.shift (n : Nat) (h : Items pos text ts) :
    Items (pos + n) text (Tree.shiftList n ts) := by
  induction h with
  | nil => exact .nil _
  | gap hg _ ih => exact .gap hg (by rwa [Nat.add_right_comm] at ih)
  | leaf htok _ ih =>
    rw [Tree.shiftList, Tree.shift, Option.map_some, Span.shift_between]
    exact .leaf htok (by rwa [Nat.add_right_comm] at ih)
  | form hg hw htag hbody _ _ ihcs ih =>
    rw [pos_body] at ihcs
    rw [Tree.shiftList, Tree.shift, Option.map_some, Span.shift_between]
    exact .form hg hw htag hbody ihcs (by rwa [Nat.add_right_comm] at ih)

theorem Form.shift (n : Nat) (h : Form pos text t) : Form (pos + n) text (t.shift n) := by
  obtain ⟨hg, hw, htag, hbody, hcs⟩ := h
  have hcs := hcs.shift n
  rw [pos_body] at hcs
  rw [Tree.shift, Option.map_some, Span.shift_between]
  exact .mk hg hw htag hbody hcs

-- ---------------------------------------------------------------------------
-- The first and the last form of a text
-- ---------------------------------------------------------------------------

theorem Items.gap_of_nil (h : Items pos text []) : Gap text := by
  generalize hts : [] = ts at h
  induction h with
  | nil => exact .nil
  | gap hg _ ih => exact hg.append (ih hts)
  | leaf => cases hts
  | form => cases hts

theorem Items.exists_form (h : Items pos text (t :: ts)) (ht : t.isNode = true) :
    ∃ g form rest, text = g ++ (form ++ rest) ∧ Gap g ∧ Form (pos + width g) form t ∧
      Items (pos + width g + width form) rest ts := by
  generalize hus : t :: ts = us at h
  induction h with
  | nil => cases hus
  | @gap pos g _ _ hg _ ih =>
    obtain ⟨g', form, rest, rfl, hg', hform, hrest⟩ := ih hus
    rw [Nat.add_assoc pos, ← width_append] at hform hrest
    exact ⟨g ++ g', form, rest, by simp, hg.append hg', hform, hrest⟩
  | leaf =>
    cases hus
    cases ht
  | form hg hw htag hbody hcs hrest =>
    cases hus
    exact ⟨[], _, _, rfl, .nil, .mk hg hw htag hbody hcs, hrest⟩

/-- Forms span from the start of the first to the end of the last; around them are gaps only. -/
theorem Items.exists_core (h : Items pos text (t :: ts)) (hnodes : ∀ u ∈ t :: ts, u.isNode = true) :
    ∃ g core tail, text = g ++ (core ++ tail) ∧ Gap g ∧ Gap tail ∧
      Items (pos + width g) core (t :: ts) ∧ core.head? = some '(' ∧
      (t.span.map (·.start)).getD 0 = pos + width g ∧
      (((t :: ts).getLast?.bind (·.span)).map (·.stop)).getD 0 =
        pos + width g + width core := by
  induction ts generalizing pos text t with
  | nil =>
    obtain ⟨g, form, rest, rfl, hg, hform, hrest⟩ := h.exists_form (hnodes t List.mem_cons_self)
    exact ⟨g, form, rest, rfl, hg, hrest.gap_of_nil, hform.items, hform.head?,
      by simp [hform.span], by simp [hform.span]⟩
  | cons u us ih =>
    obtain ⟨g, form, rest, rfl, hg, hform, hrest⟩ := h.exists_form (hnodes t List.mem_cons_self)
    obtain ⟨g', core, tail, rfl, hg', htail, hcore, -, -, hlast⟩ :=
      ih hrest fun v hv => hnodes v (List.mem_cons_of_mem _ hv)
    refine ⟨g, form ++ (g' ++ core), tail, by simp, hg, htail, hform.items_cons (.gap hg' hcore),
      by simp [hform.head?], by simp [hform.span], ?_⟩
    rw [List.getLast?_cons_cons, hlast, width_append, width_append]
    omega

-- ---------------------------------------------------------------------------
-- Whole texts
-- ---------------------------------------------------------------------------

/-- The tree of a whole text, from the start of its first form to the end of its last. -/
inductive Root (pos : Nat) : List Char → Tree → Prop
  | form {text : List Char} {t : Tree} : Form pos text t → Root pos text t
  | forms {text : List Char} {ts : List Tree} : Items pos text ts →
      (∀ t ∈ ts, t.isNode = true) → 2 ≤ ts.length → text.head? = some '(' →
      Root pos text (.node beginTag ts (some (Span.between pos (pos + width text))))

theorem exists_root (h : parseChars source = .ok t) : ∃ g text tail,
    source = g ++ (text ++ tail) ∧ Gap g ∧ Trailing tail ∧ Root (width g) text t := by
  obtain ⟨text, tail, ts, rfl, htail, hitems, hnodes, hwrap⟩ := parseChars_eq_ok_iff.1 h
  match ts with
  | [] => cases hwrap
  | [u] =>
    cases hwrap
    obtain ⟨g, form, rest, rfl, hg, hform, hrest⟩ :=
      hitems.exists_form (hnodes _ List.mem_cons_self)
    rw [Nat.zero_add] at hform
    exact ⟨g, form, rest ++ tail, by simp, hg, hrest.gap_of_nil.trailing_append htail,
      .form hform⟩
  | u :: v :: us =>
    obtain ⟨g, core, rest, rfl, hg, hrest, hcore, hhead, hstart, hstop⟩ :=
      hitems.exists_core hnodes
    simp only [wrap, hstart, hstop, Nat.zero_add] at hwrap
    cases hwrap
    rw [Nat.zero_add] at hcore
    exact ⟨g, core, rest ++ tail, by simp, hg, hrest.trailing_append htail,
      .forms hcore hnodes (by simp) hhead⟩

theorem Root.items (h : Root pos text t) :
    Items pos text [t] ∨ ∃ ts, Items pos text ts ∧ ∃ span, t = .node beginTag ts (some span) := by
  cases h with
  | form h => exact .inl h.items
  | forms h => exact .inr ⟨_, h, _, rfl⟩

theorem spanned_of_parse (h : parseChars source = .ok t) : t.Spanned := by
  obtain ⟨g, text, tail, -, -, -, hroot⟩ := exists_root h
  rcases hroot.items with ht | ⟨ts, hts, span, rfl⟩
  · exact ht.spanned.1
  · exact ⟨by simp, hts.spanned⟩

theorem same_of_parse (h : parseChars source = .ok t) : t.same t = true := by
  obtain ⟨g, text, tail, -, -, -, hroot⟩ := exists_root h
  rcases hroot.items with ht | ⟨ts, hts, span, rfl⟩
  · simpa [Tree.sameList] using ht.same
  · simpa [Tree.same] using hts.same

theorem wrap_of_two_le (h : 2 ≤ ts.length) :
    ∃ span, wrap ts = .ok (.node beginTag ts span) := by
  match ts with
  | _ :: _ :: _ => exact ⟨_, rfl⟩

theorem parseChars_of_items (hg : Gap g) (h : Items (width g) text ts)
    (hnodes : ∀ t ∈ ts, t.isNode = true) (hwrap : wrap ts = .ok t) (htail : Trailing tail) :
    parseChars (g ++ (text ++ tail)) = .ok t := by
  have hitems : Items 0 (g ++ text) ts := .gap hg (by simpa using h)
  exact parseChars_eq_ok_iff.2 ⟨g ++ text, tail, ts, by simp, htail, hitems, hnodes, hwrap⟩

-- ---------------------------------------------------------------------------
-- Texts that are one form
-- ---------------------------------------------------------------------------

def IsForm (text : List Char) (t : Tree) : Prop :=
  forms (width text) (scan text) [] [] = .ok [t] ∧ t.span = some (Span.between 0 (width text))

theorem IsForm.form (h : IsForm text t) : Form 0 text t := by
  obtain ⟨hforms, hspan⟩ := h
  obtain ⟨text, tail, rfl, -, hitems, hnodes⟩ := forms_eq_ok_iff.1 hforms
  obtain ⟨g, form, rest, rfl, -, hform, -⟩ :=
    hitems.exists_form (hnodes t (by simp))
  -- nothing is left for what stands around the form
  rw [hform.span] at hspan
  simp only [Span.between, Option.some.injEq, Span.mk.injEq, width_append] at hspan
  have hg : g = [] := Text.width_eq_zero.1 (by omega)
  have hrest : rest = [] := Text.width_eq_zero.1 (by omega)
  have htail : tail = [] := Text.width_eq_zero.1 (by omega)
  subst hg hrest htail
  simpa using hform

end TreeQuery.Sexp
