import TreeQuery.Proofs.Sexp.Scan

/-!
# The reader reads the notation

What the notation derives the reader reads, from any point at which it may stand, and nothing
else (`parseChars_eq_ok_iff`). It misses a closing parenthesis where the notation has a form that is
never closed, and names the innermost one (`parseChars_eq_neverClosed_iff`).
-/

namespace TreeQuery.Sexp

open Text (width width_append width_cons)
open Lexeme (scanFrom scan)

variable {stop pos : Nat} {g w x body text tok rest : List Char} {a : Scalar} {tag : String}
  {t : Tree} {ts us done out : List Tree} {o : Open} {os : List Open} {s ws : Span}
  {ls : List Lexeme} {r : Except Error (List Tree)} {innermost : Nat}

-- ---------------------------------------------------------------------------
-- Placing values
-- ---------------------------------------------------------------------------

/-- Complete values, in the innermost open form or among the forms at the top. -/
def placeAll (ts : List Tree) : List Open → List Tree → List Open × List Tree
  | [], done => ([], ts.reverse ++ done)
  | o :: os, done => ({ o with children := ts.reverse ++ o.children } :: os, done)

def resume (stop : Nat) (ls : List Lexeme) (p : List Open × List Tree) :
    Except Error (List Tree) :=
  forms stop ls p.1 p.2

@[simp] theorem placeAll_nil (os : List Open) (done : List Tree) :
    placeAll [] os done = (os, done) := by
  cases os <;> rfl

theorem place_eq (t : Tree) (os : List Open) (done : List Tree) :
    place t os done = placeAll [t] os done := by
  cases os <;> rfl

theorem placeAll_append (ts us : List Tree) (os : List Open) (done : List Tree) :
    placeAll (ts ++ us) os done =
      placeAll us (placeAll ts os done).1 (placeAll ts os done).2 := by
  cases os <;> simp [placeAll]

theorem placeAll_eq_nil_iff : (placeAll ts os done).1 = [] ↔ os = [] := by
  cases os <;> simp [placeAll]

-- ---------------------------------------------------------------------------
-- One step of the reader
-- ---------------------------------------------------------------------------

theorem forms_opening (h : tag? w = some tag) :
    forms stop (⟨.opening, s⟩ :: ⟨.word w, ws⟩ :: ls) os done =
      forms stop ls (⟨s.start, tag, []⟩ :: os) done := by
  simp [forms, h]

theorem forms_closing : forms stop (⟨.closing, s⟩ :: ls) (o :: os) done =
    resume stop ls (placeAll
      [.node o.tag o.children.reverse (some (Span.between o.start s.stop))] os done) := by
  simp [forms, place_eq, resume]

theorem forms_close : forms stop (scanFrom .between pos (')' :: x)) (o :: os) done =
    resume stop (scanFrom .between (pos + 1) x) (placeAll
      [.node o.tag o.children.reverse (some (Span.between o.start (pos + 1)))] os done) := by
  rw [← Span.stop_between pos 1, ← forms_closing, Span.stop_between]
  rfl

theorem forms_word (h : scalar? w = some a) : forms stop (⟨.word w, s⟩ :: ls) (o :: os) done =
    resume stop ls (placeAll [.leaf a (some s)] (o :: os) done) := by
  simp [forms, h, resume, placeAll]

theorem forms_quoted : forms stop (⟨.quoted x, s⟩ :: ls) (o :: os) done =
    resume stop ls (placeAll [.leaf (.str (String.ofList x)) (some s)] (o :: os) done) := by
  simp [forms, resume, placeAll]

theorem forms_token (h : Token x tok a) :
    forms stop (scanFrom .between pos (tok ++ x)) (o :: os) done =
      resume stop (scanFrom .between (pos + width tok) x)
        (placeAll [.leaf a (some (Span.between pos (pos + width tok)))] (o :: os) done) := by
  cases h with
  | word hw ha hx => rw [hw.scanFrom_between hx, forms_word ha]
  | quoted hq => rw [hq.scanFrom_between, forms_quoted]

theorem scanFrom_open (hg : Gap g) (hw : Word w) (hx : Stops x) :
    scanFrom .between pos ('(' :: (g ++ (w ++ x))) =
      ⟨.opening, Span.between pos (pos + 1)⟩ ::
        ⟨.word w, Span.between (pos + 1 + width g) (pos + 1 + width g + width w)⟩ ::
          scanFrom .between (pos + 1 + width g + width w) x := by
  rw [← hw.scanFrom_between hx, ← scanFrom_gap hg]
  rfl

theorem scanFrom_form (hg : Gap g) (hw : Word w) (hbody : Stops body) :
    scanFrom .between pos (formText g w body ++ x) =
      ⟨.opening, Span.between pos (pos + 1)⟩ ::
        ⟨.word w, Span.between (pos + 1 + width g) (pos + 1 + width g + width w)⟩ ::
          scanFrom .between (pos + 1 + width g + width w) (body ++ ')' :: x) := by
  have htext : formText g w body ++ x = '(' :: (g ++ (w ++ (body ++ ')' :: x))) := by
    simp [formText]
  rw [htext, scanFrom_open hg hw (hbody.append (.closing x))]

theorem pos_formText (pos : Nat) (g w body : List Char) :
    pos + 1 + width g + width w + width body + 1 = pos + width (formText g w body) := by
  simp [formText, Char.utf8Size]
  omega

-- ---------------------------------------------------------------------------
-- What is denoted is read
-- ---------------------------------------------------------------------------

/-- The reader takes what stands before `x` for the values that it denotes. At the top, where no
form is open, they have to be forms. -/
theorem Items.read (h : Items pos text ts) (hx : Stops x)
    (hos : os = [] → ∀ t ∈ ts, t.isNode = true) :
    forms stop (scanFrom .between pos (text ++ x)) os done =
      resume stop (scanFrom .between (pos + width text) x) (placeAll ts os done) := by
  induction h generalizing x os done with
  | nil pos => simp [resume]
  | gap hg _ ih =>
    rw [List.append_assoc, scanFrom_gap hg, ih hx hos, width_append, Nat.add_assoc]
  | @leaf pos tok a rest ts htok _ ih =>
    cases os with
    | nil => exact absurd (hos rfl _ List.mem_cons_self) (by simp [Tree.isNode])
    | cons o os =>
      rw [List.append_assoc, forms_token (htok.append hx), resume, ih hx (by simp [placeAll]),
        ← placeAll_append, width_append, Nat.add_assoc]
      rfl
  | @form pos g w tag body cs rest ts hg hw htag hbody _ _ ihcs ih =>
    have hnodes : os = [] → ∀ t ∈ ts, t.isNode = true :=
      fun he t ht => hos he t (List.mem_cons_of_mem _ ht)
    rw [List.append_assoc, scanFrom_form hg hw hbody, forms_opening htag,
      ihcs (.closing _) (by simp), resume, placeAll, forms_close, pos_formText,
      Span.start_between, resume, ih hx fun he => hnodes (placeAll_eq_nil_iff.1 he),
      ← placeAll_append, width_append, Nat.add_assoc]
    simp

theorem Unclosed.read (h : Unclosed pos text innermost) :
    forms stop (scanFrom .between pos text) os done = .error ⟨.neverClosed, innermost⟩ := by
  induction h generalizing os done with
  | @last pos g w tag body cs tail hg hw htag hbody hcs htail =>
    rw [scanFrom_open hg hw (hbody.append htail.stops), forms_opening htag,
      hcs.read htail.stops (by simp), scanFrom_trailing htail, Span.start_between]
    rfl
  | @inner pos g w tag body cs rest innermost hg hw htag hbody hcs hrest ih =>
    rw [scanFrom_open hg hw (hbody.append hrest.stops), forms_opening htag,
      hcs.read hrest.stops (by simp), resume, ih]

-- ---------------------------------------------------------------------------
-- What is read is denoted
-- ---------------------------------------------------------------------------

/-- What a reader has before it, from where it comes to the end of the text, with what result ever:
what denotes some values, up to a closing parenthesis, the end, or a form that is not closed. -/
def Reads (stop pos : Nat) (cs : List Char) (os : List Open) (done : List Tree)
    (r : Except Error (List Tree)) : Prop :=
  ∃ text rest ts, cs = text ++ rest ∧ Items pos text ts ∧
    (os = [] → ∀ t ∈ ts, t.isNode = true) ∧
    ((Trailing rest ∨ ∃ x, rest = ')' :: x) ∧
        resume stop (scanFrom .between (pos + width text) rest) (placeAll ts os done) = r ∨
      ∃ innermost, Unclosed (pos + width text) rest innermost ∧
        r = .error ⟨.neverClosed, innermost⟩)

theorem Reads.unclosed (h : Unclosed pos x innermost) :
    Reads stop pos x os done (.error ⟨.neverClosed, innermost⟩) :=
  ⟨[], x, [], rfl, .nil pos, by simp, .inr ⟨innermost, h, rfl⟩⟩

theorem Reads.gap (hg : Gap g) (h : Reads stop (pos + width g) x os done r) :
    Reads stop pos (g ++ x) os done r := by
  obtain ⟨text, rest, ts, rfl, hitems, hnodes, hread⟩ := h
  refine ⟨g ++ text, rest, ts, by simp, .gap hg hitems, hnodes, ?_⟩
  rwa [width_append, ← Nat.add_assoc]

theorem Reads.cons (hnode : os = [] → t.isNode = true)
    (hcons : ∀ {text rest ts}, x = text ++ rest → Items (pos + width tok) text ts →
      Items pos (tok ++ text) (t :: ts))
    (h : Reads stop (pos + width tok) x (placeAll [t] os done).1 (placeAll [t] os done).2 r) :
    Reads stop pos (tok ++ x) os done r := by
  obtain ⟨text, rest, ts, rfl, hitems, hnodes, hread⟩ := h
  refine ⟨tok ++ text, rest, t :: ts, by simp, hcons rfl hitems, fun he => ?_, ?_⟩
  · exact List.forall_mem_cons.2 ⟨hnode he, hnodes (placeAll_eq_nil_iff.2 he)⟩
  · rwa [width_append, ← Nat.add_assoc, ← List.singleton_append, placeAll_append]

theorem Reads.token (htok : Token x tok a)
    (h : Reads stop (pos + width tok) x
      (placeAll [.leaf a (some (Span.between pos (pos + width tok)))] (o :: os) done).1 done r) :
    Reads stop pos (tok ++ x) (o :: os) done r :=
  .cons (by simp) (fun hx => .leaf ((hx ▸ htok).left)) h

theorem Reads.form (hg : Gap g) (hw : Word w) (htag : tag? w = some tag) (hx : Stops x)
    (hinner : Reads stop (pos + 1 + width g + width w) x (⟨pos, tag, []⟩ :: os) done r)
    (hbehind : ∀ {y pos os done}, y.length < x.length →
      forms stop (scanFrom .between pos y) os done = r → Reads stop pos y os done r) :
    Reads stop pos ('(' :: (g ++ (w ++ x))) os done r := by
  obtain ⟨body, rest, cs, rfl, hitems, -, ⟨htail | ⟨y, rfl⟩, hread⟩ | ⟨innermost, hrest, rfl⟩⟩ :=
    hinner
  · rw [scanFrom_trailing htail] at hread
    subst hread
    exact .unclosed (.last hg hw htag hx.left hitems htail)
  · have htext : '(' :: (g ++ (w ++ (body ++ ')' :: y))) = formText g w body ++ y := by
      simp [formText]
    rw [resume, placeAll, forms_close, pos_formText, List.append_nil, List.reverse_reverse] at hread
    rw [htext]
    exact .cons (fun _ => rfl) (fun _ h => .form hg hw htag hx.left hitems h)
      (hbehind (by simp; omega) hread)
  · exact .unclosed (.inner hg hw htag hx.left hitems hrest)

theorem reads_of_forms (cs : List Char) (pos : Nat) (os : List Open) (done : List Tree)
    (h : forms stop (scanFrom .between pos cs) os done = r)
    (hr : ∀ e, r = .error e → e.cause = .neverClosed) :
    Reads stop pos cs os done r := by
  induction hn : cs.length using Nat.strongRecOn generalizing cs pos os done with
  | ind n ih =>
    -- by length, since a form is followed by what stands behind its closing parenthesis
    have ih : ∀ {cs pos os done}, cs.length < n →
        forms stop (scanFrom .between pos cs) os done = r →
        Reads stop pos cs os done r := fun hlt h => ih _ hlt _ _ _ _ h rfl
    have hlead := lead_scanFrom cs pos
    revert h
    generalize scanFrom .between pos cs = ls at hlead
    intro h
    cases hlead with
    | done htail =>
      refine ⟨[], cs, [], rfl, .nil _, by simp, .inl ⟨.inl htail, ?_⟩⟩
      rwa [scanFrom_trailing htail, placeAll_nil]
    | closing x hg =>
      refine .gap hg ⟨[], ')' :: x, [], rfl, .nil _, by simp, .inl ⟨.inr ⟨x, rfl⟩, ?_⟩⟩
      rwa [placeAll_nil]
    | unclosed x span => cases os <;> cases hr _ h.symm
    | @word g w x hg hw hx =>
      refine .gap hg ?_
      have hlt := List.length_pos_iff.2 hw.ne_nil
      simp only [List.length_append] at hn
      cases os with
      | nil => cases hr _ h.symm
      | cons o os =>
        cases ha : scalar? w with
        | none =>
          simp only [forms, ha] at h
          cases hr _ h.symm
        | some a =>
          rw [forms_word ha] at h
          exact .token (.word hw ha hx) (ih (by omega) h)
    | @quoted g body s x hg hq =>
      refine .gap hg ?_
      simp only [quotedText, List.length_append, List.length_cons] at hn
      cases os with
      | nil => cases hr _ h.symm
      | cons o os =>
        rw [forms_quoted] at h
        exact .token (.quoted hq) (ih (by omega) h)
    | @opening g x hg =>
      refine .gap hg ?_
      have hhead := lead_scanFrom x (pos + width g + 1)
      revert h
      generalize scanFrom .between (pos + width g + 1) x = ls at hhead
      intro h
      cases hhead with
      | done => cases hr _ h.symm
      | opening => cases hr _ h.symm
      | closing => cases hr _ h.symm
      | quoted => cases hr _ h.symm
      | unclosed => cases hr _ h.symm
      | @word g' w x hg' hw hx =>
        simp only [List.length_append, List.length_cons] at hn
        cases htag : tag? w with
        | none =>
          simp only [forms, htag] at h
          cases hr _ h.symm
        | some tag =>
          rw [forms_opening htag, Span.start_between] at h
          exact .form hg' hw htag hx (ih (by omega) h) fun hlt => ih (by omega)

-- ---------------------------------------------------------------------------
-- Whole texts
-- ---------------------------------------------------------------------------

theorem forms_eq_ok_iff {source : List Char} : forms stop (scan source) [] [] = .ok out ↔
    ∃ text tail, source = text ++ tail ∧ Trailing tail ∧ Items 0 text out.reverse ∧
      ∀ t ∈ out.reverse, t.isNode = true := by
  constructor
  · intro h
    obtain ⟨text, rest, ts, rfl, hitems, hnodes, ⟨htail | ⟨x, rfl⟩, hread⟩ | ⟨_, -, ⟨⟩⟩⟩ :=
      reads_of_forms source 0 [] [] h nofun
    · rw [scanFrom_trailing htail] at hread
      cases hread
      exact ⟨text, rest, rfl, htail, by simpa [placeAll] using hitems,
        by simpa [placeAll] using hnodes rfl⟩
    · cases hread
  · rintro ⟨text, tail, rfl, htail, hitems, hnodes⟩
    rw [scan, hitems.read htail.stops fun _ => hnodes, scanFrom_trailing htail]
    simp [resume, placeAll, forms]

theorem parseChars_eq_ok_iff {source : List Char} : parseChars source = .ok t ↔
    ∃ text tail ts, source = text ++ tail ∧ Trailing tail ∧ Items 0 text ts ∧
      (∀ t ∈ ts, t.isNode = true) ∧ wrap ts = .ok t := by
  rw [parseChars]
  constructor
  · intro h
    cases hforms : forms (width source) (scan source) [] [] with
    | error e => simp [hforms, Except.bind] at h
    | ok out =>
      obtain ⟨text, tail, hsource, htail, hitems, hnodes⟩ := forms_eq_ok_iff.1 hforms
      exact ⟨text, tail, _, hsource, htail, hitems, hnodes, by simpa [hforms, Except.bind] using h⟩
  · rintro ⟨text, tail, ts, hsource, htail, hitems, hnodes, hwrap⟩
    have hforms : forms (width source) (scan source) [] [] = .ok ts.reverse :=
      forms_eq_ok_iff.2 ⟨text, tail, hsource, htail, by simpa using hitems, by simpa using hnodes⟩
    simp [hforms, Except.bind, hwrap]

theorem forms_eq_neverClosed_iff {source : List Char} :
    forms stop (scan source) [] [] = .error ⟨.neverClosed, innermost⟩ ↔
      ∃ text rest ts, source = text ++ rest ∧ Items 0 text ts ∧ (∀ t ∈ ts, t.isNode = true) ∧
        Unclosed (width text) rest innermost := by
  constructor
  · intro h
    obtain ⟨text, rest, ts, rfl, hitems, hnodes, ⟨htail | ⟨x, rfl⟩, hread⟩ | ⟨_, hrest, ⟨⟩⟩⟩ :=
      reads_of_forms source 0 [] [] h fun e he => by cases he; rfl
    · rw [scanFrom_trailing htail] at hread
      cases hread
    · cases hread
    · rw [Nat.zero_add] at hrest
      exact ⟨text, rest, ts, rfl, hitems, hnodes rfl, hrest⟩
  · rintro ⟨text, rest, ts, rfl, hitems, hnodes, hrest⟩
    rw [scan, hitems.read hrest.stops fun _ => hnodes, Nat.zero_add, resume, hrest.read]

/-- The reader asks for a closing parenthesis where forms are followed by one that is not closed,
and points at the innermost one. -/
theorem parseChars_eq_neverClosed_iff {source : List Char} :
    parseChars source = .error ⟨.neverClosed, innermost⟩ ↔
      ∃ text rest ts, source = text ++ rest ∧ Items 0 text ts ∧ (∀ t ∈ ts, t.isNode = true) ∧
        Unclosed (width text) rest innermost := by
  have hforms : forms (width source) (scan source) [] [] = .error ⟨.neverClosed, innermost⟩ ↔ _ :=
    forms_eq_neverClosed_iff
  rw [← hforms, parseChars]
  cases forms (width source) (scan source) [] [] with
  | error e => simp [Except.bind]
  | ok done =>
    refine iff_of_false (fun h => ?_) nofun
    rcases hdone : done.reverse with _ | ⟨t, _ | ⟨u, us⟩⟩ <;>
      simp [Except.bind, wrap, hdone] at h

end TreeQuery.Sexp
