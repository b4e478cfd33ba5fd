import TreeQuery.Proofs.Sexp.Reader
import TreeQuery.Proofs.Text.Walk
import TreeQuery.Sexp.Walk

/-!
# The walk over a source reads what the reader reads

Every routine goes from one place between two characters to another one, and the lexemes that it
passes are those of the text between them (`follows_childrenLoop`). So reading by descent has the
trees and the errors of the reader of lexemes, with sound marks only (`exists_parse`).
-/

namespace TreeQuery.Sexp

open Text
open Lexeme (scanFrom)

variable {pos start stop : Nat} {cs read body s after rest w x : List Char} {c : Char}
  {ls : List Lexeme} {span : Span} {os : List Open} {done : List Tree}

-- ---------------------------------------------------------------------------
-- The lexemes of a text
-- ---------------------------------------------------------------------------

theorem Front.forms_noTag (h : Front pos cs ls) (hcs : Stops cs) (hend : cs = [] → stop = pos) :
    forms stop (⟨.opening, span⟩ :: ls) os done = .error ⟨.noTag, pos⟩ := by
  cases h with
  | nil => rw [← hend rfl]; rfl
  | word hw hx =>
    obtain ⟨c, w, rfl⟩ := List.exists_cons_of_ne_nil hw.ne_nil
    exact absurd (hw.isWord c List.mem_cons_self) (by simp [hcs c rfl])
  | _ => simp [forms]

theorem forms_strayClosing : forms stop (scanFrom .between pos (')' :: x)) [] done =
    .error ⟨.strayClosing, pos⟩ := by
  have hscan : scanFrom .between pos (')' :: x) =
      ⟨.closing, Span.between pos (pos + 1)⟩ :: scanFrom .between (pos + 1) x := rfl
  rw [hscan]
  simp [forms]

theorem Front.forms_notAForm (h : Front pos cs ls) (hne : cs ≠ []) (hopen : cs.head? ≠ some '(')
    (hclose : cs.head? ≠ some ')') : forms stop ls [] done = .error ⟨.notAForm, pos⟩ := by
  cases h with
  | nil => exact absurd rfl hne
  | opening => exact absurd rfl hopen
  | closing => exact absurd rfl hclose
  | _ => simp [forms]

-- ---------------------------------------------------------------------------
-- Quoted texts
-- ---------------------------------------------------------------------------

theorem unquote_some (h : Quotes body s) (read : List Char) (pos : Nat) (after : List Char) :
    Walk.unquote read (offsetsFrom pos (body ++ '"' :: after)) =
      some (read ++ s, pos + width body) := by
  induction h generalizing read pos with
  | nil => simp [offsetsFrom, Walk.unquote]
  | plain _ hslash _ ih =>
    simp [offsetsFrom, Walk.unquote, hslash, ih, Nat.add_assoc]
  | escape c _ ih => simp [offsetsFrom, Walk.unquote, ih, Nat.add_assoc]

theorem unquote_none (h : Unterminated cs) (read : List Char) (pos : Nat) :
    Walk.unquote read (offsetsFrom pos cs) = none := by
  induction h generalizing read pos with
  | nil | backslash => rfl
  | plain _ hslash _ ih => simp [offsetsFrom, Walk.unquote, hslash, ih]
  | escape c _ ih => simp [offsetsFrom, Walk.unquote, ih]

namespace Walk

open Text.Walk

variable {source : List Char} {p q r : Place Unit} {e : Error} {α : Type}
  {out : Except Error (List Tree)}

-- ---------------------------------------------------------------------------
-- Routines on single lexemes
-- ---------------------------------------------------------------------------

theorem uniform_isWord : Uniform Lexeme.isWord :=
  uniform_of_eq (b := true) fun c hc => by simp [Lexeme.isWord, isBlank, ne_of_toNat_lt hc]

theorem uniform_isBlank : Uniform isBlank :=
  uniform_of_eq (b := false) fun c hc => by simp [isBlank, ne_of_toNat_lt hc]

theorem leads_word (hrest : p.rest = w ++ x) (hw : ∀ c ∈ w, Lexeme.isWord c = true)
    (hx : Stops x) : Leads source (word source) p w (p.after w x) := by
  have hmove : Leads source (moveWhile source Lexeme.isWord : Reader Unit) p () (p.after w x) := by
    have h : Leads source (moveWhile source Lexeme.isWord : Reader Unit) p () _ :=
      leads_moveWhile uniform_isWord
    rwa [hrest, Ends.takeWhile hx hw, Ends.dropWhile hx hw] at h
  refine .of_in fun hin => ?_
  exact .within (.bind leads_position (.bind hmove (.bind leads_position
    (leads_take (hin.slice? hrest)))))

/-- There are no lexemes between the places. -/
structure Skips (p q : Place Unit) : Prop where
  reaches : p.Reaches q
  lexemes : scanFrom .between p.pos p.rest = scanFrom .between q.pos q.rest

theorem Skips.refl (p : Place Unit) : Skips p p := ⟨.refl p, rfl⟩

theorem Skips.trans (hpq : Skips p q) (hqr : Skips q r) : Skips p r :=
  ⟨hpq.reaches.trans hqr.reaches, hpq.lexemes.trans hqr.lexemes⟩

theorem utf8Size_of_isBlank (hc : isBlank c = true) : c.utf8Size = 1 := by
  simp only [isBlank, Bool.or_eq_true, beq_iff_eq] at hc
  rcases hc with (((rfl | rfl) | rfl) | rfl) | rfl <;> rfl

theorem skips_blank (hc : isBlank c = true) : Skips ⟨pos, c :: rest, ()⟩ ⟨pos + 1, rest, ()⟩ := by
  have hsize := utf8Size_of_isBlank hc
  refine ⟨⟨[c], rfl, by simp [hsize]⟩, ?_⟩
  rw [scanFrom_cons]
  simp [Lexeme.step, begin_blank hc, hsize]

theorem skips_line (pos : Nat) (rest : List Char) :
    Skips ⟨pos, ';' :: rest, ()⟩ (.after ⟨pos, ';' :: rest, ()⟩
      ((';' :: rest).takeWhile (· != '\n')) ((';' :: rest).dropWhile (· != '\n'))) := by
  refine ⟨Place.reaches_after List.takeWhile_append_dropWhile.symm, ?_⟩
  have hline : scanFrom .between pos (';' :: rest) = scanFrom .comment (pos + 1) rest := rfl
  have hsize : Char.utf8Size ';' = 1 := rfl
  rw [hline, scanFrom_line]
  simp [Place.after, hsize, Nat.add_assoc]

theorem leads_triviaLoop {n : Nat} (h : width p.rest < n) :
    ∃ q, Leads source (triviaLoop source n) p () q ∧ Skips p q ∧ Bare q.rest := by
  induction n generalizing p with
  | zero => exact absurd h (Nat.not_lt_zero _)
  | succ n ih =>
    have loop {q : Place Unit} (hskip : Skips p q) (hlt : p.pos < q.pos) :
        ∃ r, Leads source (do turn .trivia p.pos; triviaLoop source n) q () r ∧ Skips p r ∧
          Bare r.rest := by
      have hwidth := hskip.reaches.width_add
      obtain ⟨r, hr, hqr, hbare⟩ := ih (p := q) (by omega)
      exact ⟨r, .bind (leads_turn hlt) hr, hskip.trans hqr, hbare⟩
    obtain ⟨pos, rest, ⟨⟩⟩ := p
    rw [triviaLoop]
    cases rest with
    | nil => exact ⟨_, .bind leads_position (.bind leads_peek .pure), .refl _, nofun⟩
    | cons c rest =>
      by_cases hsemi : c = ';'
      · subst hsemi
        have hinitial : initial ';' = ';' := initial_eq (by decide)
        have hsize : 0 < Char.utf8Size ';' := Char.utf8Size_pos _
        obtain ⟨r, hr, hskip⟩ := loop (skips_line pos rest)
          (by simp [Place.after, Nat.add_pos_left hsize])
        refine ⟨r, .bind leads_position (.bind leads_peek ?_), hskip⟩
        simp only [List.head?_cons, Option.map_some, hinitial, if_true]
        exact .bind (leads_moveWhile (uniform_ne (by decide))) hr
      have hinitial : initial c ≠ ';' := mt (initial_eq_iff (by decide)).1 hsemi
      cases hblank : isBlank c with
      | true =>
        obtain ⟨r, hr, hskip⟩ := loop (skips_blank hblank) (Nat.lt_succ_self pos)
        refine ⟨r, .bind leads_position (.bind leads_peek ?_), hskip⟩
        simp only [List.head?_cons, Option.map_some, hinitial, if_false, uniform_isBlank.initial,
          hblank, if_true]
        exact .bind (leads_move_one rfl (utf8Size_of_isBlank hblank)) hr
      | false =>
        refine ⟨_, .bind leads_position (.bind leads_peek ?_), .refl _, ?_⟩
        · simp only [List.head?_cons, Option.map_some, hinitial, if_false, uniform_isBlank.initial,
            hblank, Bool.false_eq_true]
          exact .pure
        · rintro d ⟨⟩
          exact ⟨hblank, hsemi⟩

theorem leads_trivia (hin : p.In source) :
    ∃ q, Leads source (trivia source) p () q ∧ Skips p q ∧ Bare q.rest := by
  obtain ⟨q, hq, hskip, hbare⟩ := leads_triviaLoop hin.lt_turns
  exact ⟨q, .within hq, hskip, hbare⟩

theorem leads_quoted (hbody : Quotes body s) (hrest : p.rest = quotedText body ++ x) :
    Leads source (quoted source) p
      (.ok (.leaf (.str (String.ofList s))
        (some (Span.between p.pos (p.pos + width (quotedText body))))))
      (p.after (quotedText body) x) := by
  have htext : quotedText body ++ x = '"' :: (body ++ '"' :: x) := by simp [quotedText]
  have hwidth : 0 + width body + 1 = width (body ++ ['"']) := by simp [Char.utf8Size]
  have hpos : p.pos + width (quotedText body) = p.pos + 1 + width (body ++ ['"']) := by
    simp [quotedText, Char.utf8Size, Nat.add_assoc]
  have hmove : Leads source (move (width (body ++ ['"'])) : Reader Unit)
      ⟨p.pos + 1, body ++ '"' :: x, p.store⟩ () (p.after (quotedText body) x) := by
    rw [Place.after, hpos]
    exact leads_move (by simp)
  refine .within (.bind leads_position (.bind (leads_move_one (hrest.trans htext) rfl)
    (.bind leads_position (.bind leads_take_rest ?_))))
  rw [unquote_some hbody]
  dsimp only
  rw [hwidth]
  exact .bind hmove (.bind leads_position .pure)

theorem leads_quoted_error (h : Unterminated x) (hrest : p.rest = '"' :: x) :
    Leads source (quoted source) p (.error ⟨.unclosedText, p.pos⟩) ⟨p.pos + 1, x, p.store⟩ := by
  refine .within (.bind leads_position (.bind (leads_move_one hrest rfl)
    (.bind leads_position (.bind leads_take_rest ?_))))
  rw [unquote_none h]
  exact .pure

theorem leads_tag (hrest : p.rest = w ++ x) (hw : ∀ c ∈ w, Lexeme.isWord c = true) (hx : Stops x) :
    Leads source (tag source) p
      (match tag? w with | none => .error ⟨.noTag, p.pos⟩ | some tag => .ok tag) (p.after w x) := by
  refine .within (.bind leads_position (.bind (leads_word hrest hw hx) ?_))
  cases tag? w <;> exact .pure

theorem leads_atom (hrest : p.rest = w ++ x) (hw : Word w) (hx : Stops x) :
    Leads source (atom source) p
      (match scalar? w with
        | none => .error ⟨.badNumber w, p.pos⟩
        | some a => .ok (.leaf a (some (Span.between p.pos (p.pos + width w))))) (p.after w x) := by
  refine .within (.bind leads_position (.bind (leads_word hrest hw.isWord hx)
    (.bind leads_position ?_)))
  cases scalar? w <;> exact .pure

-- ---------------------------------------------------------------------------
-- Forms
-- ---------------------------------------------------------------------------

def answer (source : List Char) (p : Place Unit) (os : List Open) (done : List Tree) :
    Except Error (List Tree) :=
  Sexp.forms (width source) (scanFrom .between p.pos p.rest) os done

theorem Skips.answer (h : Skips p q) (source : List Char) (os : List Open) (done : List Tree) :
    answer source p os done = answer source q os done := by
  rw [Walk.answer, Walk.answer, h.lexemes]

/-- The walk has the error of the reader, or a tree behind which the reader goes on; `out` is the
answer of the reader. -/
inductive Follows (source : List Char) (os : List Open) (done : List Tree)
    (x : Reader (Except Error Tree)) (p : Place Unit) (out : Except Error (List Tree)) : Prop
  | ok {t : Tree} {q : Place Unit} : Leads source x p (.ok t) q → p.Reaches q → p.pos < q.pos →
      out = answer source q (placeAll [t] os done).1 (placeAll [t] os done).2 →
      Follows source os done x p out
  | error {e : Error} {q : Place Unit} : Leads source x p (.error e) q → out = .error e →
      Follows source os done x p out

theorem Follows.within {i : Routine} {y : Reader (Except Error Tree)}
    (h : Follows source os done y p out) :
    Follows source os done (Text.Walk.within i y) p out := by
  cases h with
  | ok hy hreach hlt hout => exact .ok hy.within hreach hlt hout
  | error hy hout => exact .error hy.within hout

theorem Follows.bind {y : Reader α} {v : α} {g : α → Reader (Except Error Tree)}
    (hy : Leads source y p v q) (hreach : p.Reaches q) (h : Follows source os done (g v) q out) :
    Follows source os done (y >>= g) p out := by
  cases h with
  | ok hg hqr hlt hout =>
    exact .ok (.bind hy hg) (hreach.trans hqr) (Nat.lt_of_le_of_lt hreach.pos_le hlt) hout
  | error hg hout => exact .error (.bind hy hg) hout

variable {o : Open}

theorem follows_atom (hrest : p.rest = w ++ x) (hw : Word w) (hx : Stops x) :
    Follows source (o :: os) done (atom source) p (answer source p (o :: os) done) := by
  have hatom : Leads source (atom source) p _ _ := leads_atom hrest hw hx
  rw [answer, hrest, hw.scanFrom_between hx]
  cases ha : scalar? w with
  | none =>
    rw [ha] at hatom
    exact .error hatom (by simp [Sexp.forms, ha])
  | some a =>
    rw [ha] at hatom
    exact .ok hatom (Place.reaches_after hrest) (Place.lt_after hw.ne_nil) (forms_word ha)

theorem follows_quoted (hbody : Quotes body s) (hrest : p.rest = quotedText body ++ x) :
    Follows source (o :: os) done (quoted source) p (answer source p (o :: os) done) := by
  refine .ok (leads_quoted hbody hrest) (Place.reaches_after hrest)
    (Place.lt_after (List.cons_ne_nil _ _)) ?_
  rw [answer, hrest, hbody.scanFrom_between, forms_quoted]
  rfl

theorem follows_unclosed (h : Unterminated x) (hrest : p.rest = '"' :: x) :
    Follows source (o :: os) done (quoted source) p (answer source p (o :: os) done) := by
  refine .error (leads_quoted_error h hrest) ?_
  rw [answer, hrest, h.scanFrom_between]
  simp [Sexp.forms]

theorem follows_form {children : Nat → String → Reader (Except Error Tree)} (hin : p.In source)
    (hrest : p.rest = '(' :: rest)
    (h : ∀ q tag, p.Reaches q → p.pos < q.pos → Follows source os done (children p.pos tag) q
      (answer source q (⟨p.pos, tag, []⟩ :: os) done)) :
    Follows source os done (form source children) p (answer source p os done) := by
  have hopen : p.Reaches ⟨p.pos + 1, rest, ()⟩ := ⟨['('], hrest, rfl⟩
  obtain ⟨q, hq, hskip, hbare⟩ := leads_trivia (hopen.inside hin)
  have hreach : p.Reaches q := hopen.trans hskip.reaches
  have hlt : p.pos < q.pos := Nat.lt_of_succ_le hskip.reaches.pos_le
  have hanswer : answer source p os done = Sexp.forms (width source)
      (⟨.opening, Span.between p.pos (p.pos + 1)⟩ :: scanFrom .between q.pos q.rest) os done := by
    rw [answer, hrest, ← hskip.lexemes]
    rfl
  rw [hanswer]
  refine .within (.bind leads_position (.refl _) (.bind (leads_move_one hrest rfl) hopen
    (.bind hq hskip.reaches ?_)))
  obtain ⟨w, x, hrest, hw, hx⟩ := word_cases q.rest
  refine .bind (leads_tag hrest hw hx) (Place.reaches_after hrest) ?_
  cases w with
  | nil =>
    refine .error .pure ((front_scanFrom _ hbare).forms_noTag (hrest ▸ hx) fun hend => ?_)
    have hwidth := (hreach.inside hin).add_width
    rw [hend] at hwidth
    exact hwidth.symm
  | cons c w =>
    have hcw : Word (c :: w) := ⟨List.cons_ne_nil _ _, hw⟩
    rw [hrest, hcw.scanFrom_between hx]
    cases htag : tag? (c :: w) with
    | none => exact .error .pure (by simp [Sexp.forms, htag])
    | some tag =>
      have hafter : p.Reaches (q.after (c :: w) x) := hreach.trans (Place.reaches_after hrest)
      have hchildren := h _ tag hafter (Nat.lt_trans hlt (Place.lt_after (List.cons_ne_nil c w)))
      rw [forms_opening htag, Span.start_between]
      exact hchildren

theorem Follows.turn {os' : List Open} {done' : List Tree} {child : Reader (Except Error Tree)}
    {next : Tree → Reader (Except Error Tree)} {n : Nat} (h : Follows source os' done' child p out)
    (hn : n ≤ p.pos)
    (hnext : ∀ t q, p.Reaches q → p.pos < q.pos → Follows source os done (next t) q
      (answer source q (placeAll [t] os' done').1 (placeAll [t] os' done').2)) :
    Follows source os done (do
      match ← child with
      | .error e => return .error e
      | .ok t =>
        Text.Walk.turn .form n
        next t) p out := by
  cases h with
  | error hx hout => exact .error (.bind hx .pure) hout
  | @ok t q hx hreach hlt hout =>
    rw [hout]
    exact .bind hx hreach
      (.bind (leads_turn (Nat.lt_of_le_of_lt hn hlt)) (.refl q) (hnext t q hreach hlt))

theorem follows_childrenLoop {n start : Nat} {tag : String} {read : List Tree}
    (hin : p.In source) (h : width p.rest < n) :
    Follows source os done (childrenLoop source n read start tag) p
      (answer source p (⟨start, tag, read⟩ :: os) done) := by
  induction n generalizing p read start tag os done with
  | zero => exact absurd h (Nat.not_lt_zero _)
  | succ n ih =>
    obtain ⟨q, hq, hskip, hbare⟩ := leads_trivia hin
    have hin : q.In source := hskip.reaches.inside hin
    -- what is behind the child is less than what is left
    have hless : ∀ {r : Place Unit}, q.Reaches r → q.pos < r.pos → width r.rest < n := by
      intro r hreach hlt
      have hfrom := (hskip.reaches.trans hreach).width_add
      have hle := hskip.reaches.pos_le
      omega
    have goes_on {child : Reader (Except Error Tree)}
        (hchild : Follows source (⟨start, tag, read⟩ :: os) done child q
          (answer source q (⟨start, tag, read⟩ :: os) done)) :=
      hchild.turn hskip.reaches.pos_le
        fun t r hreach hlt => ih (p := r) (hreach.inside hin) (hless hreach hlt)
    rw [childrenLoop, hskip.answer]
    refine .bind leads_position (.refl p) (.bind hq hskip.reaches (.bind leads_peek (.refl q) ?_))
    have hfront := front_scanFrom q.pos hbare
    generalize scanFrom .between q.pos q.rest = ls at hfront
    generalize hrest : q.rest = cs at hfront ⊢
    cases hfront with
    | nil =>
      refine .error .pure ?_
      rw [answer, hrest]
      rfl
    | opening x =>
      simp only [List.head?_cons, Option.map_some, initial_eq_iff, Char.reduceToNat, Nat.reduceLT,
        Char.reduceEq, if_true, if_false]
      exact goes_on (follows_form hin hrest fun r tag hreach hlt =>
        ih (hreach.inside hin) (hless hreach hlt))
    | closing x =>
      have hreach : q.Reaches ⟨q.pos + 1, x, ()⟩ := ⟨[')'], hrest, rfl⟩
      simp only [List.head?_cons, Option.map_some, initial_eq_iff, Char.reduceToNat, Nat.reduceLT,
        if_true]
      refine .ok (.bind (leads_move_one hrest rfl) (.bind leads_position .pure)) hreach
        (Nat.lt_succ_self _) ?_
      rw [answer, hrest, forms_close]
      rfl
    | @word w x hw hx =>
      obtain ⟨c, w, rfl⟩ := List.exists_cons_of_ne_nil hw.ne_nil
      have hc := hw.isWord c List.mem_cons_self
      have hne : ∀ d : Char, d.toNat < 128 → Lexeme.isWord d = false → initial c ≠ d :=
        fun d hd hword => mt (initial_eq_iff hd).1 (ne_of_class hc hword)
      simp only [List.cons_append, List.head?_cons, Option.map_some, hne ')' (by decide) rfl,
        hne '(' (by decide) rfl, hne '"' (by decide) rfl, if_false]
      exact goes_on (follows_atom hrest hw hx)
    | quoted x hbody =>
      simp only [quotedText, List.cons_append, List.head?_cons, Option.map_some, initial_eq_iff,
        Char.reduceToNat, Nat.reduceLT, Char.reduceEq, if_true, if_false]
      exact goes_on (follows_quoted hbody hrest)
    | unclosed hx =>
      simp only [List.head?_cons, Option.map_some, initial_eq_iff, Char.reduceToNat, Nat.reduceLT,
        Char.reduceEq, if_true, if_false]
      exact goes_on (follows_unclosed hx hrest)

theorem leads_formsLoop {n : Nat} {read : List Tree} (hin : p.In source) (h : width p.rest < n) :
    ∃ q, Leads source (formsLoop source n read) p (answer source p [] read) q := by
  induction n generalizing p read with
  | zero => exact absurd h (Nat.not_lt_zero _)
  | succ n ih =>
    obtain ⟨q, hq, hskip, hbare⟩ := leads_trivia hin
    have hin : q.In source := hskip.reaches.inside hin
    suffices hbody : ∃ r, Leads source _ q (answer source q [] read) r by
      obtain ⟨r, hr⟩ := hbody
      rw [hskip.answer]
      exact ⟨r, .bind leads_position (.bind hq (.bind leads_peek hr))⟩
    cases hrest : q.rest with
    | nil =>
      rw [answer, hrest]
      exact ⟨q, .pure⟩
    | cons c x =>
      simp only [List.head?_cons, Option.map_some, initial_eq_iff, Char.reduceToNat, Nat.reduceLT]
      by_cases hopen : c = '('
      · subst hopen
        have hform : Follows source [] read (form source (childrenLoop source (turns source) [])) q
            (answer source q [] read) := by
          refine follows_form hin hrest fun r tag hreach hlt => ?_
          exact follows_childrenLoop (hreach.inside hin) (hreach.inside hin).lt_turns
        rw [if_pos rfl]
        cases hform with
        | error hx hout =>
          rw [hout]
          exact ⟨_, .bind hx .pure⟩
        | @ok t r hx hreach hlt hout =>
          have hfrom := hskip.reaches.trans hreach
          have hpos : p.pos < r.pos := Nat.lt_of_le_of_lt hskip.reaches.pos_le hlt
          have hwidth := hfrom.width_add
          obtain ⟨r', hr'⟩ : ∃ r', Leads source (formsLoop source n (t :: read)) r _ r' :=
            ih (hreach.inside hin) (by omega)
          rw [hout]
          exact ⟨r', .bind hx (.bind (leads_turn hpos) hr')⟩
      rw [if_neg hopen]
      by_cases hclose : c = ')'
      · subst hclose
        rw [if_pos rfl, answer, hrest, forms_strayClosing]
        exact ⟨q, .bind leads_position .pure⟩
      · have hanswer : answer source q [] read = .error ⟨.notAForm, q.pos⟩ :=
          (front_scanFrom q.pos hbare).forms_notAForm (by simp [hrest])
            (by simpa [hrest] using hopen) (by simpa [hrest] using hclose)
        rw [if_neg hclose, hanswer]
        exact ⟨q, .bind leads_position .pure⟩

/-- The walk comes to an end with the answer of the reader, and all its marks are sound. -/
theorem exists_parse (source : List Char) :
    ∃ c, parse source = some (parseChars source, c) ∧ ∀ m ∈ c.marks, m.Sound source := by
  have hin : Place.In source (⟨0, source, ()⟩ : Place Unit) := ⟨[], rfl, rfl⟩
  obtain ⟨q, hq⟩ : ∃ q, Leads source (formsLoop source (turns source) []) _ _ q :=
    leads_formsLoop hin hin.lt_turns
  obtain ⟨made, hrun, -, hmade⟩ := hq.within (i := .forms) hin []
  rw [List.append_nil] at hrun
  refine ⟨⟨q.pos, q.store, made⟩, ?_, hmade⟩
  rw [parse, forms, hrun]
  rfl

example : ((parse ['(', 'é', ' ', '1', ')']).map fun r => r.2.marks.reverse.filterMap fun
    | .turn i start stop => some (i, start, stop)
    | _ => none) = some [(.trivia, 3, 4), (.form, 3, 5), (.forms, 0, 6)] := by
  decide +kernel

end Walk

end TreeQuery.Sexp
