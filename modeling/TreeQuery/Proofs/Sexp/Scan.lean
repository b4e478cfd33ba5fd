import TreeQuery.Proofs.Sexp.Notation
import TreeQuery.Proofs.Text.Class

/-!
# What the scan makes of a text

The scan passes over gaps, ends a word where it stops, and reads a quoted text up to its closing
quote. `Front` lists the ways in which a text can begin that has no gap in front, and `Lead` those
of any text; `front_scanFrom` and `lead_scanFrom` say that there are no others.
-/

namespace TreeQuery.Sexp

open Text (Ends width isBlank width_cons width_append)
open Lexeme

variable {pos start : Nat} {g line w x body s read : List Char}

-- ---------------------------------------------------------------------------
-- Passing over one piece
-- ---------------------------------------------------------------------------

theorem scanFrom_cons (st : State) (pos : Nat) (c : Char) (cs : List Char) :
    scanFrom st pos (c :: cs) =
      (step pos c st).1 ++ scanFrom (step pos c st).2 (pos + c.utf8Size) cs := rfl

theorem scanFrom_line (pos : Nat) (cs : List Char) :
    scanFrom .comment pos cs = scanFrom .between (pos + width (cs.takeWhile (· != '\n')))
      (cs.dropWhile (· != '\n')) := by
  induction cs generalizing pos with
  | nil => rfl
  | cons c cs ih =>
    by_cases hc : c = '\n'
    · subst hc
      rfl
    · rw [scanFrom_cons]
      simp [step, hc, ih, Nat.add_assoc]

theorem scanFrom_comment (h : '\n' ∉ line) :
    scanFrom .comment pos (line ++ '\n' :: x) = scanFrom .between (pos + width line + 1) x := by
  have hline : ∀ c ∈ line, (c != '\n') = true := fun c hc => bne_iff_ne.2 fun he => h (he ▸ hc)
  have hend : Ends (· != '\n') ('\n' :: x) := .cons rfl
  rw [scanFrom_line, hend.takeWhile hline, hend.dropWhile hline]
  rfl

theorem scanFrom_comment_end (h : '\n' ∉ line) : scanFrom .comment pos line = [] := by
  have hline : ∀ c ∈ line, (c != '\n') = true := fun c hc => bne_iff_ne.2 fun he => h (he ▸ hc)
  have hdrop := Ends.nil.dropWhile hline
  rw [List.append_nil] at hdrop
  rw [scanFrom_line, hdrop]
  rfl

theorem begin_blank {c : Char} (hc : isBlank c = true) : begin pos c = (none, .between) := by
  have hne : c ≠ '(' ∧ c ≠ ')' ∧ c ≠ '"' ∧ c ≠ ';' := by
    refine ⟨?_, ?_, ?_, ?_⟩ <;> rintro rfl <;> exact absurd hc (by decide)
  simp [begin, hne, hc]

theorem begin_word {c : Char} (hc : isWord c = true) : begin pos c = (none, .word pos [c]) := by
  simp only [isWord, Bool.and_eq_true, Bool.not_eq_true', bne_iff_ne, ne_eq] at hc
  obtain ⟨⟨⟨⟨hblank, hopen⟩, hclose⟩, hquote⟩, hsemi⟩ := hc
  simp [begin, hblank, hopen, hclose, hquote, hsemi]

theorem scanFrom_gap (h : Gap g) :
    scanFrom .between pos (g ++ x) = scanFrom .between (pos + width g) x := by
  induction h generalizing pos with
  | nil => rfl
  | blank hc _ ih =>
    rw [List.cons_append, scanFrom_cons]
    simp only [step, begin_blank hc, Option.toList_none, List.nil_append, ih, width_cons,
      Nat.add_assoc]
  | @comment line g hline _ ih =>
    rw [List.cons_append, scanFrom_cons, List.append_assoc, List.cons_append]
    have hstep : step pos ';' .between = ([], .comment) := rfl
    have hwidth : Char.utf8Size ';' = 1 ∧ Char.utf8Size '\n' = 1 := by decide
    simp only [hstep, List.nil_append, scanFrom_comment hline, ih, width_cons, width_append, hwidth]
    congr 1
    omega

theorem scanFrom_trailing (h : Trailing x) : scanFrom .between pos x = [] := by
  cases h with
  | gap hg => simpa [scanFrom, finish] using scanFrom_gap hg (x := [])
  | comment hg hline =>
    rw [scanFrom_gap hg]
    exact scanFrom_comment_end hline

theorem scanFrom_stops (h : Stops x) : scanFrom (.word start read) pos x =
    ⟨.word read.reverse, Span.between start pos⟩ :: scanFrom .between pos x := by
  cases x with
  | nil => rfl
  | cons c x =>
    have hc : isWord c = false := h c rfl
    rw [scanFrom_cons, scanFrom_cons]
    simp [step, hc]

theorem scanFrom_word (hw : ∀ c ∈ w, isWord c = true) (hx : Stops x) :
    scanFrom (.word start read) pos (w ++ x) =
      ⟨.word (read.reverse ++ w), Span.between start (pos + width w)⟩ ::
        scanFrom .between (pos + width w) x := by
  induction w generalizing pos read with
  | nil => simpa using scanFrom_stops hx
  | cons c w ih =>
    have hc := hw c List.mem_cons_self
    rw [List.cons_append, scanFrom_cons]
    simp only [step, hc, ↓reduceIte, List.nil_append]
    rw [ih fun d hd => hw d (List.mem_cons_of_mem _ hd)]
    simp [Nat.add_assoc]

theorem Word.scanFrom_between (hw : Word w) (hx : Stops x) :
    scanFrom .between pos (w ++ x) =
      ⟨.word w, Span.between pos (pos + width w)⟩ ::
        scanFrom .between (pos + width w) x := by
  obtain ⟨hne, hw⟩ := hw
  cases w with
  | nil => exact absurd rfl hne
  | cons c w =>
    have hc := hw c List.mem_cons_self
    rw [List.cons_append, scanFrom_cons]
    simp only [step, begin_word hc, Option.toList_none, List.nil_append]
    rw [scanFrom_word (fun d hd => hw d (List.mem_cons_of_mem _ hd)) hx]
    simp [Nat.add_assoc]

theorem Quotes.scanFrom_quoted (h : Quotes body s) :
    scanFrom (.quoted start read) pos (body ++ '"' :: x) =
      ⟨.quoted (read.reverse ++ s), Span.between start (pos + width body + 1)⟩ ::
        scanFrom .between (pos + width body + 1) x := by
  induction h generalizing pos read with
  | nil => simp [scanFrom_cons, step, Char.utf8Size]
  | plain hquote hslash _ ih =>
    rw [List.cons_append, scanFrom_cons]
    simp only [step, hquote, hslash, ↓reduceIte, List.nil_append, ih]
    simp [Nat.add_assoc]
  | escape c _ ih =>
    rw [List.cons_append, List.cons_append, scanFrom_cons, scanFrom_cons]
    simp only [step, ih, Char.reduceEq, ↓reduceIte, List.nil_append]
    simp [Nat.add_assoc]

theorem Quotes.scanFrom_between (h : Quotes body s) :
    scanFrom .between pos (quotedText body ++ x) =
      ⟨.quoted s, Span.between pos (pos + width (quotedText body))⟩ ::
        scanFrom .between (pos + width (quotedText body)) x := by
  have hstep : step pos '"' .between = ([], .quoted pos []) := rfl
  have hwidth : pos + width (quotedText body) = pos + 1 + width body + 1 := by
    simp [quotedText, Char.utf8Size]
    omega
  rw [quotedText, List.cons_append, List.append_assoc, List.singleton_append, scanFrom_cons, hstep,
    List.nil_append, h.scanFrom_quoted, ← quotedText, hwidth]
  rfl

theorem Unterminated.scanFrom_quoted (h : Unterminated x) :
    scanFrom (.quoted start read) pos x = [⟨.unclosed, Span.between start (pos + width x)⟩] := by
  induction h generalizing pos read with
  | nil | backslash => rfl
  | plain hquote hslash _ ih =>
    rw [scanFrom_cons]
    simp only [step, hquote, hslash, ↓reduceIte, List.nil_append, ih, width_cons, Nat.add_assoc]
  | escape c _ ih =>
    rw [scanFrom_cons, scanFrom_cons]
    simp only [step, ih, Char.reduceEq, ↓reduceIte, List.nil_append, width_cons, Nat.add_assoc]

theorem Unterminated.scanFrom_between (h : Unterminated x) :
    scanFrom .between pos ('"' :: x) =
      [⟨.unclosed, Span.between pos (pos + width ('"' :: x))⟩] := by
  rw [scanFrom_cons, width_cons, ← Nat.add_assoc]
  exact h.scanFrom_quoted

-- ---------------------------------------------------------------------------
-- How a text begins
-- ---------------------------------------------------------------------------

theorem word_cases (cs : List Char) :
    ∃ w x, cs = w ++ x ∧ (∀ c ∈ w, isWord c = true) ∧ Stops x :=
  ⟨cs.takeWhile isWord, cs.dropWhile isWord, List.takeWhile_append_dropWhile.symm,
    fun c hc => List.all_eq_true.1 List.all_takeWhile c hc, Text.ends_dropWhile isWord cs⟩

/-- No blank and no comment begins here. -/
def Bare (cs : List Char) : Prop := ∀ c, cs.head? = some c → isBlank c = false ∧ c ≠ ';'

/-- The lexemes of a bare text by its first characters. -/
inductive Front (pos : Nat) : List Char → List Lexeme → Prop
  | nil : Front pos [] []
  | opening (x : List Char) : Front pos ('(' :: x)
      (⟨.opening, Span.between pos (pos + 1)⟩ :: scanFrom .between (pos + 1) x)
  | closing (x : List Char) : Front pos (')' :: x)
      (⟨.closing, Span.between pos (pos + 1)⟩ :: scanFrom .between (pos + 1) x)
  | word {w x : List Char} : Word w → Stops x → Front pos (w ++ x)
      (⟨.word w, Span.between pos (pos + width w)⟩ :: scanFrom .between (pos + width w) x)
  | quoted {body s : List Char} (x : List Char) : Quotes body s → Front pos (quotedText body ++ x)
      (⟨.quoted s, Span.between pos (pos + width (quotedText body))⟩ ::
        scanFrom .between (pos + width (quotedText body)) x)
  | unclosed {x : List Char} : Unterminated x →
      Front pos ('"' :: x) [⟨.unclosed, Span.between pos (pos + width ('"' :: x))⟩]

theorem front_scanFrom (pos : Nat) (h : Bare cs) : Front pos cs (scanFrom .between pos cs) := by
  cases cs with
  | nil => exact .nil
  | cons c cs =>
    obtain ⟨hblank, hsemi⟩ := h c rfl
    by_cases hopen : c = '('
    · subst hopen
      exact .opening cs
    by_cases hclose : c = ')'
    · subst hclose
      exact .closing cs
    by_cases hquote : c = '"'
    · subst hquote
      rcases quoted_cases cs with ⟨body, s, x, hbody, rfl⟩ | hcs
      · have htext : '"' :: (body ++ '"' :: x) = quotedText body ++ x := by simp [quotedText]
        rw [htext, hbody.scanFrom_between]
        exact .quoted x hbody
      · rw [hcs.scanFrom_between]
        exact .unclosed hcs
    · have hword : isWord c = true := by
        simp [isWord, hblank, hsemi, hopen, hclose, hquote]
      obtain ⟨w, x, rfl, hw, hx⟩ := word_cases cs
      have hcw : Word (c :: w) := ⟨List.cons_ne_nil _ _, List.forall_mem_cons.2 ⟨hword, hw⟩⟩
      rw [← List.cons_append, hcw.scanFrom_between hx]
      exact .word hcw hx

inductive Lead (pos : Nat) : List Char → List Lexeme → Prop
  | done {x : List Char} : Trailing x → Lead pos x []
  | opening {g : List Char} (x : List Char) : Gap g → Lead pos (g ++ '(' :: x)
      (⟨.opening, Span.between (pos + width g) (pos + width g + 1)⟩ ::
        scanFrom .between (pos + width g + 1) x)
  | closing {g : List Char} (x : List Char) : Gap g → Lead pos (g ++ ')' :: x)
      (⟨.closing, Span.between (pos + width g) (pos + width g + 1)⟩ ::
        scanFrom .between (pos + width g + 1) x)
  | word {g w x : List Char} : Gap g → Word w → Stops x → Lead pos (g ++ (w ++ x))
      (⟨.word w, Span.between (pos + width g) (pos + width g + width w)⟩ ::
        scanFrom .between (pos + width g + width w) x)
  | quoted {g body s : List Char} (x : List Char) : Gap g → Quotes body s →
      Lead pos (g ++ (quotedText body ++ x))
        (⟨.quoted s, Span.between (pos + width g) (pos + width g + width (quotedText body))⟩ ::
          scanFrom .between (pos + width g + width (quotedText body)) x)
  | unclosed (x : List Char) (span : Span) : Lead pos x [⟨.unclosed, span⟩]

theorem Lead.gap {ls : List Lexeme} (hg : Gap g) (h : Lead (pos + width g) x ls) :
    Lead pos (g ++ x) ls := by
  cases h with
  | done hx => exact .done (hg.trailing_append hx)
  | opening x h =>
    rw [← List.append_assoc, Nat.add_assoc, ← width_append]
    exact .opening x (hg.append h)
  | closing x h =>
    rw [← List.append_assoc, Nat.add_assoc, ← width_append]
    exact .closing x (hg.append h)
  | word h hw hx =>
    rw [← List.append_assoc, Nat.add_assoc pos, ← width_append]
    exact .word (hg.append h) hw hx
  | quoted x h hq =>
    rw [← List.append_assoc, Nat.add_assoc pos, ← width_append]
    exact .quoted x (hg.append h) hq
  | unclosed x span => exact .unclosed _ span

theorem comment_cases (cs : List Char) :
    '\n' ∉ cs ∨ ∃ line x, '\n' ∉ line ∧ cs = line ++ '\n' :: x := by
  by_cases h : '\n' ∈ cs
  · obtain ⟨line, x, hcs, hline⟩ := List.eq_append_cons_of_mem h
    exact .inr ⟨line, x, hline, hcs⟩
  · exact .inl h

theorem Front.lead {ls : List Lexeme} (h : Front pos x ls) : Lead pos x ls := by
  cases h with
  | nil => exact .done (.gap .nil)
  | opening x => exact .opening x .nil
  | closing x => exact .closing x .nil
  | word hw hx => exact .word .nil hw hx
  | quoted x hbody => exact .quoted x .nil hbody
  | unclosed => exact .unclosed _ _

theorem lead_scanFrom : ∀ (cs : List Char) (pos : Nat), Lead pos cs (scanFrom .between pos cs)
  | [], _ => .done (.gap .nil)
  | c :: cs, pos => by
    by_cases hblank : isBlank c = true
    · have hg : Gap [c] := .blank hblank .nil
      have h := (lead_scanFrom cs (pos + width [c])).gap hg
      rwa [← scanFrom_gap hg] at h
    by_cases hsemi : c = ';'
    · subst hsemi
      rcases comment_cases cs with hline | ⟨line, x, hline, rfl⟩
      · have htail : Trailing (';' :: cs) := .comment .nil hline
        rw [scanFrom_trailing htail]
        exact .done htail
      · have hg : Gap (';' :: (line ++ ['\n'])) := .comment hline .nil
        have h := (lead_scanFrom x (pos + width (';' :: (line ++ ['\n'])))).gap hg
        rw [← scanFrom_gap hg] at h
        simpa using h
    · have hbare : Bare (c :: cs) := by
        rintro d ⟨⟩
        exact ⟨by simpa using hblank, hsemi⟩
      exact (front_scanFrom pos hbare).lead
termination_by cs => cs.length

end TreeQuery.Sexp
