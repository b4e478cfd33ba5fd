import TreeQuery.Proofs.Pattern.Closing
import TreeQuery.Proofs.Pattern.Descent
import TreeQuery.Proofs.Text.Utf8

/-!
# Where pattern errors point

A text that cannot be cut into tokens is cut up to the piece at fault (`Token.scanFrom_error`), and
every other error is at a token (`Descent.located_of_parse`). A text without tokens is white space.
-/

namespace TreeQuery.Pattern.Token

open Text (isSpace width)

variable {cs : List Char} {pos : Nat} {e : Error}

theorem scanFrom_error (h : scanFrom pos cs = .error e) : ∃ before c rest ts,
    cs = before ++ c :: rest ∧ pos + width before = e.offset ∧ isSpace c = false ∧
      next c rest = .error e.cause ∧ scanFrom pos before = .ok ts := by
  fun_induction scanFrom pos cs with
  | case1 => cases h
  | case2 pos c rest hc ih =>
    obtain ⟨before, d, after, ts, rfl, hwidth, hd, hnext, hbefore⟩ := ih h
    refine ⟨c :: before, d, after, ts, rfl, ?_, hd, hnext, by rwa [scanFrom_space hc]⟩
    rw [← hwidth, Text.width_cons, Nat.add_assoc]
  | case3 pos c rest hc cause hnext =>
    cases h
    exact ⟨[], c, rest, [], rfl, rfl, by simpa using hc, hnext, by rw [scanFrom]⟩
  | case4 pos c rest hc k n hnext ih =>
    obtain ⟨before, d, after, ts, hsplit, hwidth, hd, hfails, hbefore⟩ := ih (eq_error_of_map h)
    obtain ⟨hcut, hfirst⟩ := scanFrom_cut pos (by simpa using hc) hnext hsplit
    refine ⟨c :: (rest.take n ++ before), d, after, ⟨k, pos⟩ :: ts, hcut, ?_, hd, hfails, ?_⟩
    · simp at hwidth ⊢
      omega
    · rw [hfirst, hbefore]
      rfl

theorem scanFrom_eq_nil_iff : scanFrom pos cs = .ok [] ↔ ∀ c ∈ cs, isSpace c = true := by
  fun_induction scanFrom pos cs with
  | case1 => simp
  | case2 pos c rest hc ih => simp [ih, hc]
  | case3 pos c rest hc => simp [hc]
  | case4 pos c rest hc k n hnext ih =>
    refine iff_of_false (fun h => ?_) fun h => hc (h c List.mem_cons_self)
    obtain ⟨_, -, ⟨⟩⟩ := exists_of_map_eq_ok h

end TreeQuery.Pattern.Token

namespace TreeQuery

open Pattern Token
open Text (isSpace width)

/-- The error points at the first character of a token, or of a piece of the text that is none. -/
inductive Pattern.Error.AtPiece (text : List Char) (e : Pattern.Error) : Prop
  | token {before rest : List Char} {c : Char} {n : Nat} {t : Token} {tokens : List Token} :
      text = before ++ c :: rest → width before = e.offset → scan text = .ok tokens → t ∈ tokens →
      t.offset = e.offset → next c rest = .ok (t.kind, n) → AtPiece text e
  | broken {before rest : List Char} {c : Char} {tokens : List Token} :
      text = before ++ c :: rest → width before = e.offset → scan before = .ok tokens →
      isSpace c = false → next c rest = .error e.cause → AtPiece text e

variable {text : List Char} {args : List Tree} {e : Pattern.Error} {tokens : List Token}

theorem Pattern.Error.AtPiece.exists_before (h : e.AtPiece text) :
    ∃ before c rest, text = before ++ c :: rest ∧ width before = e.offset := by
  cases h with
  | token htext hwidth => exact ⟨_, _, _, htext, hwidth⟩
  | broken htext hwidth => exact ⟨_, _, _, htext, hwidth⟩

theorem Pattern.Error.AtPiece.isBoundary (h : e.AtPiece text) :
    Text.isBoundary e.offset text = true := by
  obtain ⟨before, c, rest, rfl, hwidth⟩ := h.exists_before
  exact Text.isBoundary_iff.2 ⟨before, c :: rest, rfl, hwidth⟩

theorem Pattern.Error.AtPiece.lt_width (h : e.AtPiece text) : e.offset < width text := by
  obtain ⟨before, c, rest, rfl, hwidth⟩ := h.exists_before
  have := c.utf8Size_pos
  rw [Text.width_append, Text.width_cons]
  omega

namespace Query

theorem atPiece_of_scan (h : scan text = .error e) : e.AtPiece text := by
  obtain ⟨before, c, rest, ts, htext, hwidth, hc, hnext, hbefore⟩ := scanFrom_error h
  exact .broken htext (by omega) hbefore hc hnext

theorem atPiece_of_mem (hscan : scan text = .ok tokens) (h : e.offset ∈ tokens.map Token.offset) :
    e.AtPiece text := by
  obtain ⟨t, ht, hoffset⟩ := List.mem_map.1 h
  obtain ⟨ts, us, rfl⟩ := List.append_of_mem ht
  obtain ⟨before, c, rest, n, htext, hwidth, hnext, -, -⟩ := scanFrom_split hscan
  exact .token htext (by omega) hscan ht hoffset hnext

theorem compile_eq_descent (text : List Char) (args : List Tree) :
    compile text args = (scan text).bind fun tokens =>
      (Descent.parse args (width text) tokens).map fun root => ⟨text, root⟩ := by
  simp only [compile, Descent.parse_eq]

theorem compile_error (h : compile text args = .error e) : e.cause ≠ .unexpectedEnd ∧
    ((∀ c ∈ text, isSpace c = true) → e = ⟨.empty, 0⟩) ∧
    ((¬ ∀ c ∈ text, isSpace c = true) → e.AtPiece text) := by
  cases hscan : scan text with
  | error e' =>
    obtain rfl : e' = e := by simpa [compile, hscan, Except.bind] using h
    have hpiece := atPiece_of_scan hscan
    refine ⟨?_, fun hblank => ?_, fun _ => hpiece⟩
    · obtain ⟨_, _, _, _, -, -, -, hnext, -⟩ := scanFrom_error hscan
      intro hcause
      rw [hcause] at hnext
      cases isLexical_next hnext
    · cases hscan.symm.trans (scanFrom_eq_nil_iff.2 hblank)
  | ok tokens =>
    rw [compile_of_scan hscan] at h
    have hparse := eq_error_of_map h
    by_cases htokens : tokens = []
    · subst htokens
      cases hparse
      refine ⟨fun hcause => ?_, fun _ => rfl, fun hblank => ?_⟩
      · cases hcause
      · exact absurd (scanFrom_eq_nil_iff.1 hscan) hblank
    · have hlocated := Descent.located_of_parse htokens hparse
      refine ⟨hlocated.1, fun hblank => ?_, fun _ => atPiece_of_mem hscan hlocated.2⟩
      cases hscan.symm.trans (scanFrom_eq_nil_iff.2 hblank)
      exact absurd rfl htokens

end Query

end TreeQuery
