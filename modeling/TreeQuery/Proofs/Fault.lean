import TreeQuery.Proofs.Pattern.Offsets
import TreeQuery.Proofs.Sexp.Offsets

/-!
# Where faults of texts point

An error of a pattern text points at the first character of a token or of a piece that is no token,
unless the text is white space; an error of a source text points at a character boundary
(`errors_point_into_text`).
-/

namespace TreeQuery

open Text (isBoundary isSpace width)

/-- There are two kinds of errors in pattern texts, each with its wording. -/
theorem Pattern.Error.message_cases (e : Pattern.Error) :
    (∃ b, e.cause = .unterminated b ∧ e.message = "unterminated group: " ++ quoteChar b.opener ++
      s!" at offset {e.offset} is never closed") ∨
    e.message = s!"malformed pattern at offset {e.offset}: " ++ e.cause.text := by
  obtain ⟨cause, offset⟩ := e
  cases cause with
  | unterminated b => exact .inl ⟨b, rfl, rfl⟩
  | _ => exact .inr rfl

theorem errors_point_into_text (text : List Char) (args : List Tree) (source : String) :
    (∀ e, Query.compile text args = .error e →
      ((∃ b, e.cause = .unterminated b ∧ e.message = "unterminated group: " ++
          Pattern.Error.quoteChar b.opener ++ s!" at offset {e.offset} is never closed") ∨
        e.message = s!"malformed pattern at offset {e.offset}: " ++ e.cause.text) ∧
      ((∀ c ∈ text, isSpace c = true) → e.offset = 0) ∧
      ((¬ ∀ c ∈ text, isSpace c = true) → e.AtPiece text ∧ isBoundary e.offset text = true ∧
        e.offset < width text) ∧
      e.cause ≠ .unexpectedEnd) ∧
    (Query.compile text args = (Pattern.Token.scan text).bind fun tokens =>
      (Pattern.Descent.parse args (width text) tokens).map fun root => ⟨text, root⟩) ∧
    (∀ e, Sexp.parse source = .error e →
      isBoundary e.offset source.toList = true ∧ e.offset ≤ width source.toList) ∧
    ∀ innermost, Sexp.parse source = .error ⟨.neverClosed, innermost⟩ ↔
      ∃ before rest ts, source.toList = before ++ rest ∧ Sexp.Items 0 before ts ∧
        (∀ t ∈ ts, t.isNode = true) ∧ Sexp.Unclosed (width before) rest innermost := by
  refine ⟨fun e h => ?_, Query.compile_eq_descent text args, fun e h => ?_,
    fun _ => Sexp.parseChars_eq_neverClosed_iff⟩
  · obtain ⟨hcause, hblank, hpiece⟩ := Query.compile_error h
    refine ⟨e.message_cases, fun hspace => by rw [hblank hspace], fun hspace => ?_, hcause⟩
    have hpiece := hpiece hspace
    exact ⟨hpiece, hpiece.isBoundary, hpiece.lt_width⟩
  · have hboundary := Sexp.isBoundary_of_parse h
    exact ⟨hboundary, Text.le_width_of_isBoundary hboundary⟩

open Pattern.Token (next operator? scan scanFrom scanFrom_space scanFrom_token single?) in
theorem errors_point_into_text_accents :
    (∃ e, Query.compile "(é $§ a".toList [] = .error e ∧ e.AtPiece "(é $§ a".toList ∧
      isBoundary e.offset "(é $§ a".toList = true ∧ e.offset < width "(é $§ a".toList) ∧
    ∃ e, Sexp.parse "(é (b \"ü\" (c)) (d 1 ; e" = .error e ∧ e.cause = .neverClosed ∧
      isBoundary e.offset "(é (b \"ü\" (c)) (d 1 ; e".toList = true := by
  -- The sign is in no range of either table; searching them by evaluation would take long.
  have hletter : Text.inRanges Text.alphabeticRanges '§' = false :=
    Text.inRanges_eq_false (by decide +kernel)
  have hdigit : Text.inRanges Text.numericRanges '§' = false :=
    Text.inRanges_eq_false (by decide +kernel)
  have hsign : next '§' [' ', 'a'] = .error (.unexpectedChar '§') := by
    have hoperator : operator? ['§', ' ', 'a'] = none := by decide +kernel
    simp [next, hoperator, single?, Text.isWord, Text.isAlphabetic, Text.isNumeric, hletter, hdigit]
  have hbroken : scanFrom 5 ['§', ' ', 'a'] = .error ⟨.unexpectedChar '§', 5⟩ := by
    rw [scanFrom, if_neg (by decide), hsign]
  have hcapture : next '$' ['§', ' ', 'a'] = .ok (.marker .capture, 0) := by decide +kernel
  have hafter : scanFrom 3 [' ', '$', '§', ' ', 'a'] = .error ⟨.unexpectedChar '§', 5⟩ := by
    rw [scanFrom_space rfl, scanFrom_token rfl hcapture]
    exact congrArg (Except.map _) hbroken
  have hname : next 'é' [' ', '$', '§', ' ', 'a'] = .ok (.word ['é'], 0) := by decide +kernel
  have hinside : scanFrom 1 ['é', ' ', '$', '§', ' ', 'a'] = .error ⟨.unexpectedChar '§', 5⟩ := by
    rw [scanFrom_token rfl hname]
    exact congrArg (Except.map _) hafter
  have hopening : next '(' ['é', ' ', '$', '§', ' ', 'a'] = .ok (.opening .round, 0) := by
    decide +kernel
  have hscan : scan "(é $§ a".toList = .error ⟨.unexpectedChar '§', 5⟩ :=
    (scanFrom_token rfl hopening).trans (congrArg (Except.map _) hinside)
  have hcompile : Query.compile "(é $§ a".toList [] = .error ⟨.unexpectedChar '§', 5⟩ := by
    rw [Query.compile, hscan]
    rfl
  have hparse : Sexp.parse "(é (b \"ü\" (c)) (d 1 ; e" = .error ⟨.neverClosed, 17⟩ := rfl
  obtain ⟨hpattern, -, hsource, -⟩ :=
    errors_point_into_text "(é $§ a".toList [] "(é (b \"ü\" (c)) (d 1 ; e"
  obtain ⟨-, -, hpiece, -⟩ := hpattern _ hcompile
  have hpiece := hpiece fun hspace => absurd (hspace '(' (by simp)) (by decide)
  exact ⟨⟨_, hcompile, hpiece⟩, _, hparse, rfl, (hsource _ hparse).1⟩

end TreeQuery
