import TreeQuery.Proofs.Pattern.Walk
import TreeQuery.Proofs.Sexp.Rendering

/-!
# Sources and patterns along their bytes

Both walks stay between the characters of their texts, their loops move on with every turn, and no
text that they take is lost (`walks_sound`). Both read a quoted text as the other one does, and they
read what is written (`literals_read_alike`).
-/

namespace TreeQuery

open Text (Place width)
open Sexp (Quotes Unterminated quotedText)

variable {body text rest : List Char}

/-- Reading trees and cutting patterns along the bytes comes to an end with the answers that the
reader and the scan have. All routines are entered and left between two characters of the text, all
turns of loops that go on move on, and all texts are taken between two characters. -/
theorem walks_sound (source : List Char) :
    (∃ c, Sexp.Walk.parse source = some (Sexp.parseChars source, c) ∧
      ∀ m ∈ c.marks, m.Sound source) ∧
    ∃ c, Pattern.Walk.tokenize source = some (Pattern.Token.scan source, c) ∧
      ∀ m ∈ c.marks, m.Sound source :=
  ⟨Sexp.Walk.exists_parse source, Pattern.Walk.exists_tokenize source⟩

/-- Between two texts, all readers take a quoted text for the same text and go on behind its closing
quote. -/
structure Decodes (before quoted text after : List Char) : Prop where
  reader : ∀ marks, ∃ made,
    (Sexp.Walk.quoted (before ++ (quoted ++ after))).run ⟨width before, (), marks⟩ =
      some (.ok (.leaf (.str (String.ofList text))
          (some (Span.between (width before) (width before + width quoted)))),
        ⟨width before + width quoted, (), made ++ marks⟩)
  lexer : ∀ start tokens marks, ∃ made,
    (Pattern.Walk.quoted (before ++ (quoted ++ after)) start).run ⟨width before, tokens, marks⟩ =
      some (.ok (), ⟨width before + width quoted, ⟨.str text, start⟩ :: tokens, made ++ marks⟩)
  lexeme : ∀ pos, Sexp.Lexeme.scanFrom .between pos (quoted ++ after) =
    ⟨.quoted text, Span.between pos (pos + width quoted)⟩ ::
      Sexp.Lexeme.scanFrom .between (pos + width quoted) after
  token : ∀ pos, Pattern.Token.scanFrom pos (quoted ++ after) =
    (Pattern.Token.scanFrom (pos + width quoted) after).map (⟨.str text, pos⟩ :: ·)

/-- All readers miss the closing quote of what stands at the end. -/
structure Undecoded (before literal : List Char) : Prop where
  reader : ∀ marks, ∃ c, (Sexp.Walk.quoted (before ++ literal)).run ⟨width before, (), marks⟩ =
    some (.error ⟨.unclosedText, width before⟩, c)
  lexer : ∀ start tokens marks, ∃ c,
    (Pattern.Walk.quoted (before ++ literal) start).run ⟨width before, tokens, marks⟩ =
      some (.error ⟨.unclosedText, start⟩, c)
  lexeme : ∀ pos, Sexp.Lexeme.scanFrom .between pos literal =
    [⟨.unclosed, Span.between pos (pos + width literal)⟩]
  token : ∀ pos, Pattern.Token.scanFrom pos literal = .error ⟨.unclosedText, pos⟩

theorem Sexp.Quotes.decodes (h : Quotes body text) (before after : List Char) :
    Decodes before (quotedText body) text after where
  reader marks := by
    have hin : Place.In (before ++ (quotedText body ++ after))
        (⟨width before, quotedText body ++ after, ()⟩ : Place Unit) := ⟨before, rfl, rfl⟩
    obtain ⟨made, hrun, -⟩ := Sexp.Walk.leads_quoted h rfl hin marks
    exact ⟨made, hrun⟩
  lexer start tokens marks := by
    have hin : Place.In (before ++ (quotedText body ++ after))
        (⟨width before, quotedText body ++ after, tokens⟩ : Place _) := ⟨before, rfl, rfl⟩
    obtain ⟨made, hrun, -⟩ := Pattern.Walk.leads_quoted h rfl hin marks
    exact ⟨made, hrun⟩
  lexeme pos := h.scanFrom_between
  token pos := by
    have hnext : Pattern.Token.next '"' ((body ++ ['"']) ++ after) =
        .ok (.str text, (body ++ ['"']).length) := by
      rw [List.append_assoc]
      exact Pattern.Token.str_quotes h after
    have hpos : pos + Char.utf8Size '"' + width (body ++ ['"']) =
        pos + width (quotedText body) := by simp [quotedText, Nat.add_assoc]
    rw [quotedText, List.cons_append, Pattern.Token.scanFrom_token rfl hnext, List.take_left,
      List.drop_left, hpos, quotedText]

theorem Sexp.Unterminated.undecoded (h : Unterminated rest) (before : List Char) :
    Undecoded before ('"' :: rest) where
  reader marks := by
    have hin : Place.In (before ++ '"' :: rest) (⟨width before, '"' :: rest, ()⟩ : Place Unit) :=
      ⟨before, rfl, rfl⟩
    obtain ⟨made, hrun, -⟩ := Sexp.Walk.leads_quoted_error h rfl hin marks
    exact ⟨_, hrun⟩
  lexer start tokens marks := by
    have hin : Place.In (before ++ '"' :: rest) (⟨width before, '"' :: rest, tokens⟩ : Place _) :=
      ⟨before, rfl, rfl⟩
    obtain ⟨made, hrun, -⟩ := Pattern.Walk.leads_quoted_error h rfl hin marks
    exact ⟨_, hrun⟩
  lexeme pos := h.scanFrom_between
  token pos := Pattern.Token.scanFrom_broken rfl (Pattern.Token.str_unterminated h)

/-- All readers miss the closing quote of a literal, or they take it for the same text and go on
behind it; and they read back every text that was written. -/
theorem literals_read_alike :
    (∀ before rest, Undecoded before ('"' :: rest) ∨ ∃ quoted text after,
      '"' :: rest = quoted ++ after ∧ Decodes before quoted text after) ∧
    ∀ before text after, Decodes before (Text.Quoted.encode text) text after := by
  refine ⟨fun before rest => ?_, fun before text after => ?_⟩
  · rcases Sexp.quoted_cases rest with ⟨body, text, after, hbody, rfl⟩ | h
    · exact .inr ⟨quotedText body, text, after, by simp [quotedText], hbody.decodes before after⟩
    · exact .inl (h.undecoded before)
  · exact (Sexp.quotes_body text).decodes before after

end TreeQuery
