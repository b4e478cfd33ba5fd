import TreeQuery.Proofs.Number.Reading
import TreeQuery.Proofs.Sexp.Grammar

/-!
# Renderings of what was read

A float is read back from its text just if it is finite: the texts of the others are read as
symbols. So a tree that was read is read back from its rendering just if its floats are finite and
its tags begin with no colon (`parse_render_of_parse_iff`). A tag can keep a colon, since only the
first of two is dropped (`not_parse_render_of_parse`).
-/

namespace TreeQuery.Sexp

open Binary64 (infinite)

def Finite (a : Scalar) : Prop := ∀ x, a = .float x → x.magnitude < infinite

variable {x : Binary64} {d : Decimal} {text source w : List Char} {a : Scalar} {t : Tree}

-- ---------------------------------------------------------------------------
-- Finite floats
-- ---------------------------------------------------------------------------

theorem isWord_of_written (h : Written text d) : ∀ c ∈ text, Lexeme.isWord c = true := by
  have hdigits : ∀ {ds : List Char}, Digits ds → ∀ c ∈ ds, Lexeme.isWord c = true :=
    fun hds c hc => isWord_of_isDigit (hds.isDigit c hc)
  cases h with
  | point hds hfs =>
    exact List.forall_mem_append.2 ⟨hdigits hds, List.forall_mem_cons.2 ⟨rfl, hdigits hfs⟩⟩
  | whole z hds =>
    have hexponent := (word_decimalInt z).isWord
    exact List.forall_mem_append.2 ⟨hdigits hds, List.forall_mem_cons.2 ⟨rfl, hexponent⟩⟩
  | scientific z hds hfs =>
    have hexponent := (word_decimalInt z).isWord
    exact List.forall_mem_append.2 ⟨hdigits hds, List.forall_mem_cons.2 ⟨rfl,
      List.forall_mem_append.2 ⟨hdigits hfs, List.forall_mem_cons.2 ⟨rfl, hexponent⟩⟩⟩⟩

theorem digits?_of_written (h : Written text d) : Number.digits? text = none := by
  cases h <;> simp [Number.digits?]

theorem integer?_of_written (h : Written text d) (negative : Bool) :
    Number.integer? (signed negative text) = none := by
  have hdigits := digits?_of_written h
  cases negative with
  | true =>
    delta Number.integer? signed
    simp only [if_true, hdigits]
    rfl
  | false =>
    obtain ⟨c, cs, rfl, hc⟩ := h.exists_digit
    have hsigned : signed false (c :: cs) = c :: cs := rfl
    rw [hsigned, Number.integer?_of_digit hc, hdigits]
    rfl

theorem word_text (hx : x.magnitude < infinite) : Word x.text ∧ Means x.text (.float x) := by
  obtain ⟨text, d, htext, hwritten, -⟩ := exists_written hx
  have hread := ofText?_text hx
  have hword := isWord_of_written hwritten
  have hinteger := integer?_of_written hwritten x.isNegative
  obtain ⟨c, cs, rfl, hc⟩ := hwritten.exists_digit
  rw [htext] at hread ⊢
  generalize x.isNegative = negative at hread hinteger ⊢
  cases negative with
  | true =>
    have hwords : Word (signed true (c :: cs)) :=
      ⟨List.cons_ne_nil _ _, List.forall_mem_cons.2 ⟨rfl, hword⟩⟩
    exact ⟨hwords, .float (.minus hc) hinteger hread⟩
  | false => exact ⟨⟨List.cons_ne_nil _ _, hword⟩, .float (.digit hc) hinteger hread⟩

theorem same_self (hx : x.magnitude < infinite) : x.same x = true := by
  have hnan : x.isNaN = false := by
    simp [Binary64.isNaN, Nat.le_of_lt hx]
  simp [Binary64.same, hnan]

-- ---------------------------------------------------------------------------
-- The other floats
-- ---------------------------------------------------------------------------

theorem text_of_not_lt (hx : ¬ x.magnitude < infinite) :
    x.text ∈ ["NaN".toList, "inf".toList, '-' :: "inf".toList] := by
  unfold Binary64.text
  by_cases hnan : x.isNaN = true
  · simp [hnan]
  · have hinfinite : x.isInfinite = true := by
      simp only [Binary64.isNaN, decide_eq_true_eq] at hnan
      simp only [Binary64.isInfinite, beq_iff_eq]
      omega
    cases x.isNegative <;> simp [hnan, hinfinite]

theorem not_numeric {c c' : Char} {cs : List Char} (hc : c.isDigit = false)
    (hc' : c'.isDigit = false) : ¬ Numeric (c :: c' :: cs) := by
  intro h
  cases h with
  | digit hdigit => exact absurd hdigit (by simp [hc])
  | minus hdigit => exact absurd hdigit (by simp [hc'])

theorem word_text_of_not_lt (hx : ¬ x.magnitude < infinite) :
    ∃ name, Word x.text ∧ Means x.text (.sym name) := by
  have htext := text_of_not_lt hx
  generalize x.text = w at htext
  simp only [List.mem_cons, List.not_mem_nil, or_false] at htext
  rcases htext with rfl | rfl | rfl
  all_goals exact ⟨_, ⟨by decide, List.all_eq_true.1 rfl⟩,
    .bare (by decide) (by decide) (not_numeric rfl rfl)⟩

-- ---------------------------------------------------------------------------
-- Trees that were read
-- ---------------------------------------------------------------------------

theorem readAs_float (x : Binary64) : ReadAs Finite (.float x) := by
  intro rest hrest
  by_cases hx : x.magnitude < infinite
  · obtain ⟨hword, hmeans⟩ := word_text hx
    have hfinite : Finite (.float x) := by
      rintro _ ⟨⟩
      exact hx
    exact ⟨_, .word hword hmeans.scalar? hrest, iff_of_true (same_self hx) hfinite⟩
  · obtain ⟨name, hword, hmeans⟩ := word_text_of_not_lt hx
    refine ⟨_, .word hword hmeans.scalar? hrest, iff_of_false ?_ fun h => hx (h x rfl)⟩
    exact Bool.false_ne_true

theorem readAs_finite (h : Unbroken a) : ReadAs Finite a := by
  by_cases hfloat : ∃ x, a = .float x
  · obtain ⟨x, rfl⟩ := hfloat
    exact readAs_float x
  · have hother : ∀ x, a ≠ .float x := fun x hx => hfloat ⟨x, hx⟩
    intro rest hrest
    obtain ⟨b, htok, hsame⟩ := readBack_of_unbroken hother h rest hrest
    exact ⟨b, htok, hsame.trans (iff_of_true trivial fun x hx => absurd hx (hother x))⟩

theorem isNode_of_parse (h : parseChars source = .ok t) : t.isNode = true := by
  obtain ⟨g, text, tail, -, -, -, hroot⟩ := exists_root h
  cases hroot with
  | form hform => exact hform.isNode
  | forms => rfl

/-- A tree that was read comes back from its rendering just if its floats are finite and no tag
begins with a colon. -/
theorem parse_render_of_parse_iff {source : String} (h : parse source = .ok t) :
    (∃ u, parse (String.ofList t.render) = .ok u ∧ u.same t = true) ↔
      t.Every Finite (fun tag => tag.toList.head? ≠ some ':') := by
  have hnode := isNode_of_parse h
  have hwords := unbroken_of_parse h
  have hread : t.Every (ReadAs Finite) IsTag := hwords.imp (fun _ => readAs_finite) (fun _ h => h)
  simp only [parse, String.toList_ofList]
  cases t with
  | leaf a span => cases hnode
  | node tag cs span =>
    rw [exists_reread_iff hread]
    constructor
    · intro hkept
      exact hkept.imp (fun _ h => h) (fun _ htag => (tag?_eq_self_iff.1 htag).2)
    · intro hkept
      exact hwords.and (fun _ _ h => h)
        (fun _ htag hcolon => tag?_eq_self_iff.2 ⟨htag.ne_nil, hcolon⟩) hkept

theorem parse_render_of_parse_iff_float : ∃ t, parse "(x 2.5 ::b)" = .ok t ∧
    ∃ u, parse (String.ofList t.render) = .ok u ∧ u.same t = true := by
  have hfloat : Binary64.ofText? ['2', '.', '5'] = some ⟨0x4004000000000000⟩ := by decide +kernel
  have hnumber : Word ['2', '.', '5'] ∧ Means ['2', '.', '5'] (.float ⟨0x4004000000000000⟩) :=
    ⟨⟨by decide, List.all_eq_true.1 rfl⟩, .float (.digit rfl) rfl hfloat⟩
  have hsymbol : Word [':', ':', 'b'] := ⟨by decide, List.all_eq_true.1 rfl⟩
  have hword : Word ['x'] := ⟨by decide, List.all_eq_true.1 rfl⟩
  have htag : tag? ['x'] = some "x" := rfl
  have hstops : ∀ x, Stops ([' '] ++ x) := fun x => gap_space.stops.congr rfl
  have hlast : Items 6 ([' '] ++ ([':', ':', 'b'] ++ [])) _ :=
    .gap gap_space <| .leaf (.word hsymbol (Means.colon [':', 'b']).scalar? .nil) <| .nil _
  have hbody : Items 2 ([' '] ++ (['2', '.', '5'] ++ ([' '] ++ ([':', ':', 'b'] ++ [])))) _ :=
    .gap gap_space <| .leaf (.word hnumber.1 hnumber.2.scalar? (hstops _)) hlast
  have hform : Form 0 (formText [] ['x'] _) _ :=
    .mk .nil hword htag (hstops _) hbody
  have hparse : parse "(x 2.5 ::b)" = .ok _ :=
    parseChars_of_items .nil hform.items (by simp [Tree.isNode]) rfl (.gap .nil)
  refine ⟨_, hparse, (parse_render_of_parse_iff hparse).2 ⟨by decide, ?_, ?_, trivial⟩⟩
  · rintro x ⟨⟩
    decide
  · rintro x ⟨⟩

/-- The tag of this form begins with a colon, which its rendering loses. -/
theorem not_parse_render_of_parse : ∃ t, parse "(::a)" = .ok t ∧
    ¬ ∃ u, parse (String.ofList t.render) = .ok u ∧ u.same t = true := by
  have hparse : parse "(::a)" = .ok (.node ":a" [] (some (Span.between 0 5))) := rfl
  have hrender : parse (String.ofList (Tree.node ":a" [] (some (Span.between 0 5))).render) =
      .ok (.node "a" [] (some (Span.between 0 4))) := rfl
  refine ⟨_, hparse, ?_⟩
  rintro ⟨u, hu, hsame⟩
  rw [hrender] at hu
  cases hu
  exact Bool.false_ne_true hsame

end TreeQuery.Sexp
