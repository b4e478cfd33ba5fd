import TreeQuery.Sexp.Reader

/-!
# The notation of trees

The texts that denote values, told without the reader. `Items` is what may stand between two
parentheses behind the tag, with the values that it denotes at a byte offset, and `Form` is one
form. Lexemes may touch: only a word has to end where another character stops it.
-/

namespace TreeQuery.Sexp

open Text

/-- Blanks, and comments up to the line feed that ends them. -/
inductive Gap : List Char → Prop
  | nil : Gap []
  | blank {c g} : isBlank c = true → Gap g → Gap (c :: g)
  | comment {line g} : '\n' ∉ line → Gap g → Gap (';' :: (line ++ '\n' :: g))

/-- What may end a source text: a gap, or one with a comment that no line feed ends. -/
inductive Trailing : List Char → Prop
  | gap {g} : Gap g → Trailing g
  | comment {g line} : Gap g → '\n' ∉ line → Trailing (g ++ ';' :: line)

structure Word (w : List Char) : Prop where
  ne_nil : w ≠ []
  isWord : ∀ c ∈ w, Lexeme.isWord c = true

/-- A word before this text ends there. -/
def Stops (rest : List Char) : Prop := ∀ c, rest.head? = some c → Lexeme.isWord c = false

/-- What stands between two quotes, and the text that it denotes. -/
inductive Quotes : List Char → List Char → Prop
  | nil : Quotes [] []
  | plain {c body s} : c ≠ '"' → c ≠ '\\' → Quotes body s → Quotes (c :: body) (c :: s)
  | escape {body s} (c : Char) : Quotes body s → Quotes ('\\' :: c :: body) (Quoted.unescape c :: s)

/-- What stands behind a quote that no other quote ends. -/
inductive Unterminated : List Char → Prop
  | nil : Unterminated []
  | backslash : Unterminated ['\\']
  | plain {c cs} : c ≠ '"' → c ≠ '\\' → Unterminated cs → Unterminated (c :: cs)
  | escape {cs} (c : Char) : Unterminated cs → Unterminated ('\\' :: c :: cs)

def quotedText (body : List Char) : List Char := '"' :: (body ++ ['"'])

inductive Token (rest : List Char) : List Char → Scalar → Prop
  | word {w a} : Word w → scalar? w = some a → Stops rest → Token rest w a
  | quoted {body s} : Quotes body s → Token rest (quotedText body) (.str (String.ofList s))

def formText (g w body : List Char) : List Char := '(' :: (g ++ w ++ body) ++ [')']

/-- The values that a text denotes at an offset. -/
inductive Items : Nat → List Char → List Tree → Prop
  | nil (pos : Nat) : Items pos [] []
  | gap {pos g rest ts} : Gap g → Items (pos + width g) rest ts → Items pos (g ++ rest) ts
  | leaf {pos tok a rest ts} : Token rest tok a → Items (pos + width tok) rest ts →
      Items pos (tok ++ rest) (.leaf a (some (Span.between pos (pos + width tok))) :: ts)
  | form {pos g w tag body cs rest ts} : Gap g → Word w → tag? w = some tag → Stops body →
      Items (pos + 1 + width g + width w) body cs →
      Items (pos + width (formText g w body)) rest ts →
      Items pos (formText g w body ++ rest)
        (.node tag cs (some (Span.between pos (pos + width (formText g w body)))) :: ts)

inductive Form (pos : Nat) : List Char → Tree → Prop
  | mk {g w tag body cs} : Gap g → Word w → tag? w = some tag → Stops body →
      Items (pos + 1 + width g + width w) body cs →
      Form pos (formText g w body)
        (.node tag cs (some (Span.between pos (pos + width (formText g w body)))))

/-- A form at an offset that is not closed up to the end of the source, and where the innermost such
form begins. -/
inductive Unclosed : Nat → List Char → Nat → Prop
  | last {pos g w tag body cs tail} : Gap g → Word w → tag? w = some tag → Stops body →
      Items (pos + 1 + width g + width w) body cs → Trailing tail →
      Unclosed pos ('(' :: (g ++ (w ++ (body ++ tail)))) pos
  | inner {pos g w tag body cs rest innermost} : Gap g → Word w → tag? w = some tag → Stops body →
      Items (pos + 1 + width g + width w) body cs →
      Unclosed (pos + 1 + width g + width w + width body) rest innermost →
      Unclosed pos ('(' :: (g ++ (w ++ (body ++ rest)))) innermost

variable {pos : Nat} {g x y cs after body text tok rest : List Char} {a : Scalar} {t : Tree}
  {ts : List Tree}

-- ---------------------------------------------------------------------------
-- Gaps and words
-- ---------------------------------------------------------------------------

theorem Gap.append (hg : Gap g) (hx : Gap x) : Gap (g ++ x) := by
  induction hg with
  | nil => exact hx
  | blank hc _ ih => exact .blank hc ih
  | comment hline _ ih => simpa using Gap.comment hline ih

theorem Gap.trailing_append (hg : Gap g) : Trailing x → Trailing (g ++ x)
  | .gap hx => .gap (hg.append hx)
  | .comment hx hline => by
    rw [← List.append_assoc]
    exact .comment (hg.append hx) hline

theorem Stops.nil : Stops [] := by
  rintro c ⟨⟩

theorem Stops.closing (x : List Char) : Stops (')' :: x) := by
  rintro c ⟨⟩
  rfl

theorem Stops.opening (x : List Char) : Stops ('(' :: x) := by
  rintro c ⟨⟩
  rfl

theorem Stops.comment (x : List Char) : Stops (';' :: x) := by
  rintro c ⟨⟩
  rfl

theorem Stops.append (hx : Stops x) (hy : Stops y) : Stops (x ++ y) := by
  cases x with
  | nil => exact hy
  | cons d x =>
    rintro c ⟨⟩
    exact hx d rfl

theorem Stops.left (h : Stops (x ++ y)) : Stops x := by
  cases x with
  | nil => exact .nil
  | cons c x => exact fun d hd => h d hd

theorem Stops.congr (h : x.head? = y.head?) (hx : Stops x) : Stops y := fun c hc => hx c (h ▸ hc)

theorem Gap.stops : Gap g → Stops g
  | .nil => .nil
  | .blank hc _ => by
    rintro d ⟨⟩
    simp [Lexeme.isWord, hc]
  | .comment _ _ => .comment _

theorem Trailing.stops : Trailing x → Stops x
  | .gap hg => hg.stops
  | .comment hg _ => hg.stops.append (.comment _)

theorem Token.congr (h : x.head? = y.head?) : Token x tok a → Token y tok a
  | .word hw ha hx => .word hw ha (hx.congr h)
  | .quoted hq => .quoted hq

theorem Token.append (hy : Stops y) : Token x tok a → Token (x ++ y) tok a
  | .word hw ha hx => .word hw ha (hx.append hy)
  | .quoted hq => .quoted hq

theorem Token.left : Token (x ++ y) tok a → Token x tok a
  | .word hw ha hx => .word hw ha hx.left
  | .quoted hq => .quoted hq

-- ---------------------------------------------------------------------------
-- Quoted texts
-- ---------------------------------------------------------------------------

theorem Quotes.decode? (h : Quotes body text) (after : List Char) :
    Quoted.decode? (body ++ '"' :: after) = some (text, after) := by
  induction h with
  | nil => rfl
  | plain _ hslash _ ih => simp [Quoted.decode?, hslash, ih]
  | escape c _ ih => simp [Quoted.decode?, ih]

theorem Unterminated.decode? (h : Unterminated cs) : Quoted.decode? cs = none := by
  induction h with
  | nil | backslash => rfl
  | plain _ hslash _ ih => simp [Quoted.decode?, hslash, ih]
  | escape c _ ih => simp [Quoted.decode?, ih]

theorem quoted_cases (cs : List Char) :
    (∃ body text after, Quotes body text ∧ cs = body ++ '"' :: after) ∨ Unterminated cs := by
  fun_induction Quoted.decode? cs with
  | case1 => exact .inr .nil
  | case2 after => exact .inl ⟨[], [], after, .nil, rfl⟩
  | case3 => exact .inr .backslash
  | case4 c rest ih =>
    rcases ih with ⟨body, text, after, hbody, rfl⟩ | h
    · exact .inl ⟨_, _, after, .escape c hbody, rfl⟩
    · exact .inr (.escape c h)
  | case5 c rest hquote hlast hescape ih =>
    have hslash : c ≠ '\\' := by
      rintro rfl
      cases rest with
      | nil => exact hlast rfl rfl
      | cons d rest => exact hescape d rest rfl rfl
    rcases ih with ⟨body, text, after, hbody, rfl⟩ | h
    · exact .inl ⟨_, _, after, .plain hquote hslash hbody, rfl⟩
    · exact .inr (.plain hquote hslash h)

-- ---------------------------------------------------------------------------
-- Items and forms
-- ---------------------------------------------------------------------------

theorem Form.items_cons (h : Form pos text t) (hrest : Items (pos + width text) rest ts) :
    Items pos (text ++ rest) (t :: ts) := by
  obtain ⟨hg, hw, htag, hstops, hbody⟩ := h
  exact .form hg hw htag hstops hbody hrest

theorem Form.items (h : Form pos text t) : Items pos text [t] := by
  simpa using h.items_cons (.nil _)

theorem Form.head? (h : Form pos text t) : text.head? = some '(' := by
  obtain ⟨-, -, -, -, -⟩ := h
  rfl

theorem Form.span (h : Form pos text t) :
    t.span = some (Span.between pos (pos + width text)) := by
  obtain ⟨-, -, -, -, -⟩ := h
  rfl

theorem Form.isNode (h : Form pos text t) : t.isNode = true := by
  obtain ⟨-, -, -, -, -⟩ := h
  rfl

theorem Unclosed.stops {innermost : Nat} (h : Unclosed pos text innermost) : Stops text := by
  cases h <;> exact .opening _

end TreeQuery.Sexp
