import TreeQuery.Pattern.Walk
import TreeQuery.Proofs.Pattern.Spacing
import TreeQuery.Proofs.Sexp.Walk

/-!
# The walk over a pattern cuts what the scan cuts

Each routine that makes a token passes the characters that the scan gives to it, or has the error of
the scan (`Emits`). So the walk has the tokens and the errors of the scan, with sound marks only
(`exists_tokenize`).
-/

namespace TreeQuery.Pattern.Walk

open Text
open Text.Walk
open Sexp (Quotes Unterminated quotedText quoted_cases)
open Token (headIs isSuffix operator? operators startsFraction startsFraction_iff numeral)

variable {source w x y sign body text : List Char} {c : Char} {kind : Token.Kind} {start n : Nat}
  {p q : Place (List Token)} {α : Type} {cause : Error.Cause}
  {out : Except Error.Cause (Token.Kind × List Char)}

-- ---------------------------------------------------------------------------
-- Measures
-- ---------------------------------------------------------------------------

theorem offsetsFrom_find? (f : Char → Bool) (pos : Nat) (x : List Char) :
    ((offsetsFrom pos x).find? (!f ·.2)).elim (pos + width x) (·.1) =
      pos + width (x.takeWhile f) := by
  induction x generalizing pos with
  | nil => rfl
  | cons c x ih =>
    rw [offsetsFrom]
    cases hc : f c with
    | true => simpa [hc, Nat.add_assoc] using ih (pos + c.utf8Size)
    | false => simp [hc]

theorem utf8Size_of_isSuffix (hc : isSuffix c = true) : c.utf8Size = 1 := by
  simp only [isSuffix, Bool.or_eq_true, beq_iff_eq] at hc
  rcases hc with (rfl | rfl) | rfl <;> rfl

theorem nameEnd_eq (x : List Char) : nameEnd x = width (Token.name x) := by
  have hstop := offsetsFrom_find? isWord 0 x
  rw [Nat.zero_add, Nat.zero_add] at hstop
  have htail : slice? (width (x.takeWhile isWord)) (width x) x = some (x.dropWhile isWord) :=
    slice?_behind List.takeWhile_append_dropWhile.symm
  simp only [nameEnd, hstop, htail, Option.any_some, Token.name]
  cases x.dropWhile isWord with
  | nil => simp [headIs]
  | cons c y =>
    cases hc : isSuffix c with
    | true => simp [headIs, hc, utf8Size_of_isSuffix hc]
    | false => simp [headIs, hc]

theorem unquote_eq (read : List Char) (chars : List (Nat × Char)) :
    unquote read chars = Sexp.Walk.unquote read chars := by
  fun_induction unquote read chars with
  | case1 | case2 | case3 => rfl
  | case4 read _ _ c chars ih => exact ih
  | case5 read offset c chars hquote hlast hescape ih =>
    rw [Sexp.Walk.unquote, ih]
    exacts [hquote, hlast, hescape]

-- ---------------------------------------------------------------------------
-- Steps of the routines
-- ---------------------------------------------------------------------------

theorem leads_rest : Leads source (rest source) p p.rest p :=
  .within (.bind leads_position leads_take_rest)

theorem leads_advance (h : p.rest = w ++ x) :
    Leads source (advance (width w)) p () (p.after w x) := .within (leads_move h)

theorem leads_push : Leads source (push kind start) p ()
    ⟨p.pos, p.rest, ⟨kind, start⟩ :: p.store⟩ :=
  .within fun hin _ => ⟨[], rfl, hin, nofun⟩

theorem leads_emit (h : p.rest = w ++ x) : Leads source (emit (width w) kind start) p (.ok ())
    ⟨p.pos + width w, x, ⟨kind, start⟩ :: p.store⟩ :=
  .bind (leads_advance h) (.bind leads_push .pure)

theorem leads_name (h : p.rest = Token.name p.rest ++ x) :
    Leads source (name source) p (Token.name p.rest) (p.after (Token.name p.rest) x) := by
  refine .within (.bind leads_rest ?_)
  rw [nameEnd_eq]
  exact .bind (leads_advance h) (leads_take (slice?_front h))

theorem leads_quoted (hbody : Quotes body text) (hrest : p.rest = quotedText body ++ y) :
    Leads source (quoted source start) p (.ok ())
      ⟨p.pos + width (quotedText body), y, ⟨.str text, start⟩ :: p.store⟩ := by
  have hoffsets : (offsetsFrom 0 p.rest).drop 1 = offsetsFrom 1 (body ++ '"' :: y) := by
    simp [hrest, quotedText, offsetsFrom, Char.utf8Size]
  have hwidth : 1 + width body + 1 = width (quotedText body) := by
    simp [quotedText, Char.utf8Size, Nat.add_assoc]
  refine .within (.bind leads_rest ?_)
  rw [hoffsets, unquote_eq, Sexp.unquote_some hbody]
  dsimp only
  rw [hwidth]
  exact leads_emit hrest

theorem leads_quoted_error (h : Unterminated x) (hrest : p.rest = '"' :: x) :
    Leads source (quoted source start) p (.error ⟨.unclosedText, start⟩) p := by
  have hoffsets : (offsetsFrom 0 p.rest).drop 1 = offsetsFrom 1 x := by
    simp [hrest, offsetsFrom, Char.utf8Size]
  refine .within (.bind leads_rest ?_)
  rw [hoffsets, unquote_eq, Sexp.unquote_none h]
  exact .pure

-- ---------------------------------------------------------------------------
-- Tokens
-- ---------------------------------------------------------------------------

/-- The walk passes the characters of a token and keeps it, or has an error. -/
inductive Emits (source : List Char) (x : Lexer (Except Error Unit)) (p : Place (List Token))
    (start : Nat) : Except Error.Cause (Token.Kind × List Char) → Prop
  | ok {kind : Token.Kind} {taken behind : List Char} : p.rest = taken ++ behind →
      Leads source x p (.ok ()) ⟨p.pos + width taken, behind, ⟨kind, start⟩ :: p.store⟩ →
      Emits source x p start (.ok (kind, taken))
  | error {cause : Error.Cause} {q : Place (List Token)} :
      Leads source x p (.error ⟨cause, start⟩) q → Emits source x p start (.error cause)

theorem Emits.within {i : Routine} {y : Lexer (Except Error Unit)}
    (h : Emits source y p start out) : Emits source (Text.Walk.within i y) p start out := by
  cases h with
  | ok hrest hy => exact .ok hrest hy.within
  | error hy => exact .error hy.within

theorem Emits.bind {y : Lexer α} {v : α} {g : α → Lexer (Except Error Unit)}
    (hy : Leads source y p v p) (h : Emits source (g v) p start out) :
    Emits source (y >>= g) p start out := by
  cases h with
  | ok hrest hg => exact .ok hrest (.bind hy hg)
  | error hg => exact .error (.bind hy hg)

/-- The scan counts the characters of `x` that belong to a token behind `before`. -/
def pieceOf (before x : List Char) (r : Except Error.Cause (Token.Kind × Nat)) :
    Except Error.Cause (Token.Kind × List Char) :=
  r.map fun (kind, n) => (kind, before ++ x.take n)

theorem pieceOf_ok (h : w <+: x) (before : List Char) (kind : Token.Kind) :
    pieceOf before x (.ok (kind, w.length)) = .ok (kind, before ++ w) := by
  obtain ⟨y, rfl⟩ := h
  simp [pieceOf, Except.map]

theorem pieceOf_cons (h : w <+: c :: x) (hw : w ≠ []) (kind : Token.Kind) :
    pieceOf [c] x (.ok (kind, w.length - 1)) = .ok (kind, w) := by
  obtain ⟨d, w, rfl⟩ := List.exists_cons_of_ne_nil hw
  obtain ⟨rfl, hw⟩ := List.cons_prefix_cons.1 h
  exact pieceOf_ok hw [d] kind

theorem Emits.after {y : Lexer Unit} {z : Lexer (Except Error Unit)}
    {r : Except Error.Cause (Token.Kind × Nat)} (hrest : p.rest = c :: x)
    (hy : Leads source y p () (p.after [c] x))
    (h : Emits source z (p.after [c] x) start (pieceOf [] x r)) :
    Emits source (do y; z) p start (pieceOf [c] x r) := by
  cases r with
  | error cause =>
    cases h with
    | error hz => exact .error (.bind hy hz)
  | ok r =>
    cases h with
    | @ok _ taken behind hx hz =>
      have hpos : (p.after [c] x).pos + width (x.take r.2) = p.pos + width (c :: x.take r.2) := by
        simp [Place.after, Nat.add_assoc]
      rw [List.nil_append, hpos] at hz
      exact .ok (hrest.trans (congrArg (c :: ·) hx)) (.bind hy hz)

theorem emits_front (hrest : p.rest = c :: x) (h : w <+: c :: x) (hw : w ≠ []) :
    Emits source (emit (width w) kind start) p start
      (pieceOf [c] x (.ok (kind, w.length - 1))) := by
  rw [pieceOf_cons h hw]
  obtain ⟨y, hy⟩ := h
  have hsplit : p.rest = w ++ y := hrest.trans hy.symm
  exact .ok hsplit (leads_emit hsplit)

theorem emits_one (hrest : p.rest = c :: x) (hc : c.utf8Size = 1) :
    Emits source (emit 1 kind start) p start (pieceOf [c] x (.ok (kind, 0))) := by
  have hfront : [c] <+: c :: x := ⟨x, rfl⟩
  simpa [hc] using emits_front hrest hfront (List.cons_ne_nil _ _)

theorem emits_name (f : List Char → Token.Kind) : Emits source (do
      push (f (← name source)) start
      return .ok ()) p start (.ok (f (Token.name p.rest), Token.name p.rest)) := by
  obtain ⟨y, hy⟩ := Token.name_isPrefix p.rest
  exact .ok hy.symm (.bind (leads_name hy.symm) (.bind leads_push .pure))

theorem emits_digits {f : List Char → Option Token.Kind} (h : p.rest = w ++ y)
    (hnone : f w = none → out = .error (.outOfRange w))
    (hsome : ∀ kind, f w = some kind → out = .ok (kind, w)) :
    Emits source (do
      let digits ← take p.rest 0 (width w)
      match f digits with
      | none => return .error ⟨.outOfRange digits, start⟩
      | some kind => emit (width w) kind start) p start out := by
  refine .bind (leads_take (slice?_front h)) ?_
  cases hf : f w with
  | none =>
    rw [hnone hf]
    exact .error .pure
  | some kind =>
    rw [hsome kind hf]
    exact .ok h (leads_emit h)

theorem emits_numeral (hrest : p.rest = sign ++ x)
    (hsign : (if p.rest.head? = some '-' then 1 else 0) = width sign) :
    Emits source (number source start) p start (numeral sign x) := by
  have hsplit : p.rest = (sign ++ x.takeWhile Char.isDigit) ++ x.dropWhile Char.isDigit := by
    rw [hrest, List.append_assoc, List.takeWhile_append_dropWhile]
  have hwhole : digitsEnd p.rest (width sign) = width (sign ++ x.takeWhile Char.isDigit) := by
    rw [hrest, digitsEnd_append, width_append]
  refine .within (.bind leads_rest ?_)
  simp only [hsign, hwhole, slice?_behind hsplit, Option.any_some, numeral]
  cases hpoint : startsFraction (x.dropWhile Char.isDigit) with
  | false =>
    simp only [Bool.false_eq_true, if_false]
    refine emits_digits hsplit (fun hnone => ?_) fun kind hsome => ?_
    · rw [Option.map_eq_none_iff.1 hnone]
    · obtain ⟨n, hint, rfl⟩ := Option.map_eq_some_iff.1 hsome
      rw [hint]
  | true =>
    obtain ⟨d, z, hdot, -⟩ := startsFraction_iff.1 hpoint
    rw [hdot] at hsplit
    generalize sign ++ x.takeWhile Char.isDigit = whole at hsplit ⊢
    have hfront : p.rest = (whole ++ ['.']) ++ d :: z := by simpa using hsplit
    have hdigits : (whole ++ ['.']) ++ (d :: z).takeWhile Char.isDigit =
        whole ++ '.' :: (d :: z).takeWhile Char.isDigit := by simp
    have hwidth : width whole + 1 = width (whole ++ ['.']) := by simp [Char.utf8Size]
    have hstop : digitsEnd p.rest (width whole + 1) =
        width (whole ++ '.' :: (d :: z).takeWhile Char.isDigit) := by
      rw [hwidth, hfront, digitsEnd_append, ← width_append, hdigits]
    have hrest : p.rest = (whole ++ '.' :: (d :: z).takeWhile Char.isDigit) ++
        (d :: z).dropWhile Char.isDigit := by
      rw [← hdigits, List.append_assoc, List.takeWhile_append_dropWhile, hfront]
    simp only [if_true, hdot, List.drop_one, List.tail_cons, hstop]
    refine emits_digits hrest (fun hnone => ?_) fun kind hsome => ?_
    · rw [Option.map_eq_none_iff.1 hnone]
    · obtain ⟨n, hfloat, rfl⟩ := Option.map_eq_some_iff.1 hsome
      rw [hfloat]

theorem emits_number (hrest : p.rest = c :: x) :
    Emits source (number source start) p start (Token.number (c :: x)) := by
  rw [Token.number_cons]
  by_cases hc : c = '-'
  · subst hc
    have hsplit : p.rest = ['-'] ++ x := hrest
    rw [if_pos rfl]
    exact emits_numeral hsplit (by simp [hrest, Char.utf8Size])
  · have hsplit : p.rest = [] ++ c :: x := hrest
    rw [if_neg hc]
    exact emits_numeral hsplit (by simp [hrest, hc])

theorem number_ne_nil (h : Token.number (c :: x) = .ok (kind, w))
    (hc : c.isDigit = true ∨ c = '-') : w ≠ [] := by
  rw [Token.number_cons] at h
  split at h
  · rw [Token.numeral_text h]
    simp
  · next hminus =>
    have hdigit : c.isDigit = true := hc.resolve_right hminus
    rw [Token.numeral_text h]
    simp [hdigit]

theorem pieceOf_number (hc : c.isDigit = true ∨ c = '-') :
    pieceOf [c] x ((Token.number (c :: x)).map fun (kind, text) => (kind, text.length - 1)) =
      Token.number (c :: x) := by
  cases h : Token.number (c :: x) with
  | error cause => rfl
  | ok r => exact pieceOf_cons (Token.number_isPrefix h) (number_ne_nil h hc) r.1

theorem emits_argument (hrest : p.rest = '%' :: x) :
    Emits source (argument source start) p start (pieceOf ['%'] x (Token.argument x)) := by
  have hsplit : '%' :: x.takeWhile Char.isDigit ++ x.dropWhile Char.isDigit = '%' :: x := by
    rw [List.cons_append, List.takeWhile_append_dropWhile]
  have hstop : digitsEnd p.rest 1 = width ('%' :: x.takeWhile Char.isDigit) := by
    rw [hrest]
    exact digitsEnd_append ['%'] x
  have hdigits : slice? 1 (width ('%' :: x.takeWhile Char.isDigit)) p.rest =
      some (x.takeWhile Char.isDigit) := by
    rw [hrest, ← hsplit]
    exact slice?_append ['%'] _ _
  refine .within (.bind leads_rest ?_)
  simp only [hstop, hdigits, Option.bind_some, Token.argument]
  rcases Number.natural? (x.takeWhile Char.isDigit) with _ | _ | n
  · exact .error .pure
  · exact .error .pure
  · exact emits_front hrest ⟨_, hsplit⟩ (List.cons_ne_nil _ _)

theorem emits_quoted (hrest : p.rest = '"' :: x) :
    Emits source (quoted source start) p start (pieceOf ['"'] x (Token.str x)) := by
  rcases quoted_cases x with ⟨body, text, after, hbody, rfl⟩ | hx
  · have hsplit : (body ++ ['"']) ++ after = body ++ '"' :: after := by simp
    have hfront : p.rest = quotedText body ++ after :=
      hrest.trans (congrArg ('"' :: ·) hsplit.symm)
    rw [Token.str_quotes hbody, pieceOf_ok ⟨after, hsplit⟩]
    exact .ok hfront (leads_quoted hbody hfront)
  · rw [Token.str_unterminated hx]
    exact .error (leads_quoted_error hx hrest)

theorem emits_symbol (hrest : p.rest = ':' :: x) :
    Emits source (symbol source start) p start (pieceOf [':'] x (Token.symbol x)) := by
  have hcolon : Leads source (advance 1) p () (p.after [':'] x) :=
    leads_advance (w := [':']) hrest
  have hx : (p.after [':'] x).rest = x := rfl
  refine .within (.after hrest hcolon (.bind leads_rest ?_))
  rw [hx, Token.symbol]
  cases hop : operator? x with
  | some op =>
    obtain ⟨y, rfl⟩ := Token.operator?_isPrefix hop
    dsimp only
    rw [pieceOf_ok ⟨y, rfl⟩]
    exact .ok hx (leads_emit hx)
  | none =>
    dsimp only
    cases headIs isWord x with
    | true =>
      rw [if_pos rfl, if_pos rfl, pieceOf_ok (Token.name_isPrefix x)]
      exact emits_name .symbol
    | false => exact .error .pure

theorem operator_ne_nil (h : operator? x = some w) : w ≠ [] := by
  have hoperators : ∀ op ∈ operators, op ≠ [] := by decide
  exact hoperators w (List.mem_of_find?_eq_some h)

theorem utf8Size_of_single (h : Token.single? c = some kind) : c.utf8Size = 1 := by
  unfold Token.single? at h
  split at h
  all_goals first
    | rfl
    | cases h

theorem emits_token (hrest : p.rest = c :: x) :
    Emits source (token source c) p p.pos (pieceOf [c] x (Token.next c x)) := by
  have hsecond (f : Char → Bool) : (p.rest[1]?).any f = headIs f x := by
    rw [hrest]
    cases x <;> rfl
  refine .within (.bind leads_position (.bind leads_rest ?_))
  rw [hsecond, hsecond, hrest, Token.next]
  by_cases hminus : (c = '-' && headIs Char.isDigit x) = true
  · rw [if_pos hminus, if_pos hminus, pieceOf_number (.inr (by simp at hminus; exact hminus.1))]
    exact emits_number hrest
  rw [if_neg hminus, if_neg hminus]
  cases hop : operator? (c :: x) with
  | some op => exact emits_front hrest (Token.operator?_isPrefix hop) (operator_ne_nil hop)
  | none =>
    dsimp only
    by_cases hdigit : c.isDigit = true
    · rw [if_pos hdigit, if_pos hdigit, pieceOf_number (.inl hdigit)]
      exact emits_number hrest
    rw [if_neg hdigit, if_neg hdigit]
    by_cases hdots : ['.', '.', '.'].isPrefixOf (c :: x) = true
    · rw [if_pos hdots, if_pos hdots]
      exact emits_front (w := ['.', '.', '.']) hrest (List.isPrefixOf_iff_prefix.1 hdots)
        (List.cons_ne_nil _ _)
    rw [if_neg hdots, if_neg hdots]
    by_cases hline : (c = '_' && !headIs isWord x) = true
    · have hc : c = '_' := by
        simp only [Bool.and_eq_true, decide_eq_true_eq] at hline
        exact hline.1
      rw [if_pos hline, if_pos hline]
      exact emits_one hrest (by rw [hc]; rfl)
    rw [if_neg hline, if_neg hline]
    cases hsingle : Token.single? c with
    | some kind => exact emits_one hrest (utf8Size_of_single hsingle)
    | none =>
      dsimp only
      by_cases hargument : c = '%'
      · subst hargument
        exact emits_argument hrest
      rw [if_neg hargument, if_neg hargument]
      by_cases hquote : c = '"'
      · subst hquote
        exact emits_quoted hrest
      rw [if_neg hquote, if_neg hquote]
      by_cases hcolon : c = ':'
      · subst hcolon
        exact emits_symbol hrest
      rw [if_neg hcolon, if_neg hcolon]
      by_cases hword : isWord c = true
      · rw [if_pos hword, if_pos hword]
        have hname : Token.name (c :: x) ≠ [] :=
          List.ne_nil_of_length_pos (Token.length_name_pos hword)
        rw [pieceOf_cons (Token.name_isPrefix _) hname, ← hrest]
        exact emits_name .word
      · rw [if_neg hword, if_neg hword]
        exact .error .pure

-- ---------------------------------------------------------------------------
-- The loop
-- ---------------------------------------------------------------------------

/-- The walk keeps the tokens of the scan, or has its error. -/
inductive Cuts (source : List Char) (x : Lexer (Except Error Unit)) (p : Place (List Token)) :
    Except Error (List Token) → Prop
  | ok {ts : List Token} {q : Place (List Token)} : Leads source x p (.ok ()) q →
      q.store = ts.reverse ++ p.store → Cuts source x p (.ok ts)
  | error {e : Error} {q : Place (List Token)} : Leads source x p (.error e) q →
      Cuts source x p (.error e)

theorem Cuts.bind {y : Lexer α} {v : α} {g : α → Lexer (Except Error Unit)}
    {r : Except Error (List Token)} (hy : Leads source y p v q) (hstore : q.store = p.store)
    (h : Cuts source (g v) q r) : Cuts source (y >>= g) p r := by
  cases h with
  | ok hg hts => exact .ok (.bind hy hg) (hstore ▸ hts)
  | error hg => exact .error (.bind hy hg)

theorem Cuts.cons {y : Lexer α} {v : α} {g : α → Lexer (Except Error Unit)} {t : Token}
    {r : Except Error (List Token)} (hy : Leads source y p v q) (hstore : q.store = t :: p.store)
    (h : Cuts source (g v) q r) : Cuts source (y >>= g) p (r.map (t :: ·)) := by
  cases h with
  | ok hg hts => exact .ok (.bind hy hg) (by simp [hts, hstore])
  | error hg => exact .error (.bind hy hg)

theorem cuts_tokensLoop {n : Nat} (h : width p.rest < n) :
    Cuts source (tokensLoop source n) p (Token.scanFrom p.pos p.rest) := by
  induction n generalizing p with
  | zero => exact absurd h (Nat.not_lt_zero _)
  | succ n ih =>
    rw [tokensLoop]
    refine .bind leads_position rfl (.bind leads_rest rfl ?_)
    cases hrest : p.rest with
    | nil =>
      rw [Token.scanFrom]
      exact .ok .pure rfl
    | cons c x =>
      have hsize := c.utf8Size_pos
      dsimp only [List.head?_cons]
      cases hspace : isSpace c with
      | true =>
        have hadvance : Leads source (advance c.utf8Size) p () (p.after [c] x) :=
          leads_advance (w := [c]) hrest
        have hless : width x < n := by
          rw [hrest, width_cons] at h
          omega
        rw [if_pos rfl, Token.scanFrom_space hspace]
        exact .bind hadvance rfl
          (.bind (leads_turn (Place.lt_after (List.cons_ne_nil _ _))) rfl (ih hless))
      | false =>
        rw [if_neg Bool.false_ne_true]
        have htoken : Emits source _ p p.pos _ := emits_token hrest
        cases hnext : Token.next c x with
        | error cause =>
          rw [hnext] at htoken
          cases htoken with
          | error hx =>
            rw [Token.scanFrom_broken hspace hnext]
            exact .error (.bind hx .pure)
        | ok r =>
          obtain ⟨kind, m⟩ := r
          rw [hnext] at htoken
          rw [Token.scanFrom_token hspace hnext]
          cases htoken with
          | @ok _ _ behind hsplit hx =>
            obtain rfl : x.drop m = behind := by
              have hx : c :: x.take m ++ x.drop m = c :: x.take m ++ behind := by
                rw [List.cons_append, List.take_append_drop, ← hrest, hsplit]
                rfl
              exact List.append_cancel_left hx
            have hpos : p.pos + width ([c] ++ x.take m) =
                p.pos + c.utf8Size + width (x.take m) := by simp [Nat.add_assoc]
            have hless : width (x.drop m) < n := by
              rw [hsplit, width_append, List.singleton_append, width_cons] at h
              omega
            rw [hpos] at hx
            refine .cons hx rfl ?_
            exact .bind (leads_turn (by simp; omega)) rfl (ih hless)

theorem exists_tokenize (source : List Char) :
    ∃ c, tokenize source = some (Token.scan source, c) ∧ ∀ m ∈ c.marks, m.Sound source := by
  have hin : Place.In source (⟨0, source, []⟩ : Place (List Token)) := ⟨[], rfl, rfl⟩
  have hcuts : Cuts source _ ⟨0, source, []⟩ _ := cuts_tokensLoop hin.lt_turns
  rw [tokenize, tokens, Token.scan]
  generalize Token.scanFrom 0 source = r at hcuts ⊢
  cases hcuts with
  | @ok ts q hleads hstore =>
    obtain ⟨made, hrun, -, hmade⟩ := hleads.within (i := .tokens) hin []
    rw [List.append_nil] at hrun
    refine ⟨⟨q.pos, q.store, made⟩, ?_, hmade⟩
    rw [hrun]
    simp [hstore, Except.map]
  | @error e q hleads =>
    obtain ⟨made, hrun, -, hmade⟩ := hleads.within (i := .tokens) hin []
    rw [List.append_nil] at hrun
    refine ⟨⟨q.pos, q.store, made⟩, ?_, hmade⟩
    rw [hrun]
    rfl

end TreeQuery.Pattern.Walk
