import TreeQuery.Proofs.Number.Integer
import TreeQuery.Proofs.Pattern.Grammar
import TreeQuery.Proofs.Text.Class
import TreeQuery.Query

/-!
# The tokens of pattern texts

`Scans` relates a text to its tokens, without their offsets; a text compiles to the one pattern
that its tokens derive (`compile_eq_ok_iff`). Then, for each kind of token, what is read as it:
before white space, a closing bracket or the end, every piece of text is read as it stands.
-/

namespace TreeQuery.Pattern.Token

open Text (isSpace isWord Ends)

inductive Scans : List Char → List Kind → Prop
  | nil : Scans [] []
  | space {c cs ks} : isSpace c = true → Scans cs ks → Scans (c :: cs) ks
  | token {c rest k n ks} : isSpace c = false → next c rest = .ok (k, n) →
      Scans (rest.drop n) ks → Scans (c :: rest) (k :: ks)

/-- A run of word characters, and possibly one mark behind it. -/
inductive IsName : List Char → Prop
  | plain {w} : w ≠ [] → (∀ c ∈ w, isWord c = true) → IsName w
  | marked {w c} : w ≠ [] → (∀ c ∈ w, isWord c = true) → isSuffix c = true → IsName (w ++ [c])

variable {pos : Nat} {c : Char} {cs w x rest name text : List Char} {k : Kind} {ks : List Kind}
  {ts : List Token} {n : Int64}

theorem Scans.scanFrom (h : Scans cs ks) (pos : Nat) :
    ∃ ts, scanFrom pos cs = .ok ts ∧ ts.map Token.kind = ks := by
  induction h generalizing pos with
  | nil => exact ⟨[], by simp [Token.scanFrom], rfl⟩
  | @space c cs ks hc _ ih =>
    obtain ⟨ts, hts, hks⟩ := ih (pos + c.utf8Size)
    exact ⟨ts, by rw [Token.scanFrom, if_pos hc, hts], hks⟩
  | @token c rest k n ks hc hnext _ ih =>
    obtain ⟨ts, hts, hks⟩ := ih (pos + c.utf8Size + Text.width (rest.take n))
    refine ⟨⟨k, pos⟩ :: ts, ?_, by rw [List.map_cons, hks]⟩
    simp [Token.scanFrom, hc, hnext, hts, Except.map]

theorem scans_of_scanFrom (h : scanFrom pos cs = .ok ts) : Scans cs (ts.map Token.kind) := by
  fun_induction Token.scanFrom pos cs generalizing ts with
  | case1 =>
    cases h
    exact .nil
  | case2 pos c rest hc ih => exact .space hc (ih h)
  | case3 => cases h
  | case4 pos c rest hc k n hnext ih =>
    cases hrest : scanFrom (pos + c.utf8Size + Text.width (rest.take n)) (rest.drop n) with
    | error e =>
      rw [hrest] at h
      cases h
    | ok us =>
      rw [hrest] at h
      cases h
      exact .token (by simpa using hc) hnext (ih hrest)

theorem compile_eq_ok_iff {args : List Tree} {q : Query} : Query.compile text args = .ok q ↔
    q.source = text ∧ ∃ ks, Scans text ks ∧ Parser.Derives args ks [q.root] := by
  constructor
  · intro h
    unfold Query.compile at h
    cases hscan : Token.scan text with
    | error e =>
      rw [hscan] at h
      cases h
    | ok ts =>
      cases hparse : Parser.parse args ts with
      | error e =>
        simp only [hscan, Except.bind, hparse] at h
        cases h
      | ok p =>
        simp only [hscan, Except.bind, hparse] at h
        cases h
        exact ⟨rfl, _, scans_of_scanFrom hscan, Parser.parse_eq_ok_iff.1 hparse⟩
  · rcases q with ⟨source, root⟩
    rintro ⟨rfl, ks, hks, hroot⟩
    obtain ⟨ts, hscan, rfl⟩ := hks.scanFrom 0
    have hparse := Parser.parse_eq_ok_iff.2 hroot
    simp only [Query.compile, Token.scan, hscan, Except.bind, hparse, Except.map]

theorem Scans.piece (hc : isSpace c = false) (hnext : next c (w ++ rest) = .ok (k, w.length))
    (h : Scans rest ks) : Scans (c :: (w ++ rest)) (k :: ks) :=
  .token hc hnext (by rwa [List.drop_left])

-- ---------------------------------------------------------------------------
-- Signs
-- ---------------------------------------------------------------------------

/-- What may follow an expression in a rendering. -/
def Boundary (rest : List Char) : Prop := ∀ c, rest.head? = some c → c ∈ [' ', ')', ']', '}']

theorem Boundary.cases (h : Boundary rest) :
    rest = [] ∨ ∃ x, rest = ' ' :: x ∨ rest = ')' :: x ∨ rest = ']' :: x ∨ rest = '}' :: x := by
  cases rest with
  | nil => exact .inl rfl
  | cons c x =>
    have := h c rfl
    simp only [List.mem_cons, List.not_mem_nil, or_false] at this
    rcases this with rfl | rfl | rfl | rfl <;> simp

theorem Boundary.ends {f : Char → Bool} (h : Boundary rest)
    (hf : [' ', ')', ']', '}'].all (!f ·) = true) : Ends f rest := by
  intro c hc
  simpa using List.all_eq_true.1 hf c (h c hc)

theorem next_opener (b : Bracket) (rest : List Char) :
    next b.opener rest = .ok (.opening b, 0) := by
  cases b <;> rfl

theorem next_closer (b : Bracket) (rest : List Char) :
    next b.closer rest = .ok (.closing b, 0) := by
  cases b <;> rfl

theorem next_sign (m : Marker) (h : m = .negation → rest.head? ≠ some '=') :
    next m.sign rest = .ok (.marker m, 0) := by
  cases m with
  | negation =>
    cases rest with
    | nil => rfl
    | cons c x =>
      have hc : ('=' == c) = false := by
        rw [beq_eq_false_iff_ne]
        rintro rfl
        exact h rfl rfl
      simp [Marker.sign, next, operator?, operators, List.find?, List.isPrefixOf, hc, single?]
  | _ => rfl

theorem next_wildcard (h : Ends isWord rest) : next '_' rest = .ok (.wildcard, 0) := by
  have hword : headIs isWord rest = false := by
    cases rest with
    | nil => rfl
    | cons c x => exact h c rfl
  simp [next, operator?, operators, List.find?, List.isPrefixOf, hword]

theorem next_operator (hop : c :: w ∈ operators) (h : Boundary rest) :
    next c (w ++ rest) = .ok (.word (c :: w), w.length) := by
  simp only [operators, List.mem_cons, List.cons.injEq, List.not_mem_nil, or_false] at hop
  rcases hop with ⟨rfl, rfl⟩ | ⟨rfl, rfl⟩ | ⟨rfl, rfl⟩ | ⟨rfl, rfl⟩ | ⟨rfl, rfl⟩ | ⟨rfl, rfl⟩ |
      ⟨rfl, rfl⟩ <;>
    rcases h.cases with rfl | ⟨x, rfl | rfl | rfl | rfl⟩ <;> rfl

-- ---------------------------------------------------------------------------
-- Names
-- ---------------------------------------------------------------------------

theorem isWord_of_isSuffix (h : isSuffix c = true) : isWord c = false := by
  simp only [isSuffix, Bool.or_eq_true, beq_iff_eq] at h
  rcases h with (rfl | rfl) | rfl <;> rfl

theorem IsName.exists_cons (h : IsName cs) : ∃ c w, cs = c :: w ∧ isWord c = true := by
  cases h with
  | plain hne hw =>
    obtain ⟨c, w, rfl⟩ := List.exists_cons_of_ne_nil hne
    exact ⟨c, w, rfl, hw c List.mem_cons_self⟩
  | marked hne hw _ =>
    obtain ⟨c, w, rfl⟩ := List.exists_cons_of_ne_nil hne
    exact ⟨c, _, rfl, hw c List.mem_cons_self⟩

theorem IsName.head (h : IsName (c :: w)) : isWord c = true := by
  obtain ⟨d, v, he, hd⟩ := h.exists_cons
  cases he
  exact hd

theorem IsName.name_append (h : IsName cs) (hrest : Boundary rest) :
    Token.name (cs ++ rest) = cs := by
  cases h with
  | plain hne hw =>
    have hends : Ends isWord rest := hrest.ends rfl
    unfold Token.name
    rw [hends.dropWhile hw, hends.takeWhile hw]
    rcases hrest.cases with rfl | ⟨x, rfl | rfl | rfl | rfl⟩ <;> rfl
  | @marked w c hne hw hc =>
    have hends : Ends isWord (c :: rest) := .cons (isWord_of_isSuffix hc)
    unfold Token.name
    rw [List.append_assoc, List.singleton_append, hends.dropWhile hw, hends.takeWhile hw]
    simp only [hc, if_true]

theorem isName_name (h : headIs isWord cs = true) : IsName (Token.name cs) := by
  have hne : cs.takeWhile isWord ≠ [] := by
    cases cs with
    | nil => cases h
    | cons c cs =>
      have hc : isWord c = true := h
      simp [hc]
  have hw : ∀ c ∈ cs.takeWhile isWord, isWord c = true :=
    fun c hc => List.all_eq_true.1 List.all_takeWhile c hc
  unfold Token.name
  split
  · split
    · exact .marked hne hw ‹_›
    · exact .plain hne hw
  · exact .plain hne hw

theorem operator?_of_isWord (h : isWord c = true) (rest : List Char) :
    operator? (c :: rest) = none := by
  have hne : ∀ d, isWord d = false → (d == c) = false := fun d hd =>
    beq_eq_false_iff_ne.2 (Text.ne_of_class h hd).symm
  simp [operator?, operators, List.find?, List.isPrefixOf, hne '=' rfl, hne '!' rfl, hne '+' rfl,
    hne '-' rfl, hne '*' rfl, hne '/' rfl]

theorem single?_of_isWord (h : isWord c = true) : single? c = none := by
  unfold single?
  split <;> first | rfl | exact absurd h (by decide)

/-- These begin with a wildcard: a line is read as one before anything but a word character. -/
def markedLines : List (List Char) := [['_', '!'], ['_', '?'], ['_', '=']]

theorem IsName.line (h : IsName ('_' :: w)) (hline : '_' :: w ≠ ['_'])
    (hmarked : '_' :: w ∉ markedLines) (rest : List Char) : headIs isWord (w ++ rest) = true := by
  cases w with
  | nil => exact absurd rfl hline
  | cons c w =>
    generalize he : '_' :: c :: w = cs at h
    cases h with
    | plain hne hall =>
      subst he
      exact hall c (by simp)
    | @marked v d hne hall hd =>
      match v with
      | [] => exact absurd rfl hne
      | [_] =>
        obtain ⟨rfl, rfl, rfl⟩ : '_' = _ ∧ c = d ∧ w = [] := by simpa using he
        simp only [isSuffix, Bool.or_eq_true, beq_iff_eq] at hd
        rcases hd with (rfl | rfl) | rfl <;> simp [markedLines] at hmarked
      | _ :: e :: v =>
        obtain ⟨rfl, rfl, -⟩ : '_' = _ ∧ c = e ∧ w = v ++ [d] := by simpa using he
        exact hall c (by simp)

theorem next_name (h : IsName (c :: w)) (hdigit : c.isDigit = false) (hw : c :: w ≠ ['_'])
    (hmarked : c :: w ∉ markedLines) (hrest : Boundary rest) :
    next c (w ++ rest) = .ok (.word (c :: w), w.length) := by
  have hc := h.head
  have hne : ∀ d, isWord d = false → c ≠ d := fun d hd => Text.ne_of_class hc hd
  have hdots : ['.', '.', '.'].isPrefixOf (c :: (w ++ rest)) = false := by
    simp [List.isPrefixOf, (hne '.' rfl).symm]
  have hline : (decide (c = '_') && !headIs isWord (w ++ rest)) = false := by
    by_cases hc : c = '_'
    · subst hc
      simp [h.line hw hmarked rest]
    · simp [hc]
  have hname : Token.name (c :: (w ++ rest)) = c :: w := h.name_append hrest
  simp [next, hne '-' rfl, operator?_of_isWord hc, hdigit, hdots, hline, single?_of_isWord hc,
    hne '%' rfl, hne '"' rfl, hne ':' rfl, hc, hname]

theorem next_colon (h : IsName w) (hrest : Boundary rest) :
    next ':' (w ++ rest) = .ok (.symbol w, w.length) := by
  obtain ⟨c, v, rfl, hc⟩ := h.exists_cons
  have hword : headIs isWord (c :: (v ++ rest)) = true := hc
  have hname : Token.name (c :: (v ++ rest)) = c :: v := h.name_append hrest
  show symbol (c :: (v ++ rest)) = _
  simp [symbol, operator?_of_isWord hc, hword, hname]

theorem next_colon_operator (hop : w ∈ operators) (h : Boundary rest) :
    next ':' (w ++ rest) = .ok (.symbol w, w.length) := by
  simp only [operators, List.mem_cons, List.not_mem_nil, or_false] at hop
  rcases hop with rfl | rfl | rfl | rfl | rfl | rfl | rfl <;>
    rcases h.cases with rfl | ⟨x, rfl | rfl | rfl | rfl⟩ <;> rfl

-- ---------------------------------------------------------------------------
-- Texts and numbers
-- ---------------------------------------------------------------------------

theorem next_str (text rest : List Char) :
    next '"' (Text.Quoted.body text ++ '"' :: rest) =
      .ok (.str text, (Text.Quoted.body text ++ ['"']).length) := by
  show str (Text.Quoted.body text ++ '"' :: rest) = _
  rw [str, Text.Quoted.decode?_body]
  simp
  omega

theorem next_number (h : c.isDigit = true ∨ c = '-' ∧ headIs Char.isDigit rest = true) :
    next c rest = (number (c :: rest)).map fun (kind, text) => (kind, text.length - 1) := by
  rcases h with hc | ⟨rfl, hrest⟩
  · have hminus : c ≠ '-' := Text.ne_of_class hc rfl
    simp [next, hminus, operator?_of_isWord (Text.isWord_of_isDigit hc), hc]
  · simp [next, hrest]

theorem number_eq {sign ds : List Char} (hsign : sign = [] ∨ sign = ['-']) (hne : ds ≠ [])
    (hds : ∀ c ∈ ds, c.isDigit = true) :
    number (sign ++ (ds ++ rest)) = numeral sign (ds ++ rest) := by
  rcases hsign with rfl | rfl
  · obtain ⟨c, cs, rfl⟩ := List.exists_cons_of_ne_nil hne
    have hminus : c ≠ '-' := Text.ne_of_class (hds c List.mem_cons_self) rfl
    unfold number
    split
    · next hcons => exact absurd (List.cons.inj hcons).1 hminus
    · rfl
  · rfl

theorem numeral_int {sign ds : List Char} (hds : ∀ c ∈ ds, c.isDigit = true)
    (hends : Ends Char.isDigit rest) (hrest : startsFraction rest = false)
    (hn : Number.integer? (sign ++ ds) = some n) :
    numeral sign (ds ++ rest) = .ok (.int n, sign ++ ds) := by
  simp only [numeral, hends.takeWhile hds, hends.dropWhile hds, hrest, Bool.false_eq_true, if_false,
    hn]

theorem numeral_float {sign ds fs : List Char} {x : Binary64} (hds : ∀ c ∈ ds, c.isDigit = true)
    (hne : fs ≠ []) (hfs : ∀ c ∈ fs, c.isDigit = true) (hends : Ends Char.isDigit rest)
    (hx : Binary64.ofText? (sign ++ (ds ++ '.' :: fs)) = some x) :
    numeral sign (ds ++ '.' :: (fs ++ rest)) = .ok (.float x, sign ++ (ds ++ '.' :: fs)) := by
  have hpoint : Ends Char.isDigit ('.' :: (fs ++ rest)) := .cons rfl
  have hfraction : startsFraction ('.' :: (fs ++ rest)) = true := by
    obtain ⟨f, fs, rfl⟩ := List.exists_cons_of_ne_nil hne
    exact hfs f List.mem_cons_self
  simp only [numeral, hpoint.takeWhile hds, hpoint.dropWhile hds, hfraction, if_true,
    List.drop_one, List.tail_cons, hends.takeWhile hfs, List.append_assoc, hx]

-- ---------------------------------------------------------------------------
-- Pieces of a rendering
-- ---------------------------------------------------------------------------

/-- Before a boundary the text is read as this token. -/
def Piece (k : Kind) (text : List Char) : Prop :=
  ∀ rest ks, Boundary rest → Scans rest ks → Scans (text ++ rest) (k :: ks)

theorem Piece.of_next (hc : isSpace c = false)
    (h : ∀ rest, Boundary rest → next c (w ++ rest) = .ok (k, w.length)) : Piece k (c :: w) :=
  fun _ _ hrest hks => .piece hc (h _ hrest) hks

theorem piece_wildcard : Piece .wildcard ['_'] :=
  .of_next rfl fun _ hrest => next_wildcard (hrest.ends rfl)

theorem piece_ellipsis : Piece .ellipsis ['.', '.', '.'] := .of_next rfl fun _ _ => rfl

theorem piece_operator (h : cs ∈ operators) : Piece (.word cs) cs := by
  cases cs with
  | nil => simp [operators] at h
  | cons c w =>
    refine .of_next ?_ fun _ hrest => next_operator h hrest
    have hall : ∀ op ∈ operators, (op.head?.map isSpace) ≠ some true := by decide
    simpa using hall _ h

theorem piece_name (h : IsName cs) (hdigit : (cs.head?.map Char.isDigit).getD false = false)
    (hw : cs ≠ ['_']) (hmarked : cs ∉ markedLines) : Piece (.word cs) cs := by
  obtain ⟨c, w, rfl, hc⟩ := h.exists_cons
  exact .of_next (Text.isSpace_of_isWord hc) fun _ hrest => next_name h hdigit hw hmarked hrest

theorem piece_colon (h : IsName cs) : Piece (.symbol cs) (':' :: cs) :=
  .of_next rfl fun _ hrest => next_colon h hrest

theorem piece_colon_operator (h : cs ∈ operators) : Piece (.symbol cs) (':' :: cs) :=
  .of_next rfl fun _ hrest => next_colon_operator h hrest

theorem piece_str (text : List Char) : Piece (.str text) (Text.Quoted.encode text) := by
  refine Piece.of_next (w := Text.Quoted.body text ++ ['"']) rfl fun rest _ => ?_
  rw [List.append_assoc]
  exact next_str text rest

theorem piece_number {sign ds tail : List Char} (hsign : sign = [] ∨ sign = ['-']) (hne : ds ≠ [])
    (hds : ∀ c ∈ ds, c.isDigit = true) (h : ∀ rest, Boundary rest →
      number (sign ++ (ds ++ (tail ++ rest))) = .ok (k, sign ++ (ds ++ tail))) :
    Piece k (sign ++ (ds ++ tail)) := by
  obtain ⟨c, cs, rfl⟩ := List.exists_cons_of_ne_nil hne
  have hc := hds c List.mem_cons_self
  rcases hsign with rfl | rfl
  · have hspace := Text.isSpace_of_isWord (Text.isWord_of_isDigit hc)
    refine Piece.of_next (w := cs ++ tail) hspace fun rest hrest => ?_
    have := h rest hrest
    simp only [List.nil_append, List.cons_append] at this
    rw [next_number (.inl hc), List.append_assoc, this]
    rfl
  · refine Piece.of_next (w := c :: cs ++ tail) rfl fun rest hrest => ?_
    have := h rest hrest
    have hhead : headIs Char.isDigit (c :: (cs ++ (tail ++ rest))) = true := hc
    simp only [List.nil_append, List.cons_append] at this
    rw [List.cons_append, List.cons_append, List.append_assoc, next_number (.inr ⟨rfl, hhead⟩),
      this]
    rfl

theorem Boundary.startsFraction (h : Boundary rest) : startsFraction rest = false := by
  rcases h.cases with rfl | ⟨x, rfl | rfl | rfl | rfl⟩ <;> rfl

theorem piece_int (n : Int64) : Piece (.int n) (Number.decimalInt n.toInt) := by
  have hread := Number.integer?_decimalInt n
  obtain ⟨sign, hsign, htext⟩ : ∃ sign, (sign = [] ∨ sign = ['-']) ∧
      Number.decimalInt n.toInt = sign ++ (Number.decimal n.toInt.natAbs ++ []) := by
    unfold Number.decimalInt
    split
    · exact ⟨['-'], .inr rfl, by simp⟩
    · exact ⟨[], .inl rfl, by simp⟩
  rw [htext] at hread ⊢
  have hds : ∀ c ∈ Number.decimal n.toInt.natAbs, c.isDigit = true :=
    fun c hc => Number.isDigit_of_mem_decimal hc
  refine piece_number hsign (Number.decimal_ne_nil _) hds fun rest hrest => ?_
  rw [List.append_nil] at hread
  rw [List.nil_append, number_eq hsign (Number.decimal_ne_nil _) hds, List.append_nil]
  exact numeral_int hds (hrest.ends rfl) hrest.startsFraction hread

theorem piece_float {sign ds fs : List Char} {x : Binary64} (hsign : sign = [] ∨ sign = ['-'])
    (hne : ds ≠ []) (hds : ∀ c ∈ ds, c.isDigit = true) (hnef : fs ≠ [])
    (hfs : ∀ c ∈ fs, c.isDigit = true)
    (hx : Binary64.ofText? (sign ++ (ds ++ '.' :: fs)) = some x) :
    Piece (.float x) (sign ++ (ds ++ '.' :: fs)) := by
  refine piece_number hsign hne hds fun rest hrest => ?_
  rw [number_eq hsign hne hds]
  exact numeral_float hds hnef hfs (hrest.ends rfl) hx

-- ---------------------------------------------------------------------------
-- Signs in a rendering
-- ---------------------------------------------------------------------------

theorem Scans.opener (b : Bracket) (h : Scans rest ks) :
    Scans (b.opener :: rest) (.opening b :: ks) :=
  .piece (w := []) (by cases b <;> rfl) (next_opener b rest) h

theorem Scans.closer (b : Bracket) (h : Scans rest ks) :
    Scans (b.closer :: rest) (.closing b :: ks) :=
  .piece (w := []) (by cases b <;> rfl) (next_closer b rest) h

theorem Scans.sign (m : Marker) (hm : m = .negation → rest.head? ≠ some '=') (h : Scans rest ks) :
    Scans (m.sign :: rest) (.marker m :: ks) :=
  .piece (w := []) (by cases m <;> rfl) (next_sign m hm) h

theorem Scans.backslash (h : Scans rest ks) : Scans ('\\' :: rest) (.backslash :: ks) :=
  .piece (w := []) rfl rfl h

end TreeQuery.Pattern.Token
