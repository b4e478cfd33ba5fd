import Mathlib.Data.List.Find
import TreeQuery.Proofs.Pattern.Scan
import TreeQuery.Proofs.Sexp.Notation
import TreeQuery.Proofs.Text.Class

/-!
# What stands behind a token

White space and closing brackets go on with no token but a quoted text. For each kind of token:
before these it is read as at the end of the text, and it is read in the same way when the text is
cut off behind it.
-/

namespace TreeQuery.Pattern.Token

open Sexp (Quotes Unterminated)
open Text (isSpace isWord Ends Contained)

def isStop (c : Char) : Bool := isSpace c || [')', ']', '}'].contains c

/-- The end of the text, or white space or a closing bracket first. -/
def Delimits (y : List Char) : Prop := ∀ c, y.head? = some c → isStop c = true

variable {c : Char} {x y sign op text after : List Char} {f : Char → Bool} {k : Kind} {n : Nat}

theorem isWord_of_isStop (h : isStop c = true) : isWord c = false := by
  simp only [isStop, Bool.or_eq_true, List.contains_eq_mem, List.mem_cons, List.not_mem_nil,
    or_false, decide_eq_true_eq] at h
  rcases h with hspace | rfl | rfl | rfl
  · exact Text.isWord_of_isSpace hspace
  all_goals rfl

theorem isSuffix_of_isStop (h : isStop c = true) : isSuffix c = false := by
  rw [Bool.eq_false_iff]
  intro hc
  simp only [isSuffix, Bool.or_eq_true, beq_iff_eq] at hc
  rcases hc with (rfl | rfl) | rfl <;> cases h

theorem isDigit_of_isStop (h : isStop c = true) : c.isDigit = false := by
  rw [Bool.eq_false_iff]
  intro hc
  simpa [isWord_of_isStop h] using Text.isWord_of_isDigit hc

theorem Delimits.ends (h : Delimits y) (hf : ∀ c, isStop c = true → f c = false) : Ends f y :=
  fun c hc => hf c (h c hc)

theorem Delimits.word (h : Delimits y) : Ends isWord y := h.ends fun _ => isWord_of_isStop

theorem Delimits.digit (h : Delimits y) : Ends Char.isDigit y := h.ends fun _ => isDigit_of_isStop

theorem headIs_eq_false (h : Ends f y) : headIs f y = false := by
  cases y with
  | nil => rfl
  | cons c y => exact h c rfl

theorem headIs_append (h : Ends f y) (x : List Char) : headIs f (x ++ y) = headIs f x := by
  cases x with
  | nil => exact headIs_eq_false h
  | cons c x => rfl

theorem headIs_of_append (h : headIs f (x ++ y) = true) (hx : x ≠ []) : headIs f x = true := by
  cases x with
  | nil => exact absurd rfl hx
  | cons c x => exact h

theorem headIs_eq_false_of_append (h : headIs f (x ++ y) = false) : headIs f x = false := by
  cases x with
  | nil => rfl
  | cons c x => exact h

-- ---------------------------------------------------------------------------
-- Operators
-- ---------------------------------------------------------------------------

theorem isPrefixOf_append (hy : Delimits y) (hop : op.all (!isStop ·) = true) :
    op.isPrefixOf (x ++ y) = op.isPrefixOf x := by
  induction op generalizing x with
  | nil => simp
  | cons d op ih =>
    simp only [List.all_cons, Bool.and_eq_true, Bool.not_eq_true'] at hop
    have ih := fun x => @ih x hop.2
    rcases x with _ | ⟨c, x⟩
    · rcases y with _ | ⟨c, y⟩
      · rfl
      · have hne : d ≠ c := (Text.ne_of_class (hy c rfl) hop.1).symm
        simp [List.isPrefixOf, hne]
    · simp [List.isPrefixOf, ih]

theorem isPrefixOf_of_append (h : op.isPrefixOf (x ++ y) = true) (hop : op.length ≤ x.length) :
    op.isPrefixOf x = true := by
  rw [List.isPrefixOf_iff_prefix] at h ⊢
  exact List.prefix_of_prefix_length_le h (List.prefix_append x y) hop

theorem isPrefixOf_eq_false (h : op.isPrefixOf (x ++ y) = false) : op.isPrefixOf x = false := by
  rw [Bool.eq_false_iff, Ne, List.isPrefixOf_iff_prefix] at h ⊢
  exact fun hx => h (List.prefix_append_of_prefix hx)

theorem operator?_append (hy : Delimits y) (x : List Char) : operator? (x ++ y) = operator? x := by
  have hoperators : operators.all (·.all (!isStop ·)) = true := rfl
  exact List.find?_congr fun op hop =>
    isPrefixOf_append hy (List.all_eq_true.1 hoperators op hop)

theorem operator?_eq_none (h : operator? (x ++ y) = none) : operator? x = none := by
  simp only [operator?, List.find?_eq_none, Bool.not_eq_true] at h ⊢
  exact fun op hop => isPrefixOf_eq_false (h op hop)

theorem operator?_of_append (h : operator? (x ++ y) = some op) (hop : op.length ≤ x.length) :
    operator? x = some op := by
  simp only [operator?, List.find?_eq_some_iff_append, Bool.not_eq_true'] at h ⊢
  obtain ⟨hpre, longer, rest, heq, hlonger⟩ := h
  exact ⟨isPrefixOf_of_append hpre hop, longer, rest, heq, fun op hop =>
    isPrefixOf_eq_false (hlonger op hop)⟩

theorem operator?_isPrefix (h : operator? x = some op) : op <+: x :=
  List.isPrefixOf_iff_prefix.1 (List.find?_eq_some_iff_append.1 h).1

-- ---------------------------------------------------------------------------
-- Names
-- ---------------------------------------------------------------------------

theorem name_append (hword : Contained isWord x y)
    (hsuffix : x.dropWhile isWord = [] → Ends isSuffix y) : name (x ++ y) = name x := by
  simp only [name, hword.takeWhile, hword.dropWhile]
  cases hx : x.dropWhile isWord with
  | cons d z => rfl
  | nil =>
    rcases y with _ | ⟨d, y⟩
    · rfl
    · simp [hsuffix hx d rfl]

theorem length_takeWhile_le_name (x : List Char) :
    (x.takeWhile isWord).length ≤ (name x).length := by
  unfold name
  split
  · split <;> simp
  · simp

theorem length_name_pos (h : headIs isWord x = true) : 0 < (name x).length := by
  refine lt_of_lt_of_le ?_ (length_takeWhile_le_name x)
  cases x with
  | nil => cases h
  | cons c x =>
    have hc : isWord c = true := h
    simp [hc]

theorem length_name_line (h : headIs isWord x = true) : 1 < (name ('_' :: x)).length := by
  refine lt_of_lt_of_le ?_ (length_takeWhile_le_name ('_' :: x))
  have hline : isWord '_' = true := rfl
  cases x with
  | nil => cases h
  | cons c x =>
    have hc : isWord c = true := h
    simp [hline, hc]

theorem name_isPrefix (x : List Char) : name x <+: x := by
  have hsplit : x.takeWhile isWord ++ x.dropWhile isWord = x := List.takeWhile_append_dropWhile
  unfold name
  split
  · next d z hrest =>
    split
    · exact ⟨z, by simpa [hrest] using hsplit⟩
    · exact List.takeWhile_prefix _
  · exact List.takeWhile_prefix _

theorem name_of_append (h : (name (x ++ y)).length ≤ x.length) : name x = name (x ++ y) := by
  have hword : Contained isWord x y :=
    Text.contained_of_length_le ((length_takeWhile_le_name _).trans h)
  refine (name_append hword fun hx d hd => ?_).symm
  obtain ⟨y, rfl⟩ : ∃ z, y = d :: z := List.head?_eq_some_iff.1 hd
  rw [Bool.eq_false_iff]
  intro hsuffix
  have hall : x.takeWhile isWord = x := by
    simpa [hx] using List.takeWhile_append_dropWhile (p := isWord) (l := x)
  have hlength : (name (x ++ d :: y)).length = x.length + 1 := by
    simp [name, hword.takeWhile, hword.dropWhile, hx, hsuffix, hall]
  omega

-- ---------------------------------------------------------------------------
-- Numbers
-- ---------------------------------------------------------------------------

theorem startsFraction_iff : startsFraction x = true ↔
    ∃ d z, x = '.' :: d :: z ∧ d.isDigit = true := by
  constructor
  · intro h
    unfold startsFraction at h
    split at h
    · exact ⟨_, _, rfl, h⟩
    · cases h
  · rintro ⟨d, z, rfl, hd⟩
    exact hd

/-- A point needs its digit in the text too. -/
theorem startsFraction_append (h : startsFraction (x ++ y) = true → 1 < x.length) :
    startsFraction (x ++ y) = startsFraction x := by
  rw [Bool.eq_iff_iff]
  constructor
  · intro hxy
    match x, h hxy with
    | _ :: _ :: _, _ =>
      obtain ⟨d, z, heq, hd⟩ := startsFraction_iff.1 hxy
      cases heq
      exact hd
  · intro hx
    obtain ⟨d, z, rfl, hd⟩ := startsFraction_iff.1 hx
    exact hd

theorem Delimits.length_of_startsFraction (hy : Delimits y) (h : startsFraction (x ++ y) = true) :
    1 < x.length := by
  obtain ⟨d, z, heq, hd⟩ := startsFraction_iff.1 h
  match x with
  | [] => cases hy '.' (by simp at heq; simp [heq])
  | [_] =>
    obtain ⟨rfl, rfl⟩ := List.cons.inj heq
    simp [hy.digit d rfl] at hd
  | _ :: _ :: _ => simp

theorem numeral_append (hdigits : Contained Char.isDigit x y)
    (hpoint : startsFraction (x.dropWhile Char.isDigit ++ y) =
      startsFraction (x.dropWhile Char.isDigit))
    (hfraction : startsFraction (x.dropWhile Char.isDigit) = true →
      Contained Char.isDigit ((x.dropWhile Char.isDigit).drop 1) y) :
    numeral sign (x ++ y) = numeral sign x := by
  simp only [numeral, hdigits.takeWhile, hdigits.dropWhile, hpoint]
  split
  · next h =>
    obtain ⟨d, z, hx, -⟩ := startsFraction_iff.1 h
    have hz := (hfraction h).takeWhile
    simp only [hx, List.cons_append, List.drop_one, List.tail_cons] at hz ⊢
    rw [hz]
  · rfl

theorem numeral_text (h : numeral sign x = .ok (k, text)) :
    text = sign ++ x.takeWhile Char.isDigit ++
      if startsFraction (x.dropWhile Char.isDigit) then
        '.' :: ((x.dropWhile Char.isDigit).drop 1).takeWhile Char.isDigit
      else [] := by
  simp only [numeral] at h
  split at h
  · next hpoint =>
    split at h
    · cases h
      rw [if_pos hpoint]
    · cases h
  · next hpoint =>
    split at h
    · cases h
      rw [if_neg hpoint, List.append_nil]
    · cases h

theorem numeral_of_append (h : numeral sign (x ++ y) = .ok (k, text))
    (hlen : text.length ≤ sign.length + x.length) : numeral sign x = .ok (k, text) := by
  have htext := numeral_text h
  have hdigits : Contained Char.isDigit x y := by
    refine Text.contained_of_length_le ?_
    rw [htext] at hlen
    simp only [List.length_append] at hlen
    omega
  rw [hdigits.takeWhile, hdigits.dropWhile] at htext
  have hx := congrArg List.length (List.takeWhile_append_dropWhile (p := Char.isDigit) (l := x))
  rw [← h]
  symm
  generalize hrest : x.dropWhile Char.isDigit = rest at htext hx
  -- the point and the digits behind it belong to the number, hence to `x`
  have hfraction : startsFraction (rest ++ y) = true →
      1 + (((rest ++ y).drop 1).takeWhile Char.isDigit).length ≤ rest.length := by
    intro hpoint
    rw [htext, if_pos hpoint] at hlen
    simp only [List.length_append, List.length_cons] at hlen hx
    omega
  refine numeral_append hdigits ?_ ?_ <;> rw [hrest]
  · refine startsFraction_append fun hpoint => ?_
    have hlength := hfraction hpoint
    obtain ⟨d, z, hpoint, hd⟩ := startsFraction_iff.1 hpoint
    simp [hpoint, hd] at hlength
    omega
  · intro hpoint
    obtain ⟨d, z, rfl, hd⟩ := startsFraction_iff.1 hpoint
    have hlength := hfraction hd
    refine Text.contained_of_length_le ?_
    simp at hlength ⊢
    omega

theorem number_cons (c : Char) (x : List Char) : number (c :: x) =
    if c = '-' then numeral ['-'] x else numeral [] (c :: x) := by
  split
  · next hc =>
    subst hc
    rfl
  · next hc =>
    unfold number
    split
    · next heq => exact absurd (List.cons.inj heq).1 hc
    · rfl

theorem Delimits.numeral (hy : Delimits y) (x : List Char) :
    numeral sign (x ++ y) = numeral sign x :=
  numeral_append (hy.digit.contained _) (startsFraction_append hy.length_of_startsFraction)
    fun _ => hy.digit.contained _

theorem numeral_isPrefix (h : numeral sign x = .ok (k, text)) : text <+: sign ++ x := by
  have hsplit : x.takeWhile Char.isDigit ++ x.dropWhile Char.isDigit = x :=
    List.takeWhile_append_dropWhile
  rw [numeral_text h, List.append_assoc, List.prefix_append_right_inj]
  split
  · next hpoint =>
    obtain ⟨d, z, hrest, -⟩ := startsFraction_iff.1 hpoint
    obtain ⟨r, hr⟩ := List.takeWhile_prefix Char.isDigit (l := d :: z)
    rw [hrest] at hsplit ⊢
    refine ⟨r, Eq.trans ?_ hsplit⟩
    simp only [List.drop_one, List.tail_cons, List.append_assoc, List.cons_append, hr]
  · simpa using List.takeWhile_prefix Char.isDigit

theorem number_isPrefix (h : number (c :: x) = .ok (k, text)) : text <+: c :: x := by
  rw [number_cons] at h
  split at h
  · next hc =>
    subst hc
    exact numeral_isPrefix h
  · exact numeral_isPrefix h

theorem number_append (hy : Delimits y) (c : Char) (x : List Char) :
    number (c :: (x ++ y)) = number (c :: x) := by
  have hwhole : numeral [] (c :: x ++ y) = numeral [] (c :: x) := hy.numeral (c :: x)
  rw [number_cons, number_cons, hy.numeral, ← List.cons_append, hwhole]

theorem number_of_append (h : number (c :: (x ++ y)) = .ok (k, text))
    (hlen : text.length - 1 ≤ x.length) : number (c :: x) = .ok (k, text) := by
  rw [number_cons] at h ⊢
  split at h
  · next hc =>
    rw [if_pos hc]
    refine numeral_of_append h ?_
    simp
    omega
  · next hc =>
    rw [if_neg hc]
    refine numeral_of_append (x := c :: x) h ?_
    simp
    omega

-- ---------------------------------------------------------------------------
-- Arguments, quoted texts and symbols
-- ---------------------------------------------------------------------------

theorem argument_append (h : Contained Char.isDigit x y) : argument (x ++ y) = argument x := by
  simp only [argument, h.takeWhile]

theorem argument_of_append (h : argument (x ++ y) = .ok (k, n)) (hn : n ≤ x.length) :
    argument x = .ok (k, n) := by
  rw [← h]
  refine (argument_append (Text.contained_of_length_le ?_)).symm
  simp only [argument] at h
  split at h <;> cases h
  exact hn

theorem str_quotes {body : List Char} (h : Quotes body text) (after : List Char) :
    str (body ++ '"' :: after) = .ok (.str text, (body ++ ['"']).length) := by
  simp [str, h.decode?]
  omega

theorem str_unterminated (h : Unterminated x) : str x = .error .unclosedText := by
  rw [str, h.decode?]

theorem str_eq_ok_iff : str x = .ok (k, n) ↔
    ∃ body text after, Quotes body text ∧ x = body ++ '"' :: after ∧ k = .str text ∧
      n = body.length + 1 := by
  constructor
  · intro h
    rcases Sexp.quoted_cases x with ⟨body, text, after, hbody, rfl⟩ | hx
    · rw [str_quotes hbody] at h
      cases h
      exact ⟨body, text, after, hbody, rfl, rfl, by simp⟩
    · rw [str_unterminated hx] at h
      cases h
  · rintro ⟨body, text, after, hbody, rfl, rfl, rfl⟩
    simpa using str_quotes hbody after

theorem str_append (h : str x = .ok (k, n)) (y : List Char) : str (x ++ y) = .ok (k, n) := by
  obtain ⟨body, text, after, hbody, rfl, rfl, rfl⟩ := str_eq_ok_iff.1 h
  exact str_eq_ok_iff.2 ⟨body, text, after ++ y, hbody, by simp, rfl, rfl⟩

theorem str_of_append (h : str (x ++ y) = .ok (k, n)) (hn : n ≤ x.length) :
    str x = .ok (k, n) := by
  obtain ⟨body, text, after, hbody, heq, rfl, rfl⟩ := str_eq_ok_iff.1 h
  have hpre : body ++ ['"'] <+: x ++ y := ⟨after, by simp [heq]⟩
  obtain ⟨z, rfl⟩ :=
    List.prefix_of_prefix_length_le hpre (List.prefix_append x y) (by simpa using hn)
  exact str_eq_ok_iff.2 ⟨body, text, z, hbody, by simp, rfl, rfl⟩

theorem str_append_of_notMem (hy : '"' ∉ y) : str (x ++ y) = str x := by
  cases hxy : str (x ++ y) with
  | ok r =>
    rcases r with ⟨k, n⟩
    refine (str_of_append hxy ?_).symm
    obtain ⟨body, text, after, -, heq, -, rfl⟩ := str_eq_ok_iff.1 hxy
    rcases List.append_eq_append_iff.1 heq with ⟨m, rfl, rfl⟩ | ⟨m, rfl, hm⟩
    · simp at hy
    · cases m with
      | nil =>
        rw [List.nil_append] at hm
        simp [← hm] at hy
      | cons d m => simp
  | error e =>
    cases hx : str x with
    | ok r =>
      rw [str_append hx] at hxy
      cases hxy
    | error e' =>
      simp only [str] at hx hxy
      split at hx <;> split at hxy <;> simp_all

theorem Delimits.name (hy : Delimits y) (x : List Char) : name (x ++ y) = name x :=
  name_append (hy.word.contained x) fun _ => hy.ends fun _ => isSuffix_of_isStop

theorem symbol_append (hy : Delimits y) (x : List Char) : symbol (x ++ y) = symbol x := by
  simp only [symbol, operator?_append hy, headIs_append hy.word, hy.name]

theorem symbol_of_append (h : symbol (x ++ y) = .ok (k, n)) (hn : n ≤ x.length) :
    symbol x = .ok (k, n) := by
  simp only [symbol] at h ⊢
  split at h
  · next op hop =>
    cases h
    rw [operator?_of_append hop hn]
  · next hop =>
    rw [operator?_eq_none hop]
    split at h
    · next hword =>
      cases h
      have hx : x ≠ [] := by
        rintro rfl
        exact absurd (length_name_pos hword) (Nat.not_lt.2 hn)
      simp [headIs_of_append hword hx, name_of_append hn]
    · cases h

end TreeQuery.Pattern.Token
