import TreeQuery.Proofs.Pattern.Lookahead

/-!
# White space between tokens

`Reads` tells what is read as a token. A token neither reaches over the end of the text nor needs
what stands behind it, so a text can be cut where a token begins (`scanFrom_split`); and a text is
read as it stands before white space and closing brackets (`Scans.append`). Hence white space in
front of a token or at the end of a text changes nothing (`Query.compile_spaced`).
-/

namespace TreeQuery.Pattern.Token

open Text (isSpace isWord)

variable {c : Char} {cs x y text blank : List Char} {k : Kind} {n pos : Nat}
  {ks ls : List Kind} {t : Token} {ts us : List Token}

theorem exists_of_map_eq_ok {ε α β : Type} {r : Except ε α} {g : α → β} {b : β}
    (h : r.map g = .ok b) : ∃ a, r = .ok a ∧ g a = b := by
  cases r with
  | error e => cases h
  | ok a =>
    cases h
    exact ⟨a, rfl, rfl⟩

theorem eq_error_of_map {ε α β : Type} {r : Except ε α} {g : α → β} {e : ε}
    (h : r.map g = .error e) : r = .error e := by
  cases r with
  | error e =>
    cases h
    rfl
  | ok a => cases h

theorem next_append (hy : Delimits y) (hstr : c = '"' → str (x ++ y) = str x) :
    next c (x ++ y) = next c x := by
  have hoperator : operator? (c :: (x ++ y)) = operator? (c :: x) := operator?_append hy (c :: x)
  have hdots : ['.', '.', '.'].isPrefixOf (c :: (x ++ y)) = ['.', '.', '.'].isPrefixOf (c :: x) :=
    isPrefixOf_append (x := c :: x) hy rfl
  have hname : name (c :: (x ++ y)) = name (c :: x) := hy.name (c :: x)
  simp only [next, headIs_append hy.digit, headIs_append hy.word, hoperator, hdots, hname,
    number_append hy, argument_append (hy.digit.contained x), symbol_append hy]
  by_cases hc : c = '"'
  · simp only [hstr hc]
  · simp only [hc, if_false]

/-- The tokens and what stands before and behind their ends, without the order of the checks. -/
inductive Reads (c : Char) (x : List Char) : Kind → Nat → Prop
  | number {k : Kind} {text : List Char} :
      c.isDigit = true ∨ c = '-' ∧ headIs Char.isDigit x = true →
      number (c :: x) = .ok (k, text) → Reads c x k (text.length - 1)
  | operator {op : List Char} : (c = '-' → headIs Char.isDigit x = false) →
      operator? (c :: x) = some op → Reads c x (.word op) (op.length - 1)
  | ellipsis : ['.', '.', '.'].isPrefixOf (c :: x) = true → Reads c x .ellipsis 2
  | wildcard : c = '_' → headIs isWord x = false → Reads c x .wildcard 0
  | single {k : Kind} : single? c = some k → operator? (c :: x) = none → Reads c x k 0
  | argument {k : Kind} {n : Nat} : c = '%' → argument x = .ok (k, n) → Reads c x k n
  | str {k : Kind} {n : Nat} : c = '"' → str x = .ok (k, n) → Reads c x k n
  | symbol {k : Kind} {n : Nat} : c = ':' → symbol x = .ok (k, n) → Reads c x k n
  | word : isWord c = true → c.isDigit = false → (c = '_' → headIs isWord x = true) →
      Reads c x (.word (name (c :: x))) ((name (c :: x)).length - 1)

theorem reads_of_next (h : next c x = .ok (k, n)) : Reads c x k n := by
  unfold next at h
  split at h
  · next hminus =>
    simp at hminus
    obtain ⟨_, hnumber, ⟨⟩⟩ := exists_of_map_eq_ok h
    exact .number (.inr hminus) hnumber
  next hminus =>
  split at h
  · next op hop =>
    cases h
    exact .operator (by simpa using hminus) hop
  next hop =>
  split at h
  · next hdigit =>
    obtain ⟨_, hnumber, ⟨⟩⟩ := exists_of_map_eq_ok h
    exact .number (.inl hdigit) hnumber
  next hdigit =>
  split at h
  · next hdots =>
    cases h
    exact .ellipsis hdots
  split at h
  · next hline =>
    cases h
    simp at hline
    exact .wildcard hline.1 hline.2
  next hline =>
  split at h
  · next hsingle =>
    cases h
    exact .single hsingle hop
  split at h
  · next hc => exact .argument hc h
  split at h
  · next hc => exact .str hc h
  split at h
  · next hc => exact .symbol hc h
  split at h
  · next hword =>
    cases h
    exact .word hword (by simpa using hdigit) (by simpa using hline)
  · cases h

theorem Reads.next (h : Reads c x k n) : next c x = .ok (k, n) := by
  cases h with
  | number hc hnumber =>
    rw [next_number hc, hnumber]
    rfl
  | operator hminus hop =>
    have hguard : (decide (c = '-') && headIs Char.isDigit x) = false := by
      by_cases hc : c = '-' <;> simp [hc, hminus]
    simp [Token.next, hguard, hop]
  | ellipsis hdots =>
    simp only [List.isPrefixOf, Bool.and_eq_true, beq_iff_eq] at hdots
    obtain ⟨rfl, hdots⟩ := hdots
    simp [Token.next, operator?, operators, List.find?, List.isPrefixOf, hdots]
  | wildcard hc hx =>
    subst hc
    refine next_wildcard fun d hd => ?_
    obtain ⟨z, rfl⟩ := List.head?_eq_some_iff.1 hd
    exact hx
  | single hsingle hop =>
    unfold single? at hsingle
    split at hsingle <;> cases hsingle <;>
      simp [Token.next, hop, single?, List.isPrefixOf]
  | argument hc hx | str hc hx | symbol hc hx =>
    subst hc
    exact hx
  | word hc hdigit hline =>
    have hne : ∀ d, isWord d = false → c ≠ d := fun d hd => Text.ne_of_class hc hd
    have hguard : (decide (c = '_') && !headIs isWord x) = false := by
      by_cases hc : c = '_' <;> simp [hc, hline]
    simp [Token.next, hne '-' rfl, operator?_of_isWord hc, hdigit, List.isPrefixOf,
      (hne '.' rfl).symm, hguard, single?_of_isWord hc, hne '%' rfl, hne '"' rfl, hne ':' rfl, hc]

theorem next_eq_ok_iff : next c x = .ok (k, n) ↔ Reads c x k n := ⟨reads_of_next, Reads.next⟩

theorem Reads.length_le (h : Reads c x k n) : n ≤ x.length := by
  cases h with
  | number _ hnumber => exact Nat.sub_le_of_le_add (number_isPrefix hnumber).length_le
  | operator _ hop => exact Nat.sub_le_of_le_add (operator?_isPrefix hop).length_le
  | ellipsis hdots => simpa using (List.isPrefixOf_iff_prefix.1 hdots).length_le
  | wildcard | single => exact Nat.zero_le _
  | argument _ hx =>
    simp only [Token.argument] at hx
    split at hx <;> cases hx
    exact (List.takeWhile_prefix _).length_le
  | str _ hx =>
    obtain ⟨body, text, after, -, rfl, -, rfl⟩ := str_eq_ok_iff.1 hx
    simp
  | symbol _ hx =>
    simp only [Token.symbol] at hx
    split at hx
    · next hop =>
      cases hx
      exact (operator?_isPrefix hop).length_le
    · split at hx <;> cases hx
      exact (name_isPrefix x).length_le
  | word => exact Nat.sub_le_of_le_add (name_isPrefix (c :: x)).length_le

theorem Reads.of_append (h : Reads c (x ++ y) k n) (hn : n ≤ x.length) : Reads c x k n := by
  cases h with
  | number hc hnumber =>
    have hnumber := number_of_append hnumber hn
    refine .number (hc.imp_right fun ⟨hminus, hx⟩ => ⟨hminus, headIs_of_append hx ?_⟩) hnumber
    rintro rfl
    subst hminus
    cases hnumber
  | operator hminus hop =>
    exact .operator (fun hc => headIs_eq_false_of_append (hminus hc))
      (operator?_of_append (x := c :: x) hop (by simp; omega))
  | ellipsis hdots => exact .ellipsis (isPrefixOf_of_append (x := c :: x) hdots (by simp; omega))
  | wildcard hc hx => exact .wildcard hc (headIs_eq_false_of_append hx)
  | single hsingle hop => exact .single hsingle (operator?_eq_none (x := c :: x) hop)
  | argument hc hx => exact .argument hc (argument_of_append hx hn)
  | str hc hx => exact .str hc (str_of_append hx hn)
  | symbol hc hx => exact .symbol hc (symbol_of_append hx hn)
  | word hc hdigit hline =>
    have hname : name (c :: x) = name (c :: (x ++ y)) :=
      name_of_append (x := c :: x) (by simp at hn ⊢; omega)
    rw [← hname]
    refine .word hc hdigit fun hline' => headIs_of_append (hline hline') ?_
    rintro rfl
    subst hline'
    exact absurd (length_name_line (hline rfl)) (by rw [← hname]; decide)

-- ---------------------------------------------------------------------------
-- Cutting and joining texts
-- ---------------------------------------------------------------------------

theorem next_append_of_ok (h : next c x = .ok (k, n)) (hy : Delimits y) :
    next c (x ++ y) = .ok (k, n) := by
  rw [next_append hy, h]
  rintro rfl
  have hstr : str x = .ok (k, n) := h
  rw [str_append hstr, hstr]

theorem Scans.append (h : Scans cs ks) (hy : Delimits y) (hls : Scans y ls) :
    Scans (cs ++ y) (ks ++ ls) := by
  induction h with
  | nil => exact hls
  | space hc _ ih => exact .space hc ih
  | @token c rest k n ks hc hnext _ ih =>
    have hdrop : (rest ++ y).drop n = rest.drop n ++ y :=
      List.drop_append_of_le_length (next_eq_ok_iff.1 hnext).length_le
    exact .token hc (next_append_of_ok hnext hy) (hdrop ▸ ih)

theorem Scans.kinds (h : Scans cs ks) (hscan : Token.scanFrom pos cs = .ok ts) :
    ts.map Token.kind = ks := by
  obtain ⟨us, hus, rfl⟩ := h.scanFrom pos
  rw [hus] at hscan
  cases hscan
  rfl

theorem scanFrom_space (hc : isSpace c = true) :
    scanFrom pos (c :: cs) = scanFrom (pos + c.utf8Size) cs := by
  rw [scanFrom, if_pos hc]

theorem scanFrom_token (hc : isSpace c = false) (hnext : next c x = .ok (k, n)) :
    scanFrom pos (c :: x) =
      (scanFrom (pos + c.utf8Size + Text.width (x.take n)) (x.drop n)).map (⟨k, pos⟩ :: ·) := by
  simp [scanFrom, hc, hnext]

theorem scanFrom_broken {cause : Error.Cause} (hc : isSpace c = false)
    (hnext : next c x = .error cause) : scanFrom pos (c :: x) = .error ⟨cause, pos⟩ := by
  simp [scanFrom, hc, hnext]

/-- The first token does not look behind itself, hence not behind a cut that comes later. -/
theorem scanFrom_cut (pos : Nat) (hc : isSpace c = false) (hnext : next c x = .ok (k, n))
    (hcut : x.drop n = cs ++ y) :
    c :: x = c :: (x.take n ++ cs) ++ y ∧ scanFrom pos (c :: (x.take n ++ cs)) =
      (scanFrom (pos + c.utf8Size + Text.width (x.take n)) cs).map (⟨k, pos⟩ :: ·) := by
  have hreads := next_eq_ok_iff.1 hnext
  have hn : (x.take n).length = n := List.length_take_of_le hreads.length_le
  have hx : x = x.take n ++ cs ++ y := by rw [List.append_assoc, ← hcut, List.take_append_drop]
  have hfirst : next c (x.take n ++ cs) = .ok (k, n) := by
    rw [hx] at hreads
    exact (hreads.of_append (by rw [List.length_append, hn]; exact Nat.le_add_right _ _)).next
  refine ⟨by rw [List.cons_append, ← hx], ?_⟩
  rw [scanFrom_token hc hfirst, List.take_left' hn, List.drop_left' hn]

theorem scanFrom_split (h : scanFrom pos cs = .ok (ts ++ t :: us)) :
    ∃ before c rest n, cs = before ++ c :: rest ∧ pos + Text.width before = t.offset ∧
      next c rest = .ok (t.kind, n) ∧ scanFrom pos before = .ok ts ∧
      scanFrom t.offset (c :: rest) = .ok (t :: us) := by
  fun_induction scanFrom pos cs generalizing ts with
  | case1 => simp at h
  | case2 pos c rest hc ih =>
    obtain ⟨before, d, after, m, rfl, hwidth, hbegins, hbefore, hafter⟩ := ih h
    refine ⟨c :: before, d, after, m, rfl, ?_, hbegins, by rwa [scanFrom_space hc], hafter⟩
    simp
    omega
  | case3 => cases h
  | case4 pos c rest hc k n hnext ih =>
    have hc : isSpace c = false := by simpa using hc
    obtain ⟨vs, hrest, hvs⟩ := exists_of_map_eq_ok h
    rcases ts with _ | ⟨s, ts⟩
    · cases hvs
      refine ⟨[], c, rest, n, rfl, rfl, hnext, by rw [scanFrom], ?_⟩
      rw [scanFrom_token hc hnext, hrest]
      rfl
    · cases hvs
      obtain ⟨before, d, after, m, hsplit, hwidth, hbegins, hbefore, hafter⟩ := ih hrest
      obtain ⟨hcut, hfirst⟩ := scanFrom_cut pos hc hnext hsplit
      refine ⟨c :: (rest.take n ++ before), d, after, m, hcut, ?_, hbegins, ?_, hafter⟩
      · simp at hwidth ⊢
        omega
      · rw [hfirst, hbefore]
        rfl

theorem scans_blank (hblank : ∀ c ∈ blank, isSpace c = true) (h : Scans cs ks) :
    Scans (blank ++ cs) ks := by
  induction blank with
  | nil => exact h
  | cons c blank ih =>
    exact .space (hblank c List.mem_cons_self) (ih fun d hd => hblank d (List.mem_cons_of_mem _ hd))

theorem Scans.spaced {before after : List Char} (hbefore : Scans before ks)
    (hafter : Scans after ls) (hblank : ∀ c ∈ blank, isSpace c = true)
    (h : Scans (before ++ after) (ks ++ ls)) :
    Scans (before ++ (blank ++ after)) (ks ++ ls) := by
  cases blank with
  | nil => exact h
  | cons c blank =>
    refine hbefore.append ?_ (scans_blank hblank hafter)
    rintro _ ⟨⟩
    simp [isStop, hblank c List.mem_cons_self]

end TreeQuery.Pattern.Token

namespace TreeQuery.Query

open Pattern Token

variable {args : List Tree} {q : Query} {text blank : List Char} {tokens : List Token} {pos : Nat}

theorem compile_of_scan (hscan : scan text = .ok tokens) :
    compile text args = (Parser.parseFrom args tokens []).map fun root => ⟨text, root⟩ := by
  simp only [compile, hscan, Except.bind, Parser.parse]

/-- White space where a token begins, or at the end, leaves what a text stands for as it is. -/
theorem compile_spaced (h : compile text args = .ok q) (hscan : scan text = .ok tokens)
    (hpos : pos ∈ tokens.map Token.offset ∨ pos = Text.width text)
    (hblank : ∀ c ∈ blank, Text.isSpace c = true) :
    ∃ before after, text = before ++ after ∧ Text.width before = pos ∧
      compile (before ++ (blank ++ after)) args = .ok ⟨before ++ (blank ++ after), q.root⟩ := by
  obtain ⟨-, ks, hks, hroot⟩ := compile_eq_ok_iff.1 h
  obtain rfl : tokens.map Token.kind = ks := hks.kinds hscan
  rcases hpos with hpos | rfl
  · obtain ⟨t, ht, rfl⟩ := List.mem_map.1 hpos
    obtain ⟨ts, us, rfl⟩ := List.append_of_mem ht
    obtain ⟨before, c, rest, n, rfl, hwidth, -, hbefore, hafter⟩ := scanFrom_split hscan
    rw [List.map_append] at hks hroot
    have hspaced := (scans_of_scanFrom hbefore).spaced (scans_of_scanFrom hafter) hblank hks
    exact ⟨before, c :: rest, rfl, by omega, compile_eq_ok_iff.2 ⟨rfl, _, hspaced, hroot⟩⟩
  · rw [← List.append_nil text] at hks
    rw [← List.append_nil (tokens.map Token.kind)] at hks hroot
    have hspaced := (scans_of_scanFrom hscan).spaced .nil hblank hks
    exact ⟨text, [], by simp, rfl, compile_eq_ok_iff.2 ⟨rfl, _, hspaced, hroot⟩⟩

theorem compile_spaced_backref :
    ∃ before after, "($_ \\1)".toList = before ++ after ∧ Text.width before = 5 ∧
      compile (before ++ ("\t\u3000".toList ++ after)) [] =
        .ok ⟨before ++ ("\t\u3000".toList ++ after),
          .sequence [.capture .wildcard, .backref 1]⟩ := by
  have hscan : scan "($_ \\1)".toList = .ok [⟨.opening .round, 0⟩, ⟨.marker .capture, 1⟩,
      ⟨.wildcard, 2⟩, ⟨.backslash, 4⟩, ⟨.int 1, 5⟩, ⟨.closing .round, 6⟩] := by decide +kernel
  exact compile_spaced (compile_of_scan hscan) hscan (.inl (by decide)) (List.all_eq_true.1 rfl)

end TreeQuery.Query
