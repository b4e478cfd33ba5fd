import Mathlib.Data.Set.List
import TreeQuery.Proofs.Pattern.Spacing

/-!
# Patterns that only lack closing brackets

The parser keeps the open groups with the places of their opening brackets. Closing brackets behind
the text find the parser in the state that it is in at the end of the text, and it accepts the
brackets of the open groups, innermost first, and no others (`parseFrom_closers`). An unterminated
group is hence reported for the texts that closing brackets complete, and for no others
(`Query.compile_unterminated`).
-/

namespace TreeQuery.Pattern

/-- Closing brackets behind the text may repair the error. -/
def Error.Cause.isUnterminated : Error.Cause → Bool
  | .unterminated _ => true
  | _ => false

def Error.Cause.isLexical : Error.Cause → Bool
  | .unexpectedChar _ | .outOfRange _ | .argumentNumber | .unclosedText | .symbolName => true
  | _ => false

namespace Parser

def openGroups : List Pending → List (Bracket × Nat)
  | [] => []
  | .marker _ :: rest => openGroups rest
  | .group b start _ :: rest => (b, start) :: openGroups rest

def closers (bs : List Bracket) : List Token := bs.map (⟨.closing ·, 0⟩)

/-- A marker waits only for an expression that can begin. -/
def Settled (ts : List Token) (pending : List Pending) : Prop :=
  ∀ m outer, pending = .marker m :: outer → startsExpression ts = true

variable {args : List Tree} {p : Pattern} {pending outer : List Pending} {t : Token}
  {ts rest : List Token} {bs : List Bracket} {b : Bracket} {start : Nat} {members : List Pattern}

theorem Settled.nil : Settled ts [] := nofun

theorem Settled.group : Settled ts (.group b start members :: outer) := nofun

theorem startsExpression_closers : startsExpression (closers bs) = false := by
  cases bs <;> rfl

theorem startsExpression_append_closers :
    startsExpression (ts ++ closers bs) = startsExpression ts := by
  cases ts with
  | nil => exact startsExpression_closers
  | cons t ts =>
    rcases t with ⟨kind, offset⟩
    cases kind <;> rfl

theorem supply_cases (p : Pattern) (pending : List Pending) :
    (openGroups pending = [] ∧ ∃ q, supply p pending = .inl q) ∨
    ∃ b start members outer, openGroups pending = (b, start) :: openGroups outer ∧
      supply p pending = .inr (.group b start members :: outer) := by
  induction pending generalizing p with
  | nil => exact .inl ⟨rfl, p, rfl⟩
  | cons waiting pending ih =>
    cases waiting with
    | marker m => exact ih (m.apply p)
    | group b start members => exact .inr ⟨b, start, p :: members, pending, rfl, rfl⟩

theorem parseFrom_closers :
    (∃ p, parseFrom args (closers bs) (.group b start members :: outer) = .ok p) ↔
      bs = b :: (openGroups outer).map Prod.fst := by
  induction bs generalizing b start members outer with
  | nil => simp [closers, parseFrom]
  | cons d bs ih =>
    by_cases hd : b = d
    · subst hd
      have hstep : parseFrom args (closers (b :: bs)) (.group b start members :: outer) =
          resume args (closers bs) (supply (Pattern.group b members.reverse) outer) :=
        parseFrom_closing
      rcases supply_cases (Pattern.group b members.reverse) outer with
        ⟨hopen, q, hq⟩ | ⟨b', start', members', outer', hopen, hsupply⟩
      · rw [hstep, hq]
        simp [hopen, resume, finish_eq_ok_iff, closers]
      · rw [hstep, hsupply, resume, ih, hopen]
        simp
    · simp [closers, parseFrom, step, hd, Ne.symm hd]

-- ---------------------------------------------------------------------------
-- Closing brackets behind a row of tokens
-- ---------------------------------------------------------------------------

/-- What the parser does at a token, whatever closing brackets stand behind the row. -/
inductive Advances (args : List Tree) (t : Token) (rest : List Token) (pending : List Pending) :
    Prop
  | stops {e : Error} : e.cause.isUnterminated = false →
      (∀ bs, parseFrom args (t :: (rest ++ closers bs)) pending = .error e) →
      Advances args t rest pending
  | goes {rest' : List Token} {s : Pattern ⊕ List Pending} : rest' <:+ rest →
      (∀ bs, parseFrom args (t :: (rest ++ closers bs)) pending =
        resume args (rest' ++ closers bs) s) →
      (∀ pending', s = .inr pending' → Settled rest' pending' ∧
        ∀ o ∈ openGroups pending', o ∈ openGroups pending ∨ t = ⟨.opening o.1, o.2⟩) →
      Advances args t rest pending

theorem Advances.supply {rest' : List Token} (hrest : rest' <:+ rest)
    (houter : openGroups outer ⊆ openGroups pending)
    (h : ∀ bs, parseFrom args (t :: (rest ++ closers bs)) pending =
      resume args (rest' ++ closers bs) (supply p outer)) : Advances args t rest pending := by
  refine .goes hrest h fun pending' hstate => ?_
  rcases supply_cases p outer with ⟨-, q, hq⟩ | ⟨b, start, members, inner, hopen, hsupply⟩
  · rw [hq] at hstate
    cases hstate
  · rw [hsupply] at hstate
    cases hstate
    exact ⟨.group, fun o ho => .inl (houter (hopen ▸ ho))⟩

theorem advances_parseFrom (args : List Tree) (t : Token) (rest : List Token)
    (pending : List Pending) : Advances args t rest pending := by
  obtain ⟨kind, offset⟩ := t
  have atom : ∀ {p}, Atom args kind p → Advances args ⟨kind, offset⟩ rest pending :=
    fun hp => .supply (List.suffix_refl rest) (List.Subset.refl _) fun _ => parseFrom_atom hp
  cases kind with
  | opening b =>
    refine .goes (s := .inr (.group b offset [] :: pending)) (List.suffix_refl rest)
      (fun _ => parseFrom_opening) ?_
    rintro _ ⟨⟩
    refine ⟨.group, fun o ho => ?_⟩
    rcases List.mem_cons.1 ho with rfl | ho
    · exact .inr rfl
    · exact .inl ho
  | closing b =>
    rcases pending with _ | ⟨_ | ⟨opened, start, members⟩, outer⟩
    · exact .stops (e := ⟨.strayCloser b, offset⟩) rfl fun _ => by simp [parseFrom, step]
    · exact .stops (e := ⟨.strayCloser b, offset⟩) rfl fun _ => by simp [parseFrom, step]
    · by_cases hb : opened = b
      · subst hb
        exact .supply (List.suffix_refl rest) (List.subset_cons_self _ _)
          fun _ => parseFrom_closing
      · exact .stops (e := ⟨.wrongCloser opened start b, offset⟩) rfl
          fun _ => by simp [parseFrom, step, hb]
  | marker m =>
    cases hrest : startsExpression rest with
    | true =>
      refine .goes (s := .inr (.marker m :: pending)) (List.suffix_refl rest)
        (fun _ => parseFrom_marker (startsExpression_append_closers.trans hrest)) ?_
      rintro _ ⟨⟩
      exact ⟨fun _ _ _ => hrest, fun o ho => .inl ho⟩
    | false =>
      have hclosers : ∀ bs, startsExpression (rest ++ closers bs) = false :=
        fun _ => startsExpression_append_closers.trans hrest
      by_cases hm : m = .negation
      · subst hm
        exact .supply (List.suffix_refl rest) (List.Subset.refl _)
          fun bs => parseFrom_bang (hclosers bs)
      · exact .stops (e := ⟨.noOperand m, offset⟩) rfl
          fun bs => by simp [parseFrom, step, hclosers bs, hm]
  | backslash =>
    rcases rest with _ | ⟨⟨kind, offset'⟩, rest⟩
    · exact .stops (e := ⟨.captureNumber, offset⟩) rfl
        fun bs => by cases bs <;> simp [closers, parseFrom, step]
    cases kind with
    | int n =>
      by_cases hn : 0 < n.toInt
      · exact .supply (List.suffix_cons _ rest) (List.Subset.refl _) fun _ => parseFrom_backref hn
      · exact .stops (e := ⟨.captureNumber, offset⟩) rfl fun _ => by simp [parseFrom, hn]
    | _ => exact .stops (e := ⟨.captureNumber, offset⟩) rfl fun _ => by simp [parseFrom, step]
  | wildcard => exact atom .wildcard
  | ellipsis => exact atom .ellipsis
  | int n => exact atom (.int n)
  | float x => exact atom (.float x)
  | str text => exact atom (.str text)
  | symbol name => exact atom (.symbol name)
  | word name => exact atom (.word name)
  | argument n =>
    by_cases hn : n = 0
    · exact .stops (e := ⟨.unboundArgument n args.length, offset⟩) rfl
        fun _ => by simp [parseFrom, step, hn]
    cases ha : args[n - 1]? with
    | none =>
      exact .stops (e := ⟨.unboundArgument n args.length, offset⟩) rfl
        fun _ => by simp [parseFrom, step, hn, ha]
    | some a => exact atom (.argument (Nat.pos_of_ne_zero hn) ha)

/-- How a row of tokens goes on with closing brackets behind it: into an open group, or into an
error that no closing brackets repair. -/
inductive Outcome (args : List Tree) (ts : List Token) (pending : List Pending) : Prop
  | lacks {b : Bracket} {start : Nat} {members : List Pattern} {outer : List Pending} :
      (b, start) ∈ openGroups pending ∨ ⟨.opening b, start⟩ ∈ ts →
      (∀ bs, parseFrom args (ts ++ closers bs) pending =
        parseFrom args (closers bs) (.group b start members :: outer)) → Outcome args ts pending
  | settles : (∀ e, parseFrom args ts pending = .error e → e.cause.isUnterminated = false) →
      (∀ bs p, bs ≠ [] → parseFrom args (ts ++ closers bs) pending ≠ .ok p) →
      Outcome args ts pending

theorem outcome_of_settled (hsettled : Settled ts pending) : Outcome args ts pending := by
  induction hn : ts.length using Nat.strongRecOn generalizing ts pending with
  | ind n ih =>
    subst hn
    rcases ts with _ | ⟨t, rest⟩
    · rcases pending with _ | ⟨m | ⟨b, start, members⟩, outer⟩
      · refine .settles (fun e he => ?_) fun bs p hbs => ?_
        · cases he
          rfl
        · obtain ⟨b, bs, rfl⟩ := List.exists_cons_of_ne_nil hbs
          simp [closers, parseFrom, step]
      · cases hsettled m outer rfl
      · exact .lacks (.inl List.mem_cons_self) fun _ => rfl
    · cases advances_parseFrom args t rest pending with
      | stops he hstops =>
        refine .settles (fun e' h => ?_) fun bs p _ => by simp [hstops bs]
        rw [← List.append_nil rest] at h
        cases (hstops []).symm.trans h
        exact he
      | @goes rest' s hrest hgoes hpending =>
        have hend : parseFrom args (t :: rest) pending = resume args rest' s := by
          simpa [closers] using hgoes []
        cases s with
        | inl q =>
          refine .settles (fun e he => ?_) fun bs p hbs => ?_
          · rw [hend] at he
            cases rest' <;> cases he
            rfl
          · rw [List.cons_append, hgoes bs]
            simp [resume, finish_eq_ok_iff, closers, hbs]
        | inr pending' =>
          obtain ⟨hsettled', hopen⟩ := hpending pending' rfl
          have hlength : rest'.length < (t :: rest).length := Nat.lt_succ_of_le hrest.length_le
          cases ih _ hlength hsettled' rfl with
          | lacks hplace hgo =>
            refine .lacks ?_ fun bs => (hgoes bs).trans (hgo bs)
            rcases hplace with hplace | hplace
            · rcases hopen _ hplace with ho | rfl
              · exact .inl ho
              · exact .inr List.mem_cons_self
            · exact .inr (List.mem_cons_of_mem _ (hrest.mem hplace))
          | settles hne hbs =>
            refine .settles (fun e he => hne e (hend.symm.trans he)) fun bs p hnil => ?_
            rw [List.cons_append, hgoes bs]
            exact hbs bs p hnil

end Parser

namespace Token

variable {c : Char} {cs x text : List Char} {n pos start : Nat} {b : Bracket} {ts : List Token}
  {e : Error}

theorem eq_opener (h : next c x = .ok (.opening b, n)) : c = b.opener := by
  cases next_eq_ok_iff.1 h with
  | number _ hnumber =>
    rw [number_cons] at hnumber
    split at hnumber <;>
    · simp only [numeral] at hnumber
      split at hnumber <;> split at hnumber <;> cases hnumber
  | single hsingle _ =>
    unfold single? at hsingle
    split at hsingle <;> cases hsingle <;> rfl
  | argument _ hx =>
    simp only [argument] at hx
    split at hx <;> cases hx
  | str _ hx =>
    obtain ⟨_, _, _, -, -, ⟨⟩, -⟩ := str_eq_ok_iff.1 hx
  | symbol _ hx =>
    simp only [symbol] at hx
    split at hx
    · cases hx
    · split at hx <;> cases hx

theorem isLexical_number {cause : Error.Cause} (h : number (c :: x) = .error cause) :
    cause.isLexical = true := by
  rw [number_cons] at h
  split at h <;>
  · simp only [numeral] at h
    split at h <;> split at h <;> cases h <;> rfl

theorem isLexical_next {cause : Error.Cause} (h : next c x = .error cause) :
    cause.isLexical = true := by
  unfold next at h
  split at h
  · exact isLexical_number (eq_error_of_map h)
  split at h
  · cases h
  split at h
  · exact isLexical_number (eq_error_of_map h)
  split at h
  · cases h
  split at h
  · cases h
  split at h
  · cases h
  split at h
  · simp only [argument] at h
    split at h <;> cases h
    rfl
  split at h
  · simp only [str] at h
    split at h <;> cases h
    rfl
  split at h
  · simp only [symbol] at h
    split at h
    · cases h
    · split at h <;> cases h
      rfl
  · split at h <;> cases h
    rfl

theorem isUnterminated_scanFrom (h : scanFrom pos cs = .error e) :
    e.cause.isUnterminated = false := by
  fun_induction scanFrom pos cs with
  | case1 => cases h
  | case2 pos c rest hc ih => exact ih h
  | case3 pos c rest hc cause hnext =>
    cases h
    have hlexical := isLexical_next hnext
    cases cause with
    | unterminated b => cases hlexical
    | _ => rfl
  | case4 pos c rest hc k n hnext ih => exact ih (eq_error_of_map h)

theorem scans_closers (bs : List Bracket) : Scans (bs.map Bracket.closer) (bs.map .closing) := by
  induction bs with
  | nil => exact .nil
  | cons b bs ih => exact .closer b ih

theorem delimits_closers (bs : List Bracket) : Delimits (bs.map Bracket.closer) := by
  cases bs with
  | nil => nofun
  | cons b bs =>
    rintro _ ⟨⟩
    cases b <;> rfl

theorem notMem_closers (bs : List Bracket) : '"' ∉ bs.map Bracket.closer := by
  intro h
  obtain ⟨b, -, hb⟩ := List.mem_map.1 h
  cases b <;> cases hb

theorem scanFrom_closers_error (h : scanFrom pos cs = .error e) (bs : List Bracket) :
    ∃ e', scanFrom pos (cs ++ bs.map Bracket.closer) = .error e' := by
  have happend : ∀ {c x}, next c (x ++ bs.map Bracket.closer) = next c x := fun {c x} =>
    next_append (delimits_closers bs) fun _ => str_append_of_notMem (notMem_closers bs)
  fun_induction scanFrom pos cs with
  | case1 => cases h
  | case2 pos c rest hc ih =>
    obtain ⟨e', he'⟩ := ih h
    exact ⟨e', by rw [List.cons_append, scanFrom_space hc, he']⟩
  | case3 pos c rest hc cause hnext =>
    exact ⟨⟨cause, pos⟩, by simp [scanFrom, hc, happend, hnext]⟩
  | case4 pos c rest hc k n hnext ih =>
    have hlen := (next_eq_ok_iff.1 hnext).length_le
    obtain ⟨e', he'⟩ := ih (eq_error_of_map h)
    refine ⟨e', ?_⟩
    rw [List.cons_append, scanFrom_token (by simpa using hc) (happend.trans hnext),
      List.take_append_of_le_length hlen, List.drop_append_of_le_length hlen, he']
    rfl

theorem exists_opener (hscan : scanFrom pos text = .ok ts) (h : ⟨.opening b, start⟩ ∈ ts) :
    ∃ before after, text = before ++ b.opener :: after ∧ pos + Text.width before = start := by
  obtain ⟨ts, us, rfl⟩ := List.append_of_mem h
  obtain ⟨before, c, rest, n, rfl, hwidth, hnext, -, -⟩ := scanFrom_split hscan
  obtain rfl := eq_opener hnext
  exact ⟨before, rest, rfl, hwidth⟩

end Token

end TreeQuery.Pattern

namespace TreeQuery.Query

open Pattern Token Parser

variable {text w : List Char} {args : List Tree} {ts : List Token} {bs : List Bracket}

theorem compile_closers_iff (hscan : scan text = .ok ts) :
    (∃ q, compile (text ++ bs.map Bracket.closer) args = .ok q) ↔
      ∃ p, parseFrom args (ts ++ closers bs) [] = .ok p := by
  have hscans : Scans (text ++ bs.map Bracket.closer) ((ts ++ closers bs).map Token.kind) := by
    simpa [closers, Function.comp_def] using
      (scans_of_scanFrom hscan).append (delimits_closers bs) (scans_closers bs)
  constructor
  · rintro ⟨q, hq⟩
    obtain ⟨-, ks, hks, hroot⟩ := compile_eq_ok_iff.1 hq
    obtain ⟨us, hus, rfl⟩ := hks.scanFrom 0
    rw [hscans.kinds hus] at hroot
    exact ⟨q.root, parse_eq_ok_iff.2 hroot⟩
  · rintro ⟨p, hp⟩
    exact ⟨⟨_, p⟩, compile_eq_ok_iff.2 ⟨rfl, _, hscans, parse_eq_ok_iff.1 hp⟩⟩

theorem unterminated_or_settled (text : List Char) (args : List Tree) :
    (∃ b start outer, compile text args = .error ⟨.unterminated b, start⟩ ∧
      (∃ before after, text = before ++ b.opener :: after ∧ Text.width before = start) ∧
      ∀ bs, (∃ q, compile (text ++ bs.map Bracket.closer) args = .ok q) ↔ bs = b :: outer) ∨
    (∀ e, compile text args = .error e → e.cause.isUnterminated = false) ∧
      ∀ bs q, bs ≠ [] → compile (text ++ bs.map Bracket.closer) args ≠ .ok q := by
  cases hscan : scan text with
  | error e =>
    refine .inr ⟨fun e' h => ?_, fun bs q _ h => ?_⟩
    · simp only [compile, hscan, Except.bind] at h
      cases h
      exact isUnterminated_scanFrom hscan
    · obtain ⟨e', he'⟩ := scanFrom_closers_error hscan bs
      simp only [compile, scan, he', Except.bind] at h
      cases h
  | ok ts =>
    have houtcome : Outcome args ts [] := outcome_of_settled .nil
    cases houtcome with
    | @lacks b start members outer hplace hgo =>
      have hend : parseFrom args ts [] = .error ⟨.unterminated b, start⟩ := by
        simpa [closers, parseFrom, unfinished] using hgo []
      have hopening : ⟨.opening b, start⟩ ∈ ts := hplace.resolve_left (List.not_mem_nil)
      refine .inl ⟨b, start, (openGroups outer).map Prod.fst, ?_, ?_, fun bs => ?_⟩
      · rw [compile_of_scan hscan, hend]
        rfl
      · simpa using exists_opener hscan hopening
      · rw [compile_closers_iff hscan, hgo bs, parseFrom_closers]
    | settles hne hbs =>
      refine .inr ⟨fun e h => ?_, fun bs q hnil h => ?_⟩
      · rw [compile_of_scan hscan] at h
        exact hne e (eq_error_of_map h)
      · obtain ⟨p, hp⟩ := (compile_closers_iff hscan).1 ⟨q, h⟩
        exact hbs bs p hnil hp

structure Completes (text : List Char) (args : List Tree) (w : List Char) : Prop where
  ne_nil : w ≠ []
  closers : ∀ c ∈ w, ∃ b : Bracket, b.closer = c
  compiles : ∃ q, compile (text ++ w) args = .ok q

theorem Completes.exists_brackets (h : Completes text args w) :
    ∃ bs, bs ≠ [] ∧ w = bs.map Bracket.closer := by
  obtain ⟨bs, rfl⟩ : w ∈ Set.range (List.map Bracket.closer) := by
    rw [Set.range_list_map]
    exact h.closers
  exact ⟨bs, fun hbs => h.ne_nil (by simp [hbs]), rfl⟩

/-- A group is unterminated when a text lacks closing brackets, and nothing else. -/
theorem compile_unterminated (text : List Char) (args : List Tree) :
    ((∃ b offset, compile text args = .error ⟨.unterminated b, offset⟩) ↔
      ∃ w, Completes text args w) ∧
    ∀ b offset, compile text args = .error ⟨.unterminated b, offset⟩ →
      (∃ before after, text = before ++ b.opener :: after ∧ Text.width before = offset) ∧
      ∃ w, Completes text args w ∧ w.head? = some b.closer ∧
        ∀ v, Completes text args v → v = w := by
  rcases unterminated_or_settled text args with
    ⟨b, start, outer, herror, hplace, hcloses⟩ | ⟨hne, hnot⟩
  · have hw : Completes text args ((b :: outer).map Bracket.closer) :=
      ⟨by simp, fun c hc => (List.mem_map.1 hc).imp fun _ => And.right, (hcloses _).2 rfl⟩
    have hunique : ∀ v, Completes text args v → v = (b :: outer).map Bracket.closer := by
      intro v hv
      obtain ⟨bs, -, rfl⟩ := hv.exists_brackets
      rw [(hcloses bs).1 hv.compiles]
    refine ⟨⟨fun _ => ⟨_, hw⟩, fun _ => ⟨b, start, herror⟩⟩, fun b' offset h => ?_⟩
    cases herror.symm.trans h
    exact ⟨hplace, _, hw, rfl, hunique⟩
  · refine ⟨⟨?_, ?_⟩, fun b offset h => absurd (hne _ h) Bool.noConfusion⟩
    · rintro ⟨b, offset, h⟩
      cases hne _ h
    · rintro ⟨w, hw⟩
      obtain ⟨bs, hbs, rfl⟩ := hw.exists_brackets
      obtain ⟨q, hq⟩ := hw.compiles
      exact absurd hq (hnot bs q hbs)

theorem compile_unterminated_nested : Completes "(f [$_ !".toList [] "])".toList ∧
    ∀ v, Completes "(f [$_ !".toList [] v → v = "])".toList := by
  have hscan : scan "(f [$_ !".toList = .ok [⟨.opening .round, 0⟩, ⟨.word ['f'], 1⟩,
      ⟨.opening .square, 3⟩, ⟨.marker .capture, 4⟩, ⟨.wildcard, 5⟩, ⟨.marker .negation, 7⟩] := by
    decide +kernel
  have hcloses : ∃ q, compile ("(f [$_ !".toList ++ [.square, .round].map Bracket.closer) [] =
      .ok q := (compile_closers_iff hscan).2 ⟨_, rfl⟩
  have hends : Completes "(f [$_ !".toList [] "])".toList := by
    refine ⟨by simp, fun c hc => ?_, hcloses⟩
    simp at hc
    rcases hc with rfl | rfl
    · exact ⟨.square, rfl⟩
    · exact ⟨.round, rfl⟩
  obtain ⟨w, -, -, hunique⟩ :=
    ((compile_unterminated "(f [$_ !".toList []).2 .square 3 (compile_of_scan hscan)).2
  exact ⟨hends, fun v hv => (hunique v hv).trans (hunique _ hends).symm⟩

end TreeQuery.Query
