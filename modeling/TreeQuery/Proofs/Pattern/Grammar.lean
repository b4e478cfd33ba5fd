import TreeQuery.Pattern.Parser

/-!
# The grammar of patterns

`Derives` tells, without the parser, which rows of patterns a row of tokens stands for. A marker
takes the expression behind it; a negation with nothing behind it is the symbol `!`. The parser
accepts what derives one pattern, and gives that one (`parse_eq_ok_iff`).
-/

namespace TreeQuery.Pattern.Parser

open Token (Kind)

inductive Atom (args : List Tree) : Kind → Pattern → Prop
  | wildcard : Atom args .wildcard .wildcard
  | ellipsis : Atom args .ellipsis .nonempty
  | int (n : Int64) : Atom args (.int n) (.literal (.int n))
  | float (x : Binary64) : Atom args (.float x) (.literal (.float x))
  | str (text : List Char) : Atom args (.str text) (.literal (.str (String.ofList text)))
  | symbol (name : List Char) : Atom args (.symbol name) (.literal (.sym (String.ofList name)))
  | word (name : List Char) : Atom args (.word name) (.literal (ofWord name))
  | argument {n : Nat} {a : Tree} : 0 < n → args[n - 1]? = some a →
      Atom args (.argument n) (.literal (.value a))

/-- The patterns that tokens stand for, up to the end of the text or a closing bracket. -/
inductive Derives (args : List Tree) : List Kind → List Pattern → Prop
  | nil : Derives args [] []
  | atom {k p ks ps} : Atom args k p → Derives args ks ps → Derives args (k :: ks) (p :: ps)
  | bang : Derives args [.marker .negation] [.literal (.sym "!")]
  | backref {n ks ps} : 0 < n.toInt → Derives args ks ps →
      Derives args (.backslash :: .int n :: ks) (.backref n.toInt.toNat :: ps)
  | marker {ks p ps} (m : Marker) : Derives args ks (p :: ps) →
      Derives args (.marker m :: ks) (m.apply p :: ps)
  | group {inner members ks ps} (b : Bracket) : Derives args inner members → Derives args ks ps →
      Derives args (.opening b :: (inner ++ .closing b :: ks)) (Pattern.group b members :: ps)

variable {args : List Tree} {k : Kind} {ks inner : List Kind} {p q out : Pattern}
  {ps members : List Pattern} {t : Token} {ts rest : List Token} {pending : List Pending}
  {s state : Pattern ⊕ List Pending} {b : Bracket} {m : Marker} {n : Int64} {offset : Nat}

theorem Derives.eq_nil (h : Derives args ks []) : ks = [] := by
  cases h
  rfl

-- ---------------------------------------------------------------------------
-- One step of the parser
-- ---------------------------------------------------------------------------

def supplyAll : List Pattern → Pattern ⊕ List Pending → Option (Pattern ⊕ List Pending)
  | [], s => some s
  | p :: ps, .inr pending => supplyAll ps (supply p pending)
  | _ :: _, .inl _ => none

def resume (args : List Tree) (rest : List Token) :
    Pattern ⊕ List Pending → Except Error Pattern
  | .inl p => finish p rest
  | .inr pending => parseFrom args rest pending

theorem parseFrom_opening : parseFrom args (⟨.opening b, offset⟩ :: rest) pending =
    parseFrom args rest (.group b offset [] :: pending) := by
  simp [parseFrom, step]

theorem parseFrom_closing {start : Nat} :
    parseFrom args (⟨.closing b, offset⟩ :: rest) (.group b start ps :: pending) =
      resume args rest (supply (Pattern.group b ps.reverse) pending) := by
  simp only [parseFrom, step, if_true]
  rfl

theorem parseFrom_marker (h : startsExpression rest = true) :
    parseFrom args (⟨.marker m, offset⟩ :: rest) pending =
      parseFrom args rest (.marker m :: pending) := by
  simp [parseFrom, step, h]

theorem parseFrom_bang (h : startsExpression rest = false) :
    parseFrom args (⟨.marker .negation, offset⟩ :: rest) pending =
      resume args rest (supply (.literal (.sym "!")) pending) := by
  simp only [parseFrom, step, h, Bool.false_eq_true, if_false, if_true]
  rfl

theorem parseFrom_backref {offset' : Nat} (h : 0 < n.toInt) :
    parseFrom args (⟨.backslash, offset⟩ :: ⟨.int n, offset'⟩ :: rest) pending =
      resume args rest (supply (.backref n.toInt.toNat) pending) := by
  simp only [parseFrom, h, if_true]
  rfl

theorem parseFrom_atom (h : Atom args k p) : parseFrom args (⟨k, offset⟩ :: rest) pending =
    resume args rest (supply p pending) := by
  cases h with
  | argument hn ha =>
    simp only [parseFrom, step, Nat.ne_of_gt hn, if_false, ha]
    rfl
  | _ =>
    simp only [parseFrom, step]
    rfl

-- ---------------------------------------------------------------------------
-- What derives is accepted
-- ---------------------------------------------------------------------------

theorem startsExpression_of_derives (h : Derives args (ts.map Token.kind) (p :: ps)) :
    startsExpression (ts ++ rest) = true := by
  cases ts with
  | nil => nomatch h
  | cons t ts =>
    rcases t with ⟨kind, offset⟩
    cases kind with
    | closing b =>
      cases h with
      | atom h => cases h
    | _ => rfl

theorem exists_token (h : ts.map Token.kind = k :: ks) :
    ∃ offset us, ts = ⟨k, offset⟩ :: us ∧ us.map Token.kind = ks := by
  obtain ⟨⟨_, offset⟩, us, rfl, rfl, hus⟩ := List.map_eq_cons_iff.1 h
  exact ⟨offset, us, rfl, hus⟩

theorem resume_row (h : Derives args ks ps) (hks : ts.map Token.kind = ks)
    (hs : supplyAll ps state = some s)
    (hrow : ∀ {pending}, supplyAll ps (.inr pending) = some s →
      parseFrom args (ts ++ rest) pending = resume args rest s) :
    resume args (ts ++ rest) state = resume args rest s := by
  cases state with
  | inr pending => exact hrow hs
  | inl q =>
    cases ps with
    | cons => cases hs
    | nil =>
      cases hs
      rw [h.eq_nil, List.map_eq_nil_iff] at hks
      rw [hks, List.nil_append]

theorem supplyAll_group {start : Nat} : supplyAll ps (.inr (.group b start members :: pending)) =
    some (.inr (.group b start (ps.reverse ++ members) :: pending)) := by
  induction ps generalizing members with
  | nil => rfl
  | cons p ps ih => simp [supplyAll, supply, ih]

theorem Derives.parseFrom (h : Derives args ks ps) (hks : ts.map Token.kind = ks)
    (hrest : startsExpression rest = false) (hs : supplyAll ps (.inr pending) = some s) :
    parseFrom args (ts ++ rest) pending = resume args rest s := by
  induction h generalizing ts rest pending s with
  | nil =>
    cases hs
    cases List.map_eq_nil_iff.1 hks
    rfl
  | atom hatom hrow ih =>
    obtain ⟨offset, ts, rfl, hts⟩ := exists_token hks
    rw [List.cons_append, parseFrom_atom hatom]
    exact resume_row hrow hts hs (ih hts hrest)
  | bang =>
    obtain ⟨offset, ts, rfl, hts⟩ := exists_token hks
    cases List.map_eq_nil_iff.1 hts
    rw [List.singleton_append, parseFrom_bang hrest]
    cases hs
    rfl
  | backref hn hrow ih =>
    obtain ⟨offset, ts, rfl, hts⟩ := exists_token hks
    obtain ⟨offset', ts, rfl, hrow'⟩ := exists_token hts
    rw [List.cons_append, List.cons_append, parseFrom_backref hn]
    exact resume_row hrow hrow' hs (ih hrow' hrest)
  | marker m hrow ih =>
    obtain ⟨offset, ts, rfl, hts⟩ := exists_token hks
    rw [List.cons_append, parseFrom_marker (startsExpression_of_derives (hts ▸ hrow))]
    exact ih hts hrest hs
  | group b hinner hrow ihinner ih =>
    obtain ⟨start, ts, rfl, hts⟩ := exists_token hks
    obtain ⟨us, ts, rfl, hus, hclosing⟩ := List.map_eq_append_iff.1 hts
    obtain ⟨stop, ts, rfl, hrow'⟩ := exists_token hclosing
    rw [List.cons_append, List.append_assoc, parseFrom_opening, ihinner hus rfl supplyAll_group,
      resume, List.cons_append, parseFrom_closing, List.append_nil, List.reverse_reverse]
    exact resume_row hrow hrow' hs (ih hrow' hrest)

-- ---------------------------------------------------------------------------
-- What is accepted derives
-- ---------------------------------------------------------------------------

/-- What a parser that accepts tokens has before it: a row, and behind it the end of the text or a
closing bracket. -/
def Accepts (args : List Tree) (ts : List Token) (state : Pattern ⊕ List Pending)
    (out : Pattern) : Prop :=
  ∃ us rest ps s, ts = us ++ rest ∧ Derives args (us.map Token.kind) ps ∧
    startsExpression rest = false ∧ supplyAll ps state = some s ∧ resume args rest s = .ok out

theorem finish_eq_ok_iff : finish p ts = .ok out ↔ ts = [] ∧ p = out := by
  cases ts <;> simp [finish]

theorem Accepts.of_resume (h : resume args ts state = .ok out)
    (hts : ∀ {pending}, parseFrom args ts pending = .ok out → Accepts args ts (.inr pending) out) :
    Accepts args ts state out := by
  cases state with
  | inr pending => exact hts h
  | inl q =>
    obtain ⟨rfl, rfl⟩ := finish_eq_ok_iff.1 h
    exact ⟨[], [], [], _, rfl, .nil, rfl, rfl, rfl⟩

theorem Accepts.cons (us : List Token)
    (hcons : ∀ {ks ps}, Derives args ks ps → Derives args (us.map Token.kind ++ ks) (p :: ps))
    (h : Accepts args ts (supply p pending) out) : Accepts args (us ++ ts) (.inr pending) out := by
  obtain ⟨vs, rest, ps, s, rfl, hrow, hrest, hs, hout⟩ := h
  refine ⟨us ++ vs, rest, p :: ps, s, by simp, ?_, hrest, hs, hout⟩
  rw [List.map_append]
  exact hcons hrow

theorem Accepts.marker (m : Marker) (hts : startsExpression ts = true)
    (h : Accepts args ts (.inr (.marker m :: pending)) out) :
    Accepts args (⟨.marker m, offset⟩ :: ts) (.inr pending) out := by
  obtain ⟨us, rest, ps, s, rfl, hrow, hrest, hs, hout⟩ := h
  cases ps with
  | nil =>
    rw [hrow.eq_nil |> List.map_eq_nil_iff.1, List.nil_append, hrest] at hts
    cases hts
  | cons p ps => exact ⟨_ :: us, rest, _ :: ps, s, rfl, .marker m hrow, hrest, hs, hout⟩

theorem Accepts.group
    (hinner : Accepts args ts (.inr (.group b offset [] :: pending)) out)
    (hbehind : ∀ {rest pending}, rest.length < ts.length → parseFrom args rest pending = .ok out →
      Accepts args rest (.inr pending) out) :
    Accepts args (⟨.opening b, offset⟩ :: ts) (.inr pending) out := by
  obtain ⟨us, rest, members, s, rfl, hmembers, hrest, hs, hout⟩ := hinner
  rw [supplyAll_group, Option.some.injEq] at hs
  subst hs
  rw [List.append_nil] at hout
  cases rest with
  | nil => cases hout
  | cons t rest =>
    rcases t with ⟨kind, stop⟩
    cases kind with
    | closing b' =>
      by_cases hb : b = b'
      · subst hb
        rw [resume, parseFrom_closing, List.reverse_reverse] at hout
        have hrow := Accepts.of_resume hout fun h => hbehind (by simp; omega) h
        have hcons := hrow.cons (⟨.opening b, offset⟩ :: (us ++ [⟨.closing b, stop⟩])) fun h => by
          simpa using Derives.group b hmembers h
        simpa using hcons
      · simp [resume, Parser.parseFrom, step, hb] at hout
    | _ => cases hrest

theorem accepts_of_parseFrom (h : parseFrom args ts pending = .ok out) :
    Accepts args ts (.inr pending) out := by
  induction hn : ts.length using Nat.strongRecOn generalizing ts pending with
  | ind n ih =>
    subst hn
    -- by length, since a group is followed by what stands behind its closing bracket
    have ih : ∀ {rest pending}, rest.length < ts.length → parseFrom args rest pending = .ok out →
        Accepts args rest (.inr pending) out := fun hlt h => ih _ hlt h rfl
    have atom : ∀ {k offset rest p}, Atom args k p → ts = ⟨k, offset⟩ :: rest →
        Accepts args ts (.inr pending) out := by
      rintro k offset rest p hp rfl
      rw [parseFrom_atom hp] at h
      have hrow := Accepts.of_resume h fun h => ih (Nat.lt_succ_self _) h
      exact hrow.cons [⟨k, offset⟩] (.atom hp)
    cases ts with
    | nil => cases h
    | cons t rest =>
      rcases t with ⟨kind, offset⟩
      cases kind with
      | opening b =>
        rw [parseFrom_opening] at h
        exact .group (ih (Nat.lt_succ_self _) h) fun hlt => ih (Nat.lt_succ_of_lt hlt)
      | closing b => exact ⟨[], _, [], _, rfl, .nil, rfl, rfl, h⟩
      | marker m =>
        cases hrest : startsExpression rest with
        | true =>
          rw [parseFrom_marker hrest] at h
          exact .marker m hrest (ih (Nat.lt_succ_self _) h)
        | false =>
          by_cases hm : m = .negation
          · subst hm
            rw [parseFrom_bang hrest] at h
            exact ⟨[_], rest, [_], _, rfl, .bang, hrest, rfl, h⟩
          · simp [parseFrom, step, hrest, hm] at h
      | backslash =>
        cases rest with
        | nil => simp [parseFrom, step] at h
        | cons u rest =>
          rcases u with ⟨kind, offset'⟩
          cases kind with
          | int n =>
            by_cases hn : 0 < n.toInt
            · rw [parseFrom_backref hn] at h
              have hrow := Accepts.of_resume h fun h =>
                ih (Nat.lt_succ_of_lt (Nat.lt_succ_self _)) h
              exact hrow.cons [⟨.backslash, offset⟩, ⟨.int n, offset'⟩] (.backref hn)
            · rw [parseFrom, if_neg hn] at h
              cases h
          | _ => simp [parseFrom, step] at h
      | wildcard => exact atom .wildcard rfl
      | ellipsis => exact atom .ellipsis rfl
      | int n => exact atom (.int n) rfl
      | float x => exact atom (.float x) rfl
      | str text => exact atom (.str text) rfl
      | symbol name => exact atom (.symbol name) rfl
      | word name => exact atom (.word name) rfl
      | argument n =>
        by_cases hn : n = 0
        · simp [parseFrom, step, hn] at h
        cases ha : args[n - 1]? with
        | none => simp [parseFrom, step, hn, ha] at h
        | some a => exact atom (.argument (Nat.pos_of_ne_zero hn) ha) rfl

/-- The parser accepts the tokens of one expression, and nothing else. -/
theorem parse_eq_ok_iff : parse args ts = .ok p ↔ Derives args (ts.map Token.kind) [p] := by
  constructor
  · intro h
    obtain ⟨us, rest, ps, s, rfl, hrow, hrest, hs, hout⟩ := accepts_of_parseFrom h
    match ps with
    | [] =>
      cases hs
      rcases rest with _ | ⟨⟨kind, offset⟩, rest⟩
      · cases hout
      cases kind with
      | closing b => cases hout
      | _ => cases hrest
    | [q] =>
      cases hs
      obtain ⟨rfl, rfl⟩ := finish_eq_ok_iff.1 hout
      rwa [List.append_nil]
    | _ :: _ :: _ => cases hs
  · intro h
    have hwhole : Parser.parseFrom args (ts ++ []) [] = resume args [] (.inl p) :=
      h.parseFrom rfl rfl rfl
    rwa [List.append_nil] at hwhole

end TreeQuery.Pattern.Parser
