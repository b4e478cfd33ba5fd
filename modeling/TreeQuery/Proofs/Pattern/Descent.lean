import TreeQuery.Pattern.Descent
import TreeQuery.Proofs.Pattern.Grammar

/-!
# Descent and the list of what waits

Reading an expression by descent does to the tokens what the parser does that keeps a list of what
waits for an expression (`follows_expression`), so both have the same answers (`parse_eq`). An
expression is asked for only where there is a token, hence every error is at a token
(`located_of_parse`).
-/

namespace TreeQuery.Pattern.Descent

open TreeQuery.Pattern.Parser

variable {args : List Tree} {stop start : Nat} {b : Bracket} {p : Pattern}
  {t : Token} {ts : List Token} {pending : List Pending} {e : Error}

def Located (places : List Nat) (e : Error) : Prop := e.cause ≠ .unexpectedEnd ∧ e.offset ∈ places

theorem Located.mono {places more : List Nat} (h : Located places e) (hsub : places ⊆ more) :
    Located more e :=
  ⟨h.1, hsub h.2⟩

/-- What was read makes the parser go on with what is left; an error is the error of the parser. -/
inductive Follows (args : List Tree) (give : α → Pattern ⊕ List Pending) (places : List Nat)
    (out : Except Error Pattern) : Except Error (Parsed α ts) → Prop
  | ok {r : Parsed α ts} : out = resume args r.rest (give r.value) →
      Follows args give places out (.ok r)
  | error {e : Error} : out = .error e → Located places e → Follows args give places out (.error e)

theorem Follows.here {give : α → Pattern ⊕ List Pending} {out : Except Error Pattern}
    {cause : Error.Cause} (hc : cause ≠ .unexpectedEnd) (h : out = .error ⟨cause, t.offset⟩) :
    Follows args give ((t :: ts).map Token.offset) out
      (.error ⟨cause, t.offset⟩ : Except Error (Parsed α (t :: ts))) :=
  .error h ⟨hc, List.mem_cons_self⟩

theorem Follows.map {us : List Token} {give : α → Pattern ⊕ List Pending}
    {give' : β → Pattern ⊕ List Pending} {places more : List Nat} {out : Except Error Pattern}
    {f : Parsed α ts → Parsed β us} {r : Except Error (Parsed α ts)}
    (h : Follows args give places out r) (hsub : places ⊆ more)
    (hf : ∀ s, resume args s.rest (give s.value) = resume args (f s).rest (give' (f s).value)) :
    Follows args give' more out (r.map f) := by
  cases h with
  | ok hout => exact .ok (hout.trans (hf _))
  | error hout he => exact .error hout (he.mono hsub)

theorem follows_backref : Follows args (supply · pending) ((t :: ts).map Token.offset)
    (parseFrom args (⟨.backslash, t.offset⟩ :: ts) pending) (backref t ts) := by
  unfold backref
  split
  · split
    · next hn => exact .ok (parseFrom_backref hn)
    · next hn => exact .here nofun (by simp [parseFrom, hn])
  · next hne =>
    refine .here nofun ?_
    rw [parseFrom]
    · simp [step]
    · exact fun _ n offset rest _ => hne n offset rest

theorem exists_closing (h : startsExpression (t :: ts) = false) :
    ∃ b offset, t = ⟨.closing b, offset⟩ := by
  obtain ⟨kind, offset⟩ := t
  cases kind with
  | closing b => exact ⟨b, offset, rfl⟩
  | _ => cases h

theorem members_cons (h : startsExpression (t :: ts) = true) :
    members args stop b start (t :: ts) = (expression args stop (t :: ts)).bind fun r =>
      (members args stop b start r.rest).map r.cons := by
  rw [members]
  · cases expression args stop (t :: ts) <;> rfl
  · rintro found offset rfl
    cases h

mutual
-- by the length of the list, and for one list the members after the expression at its front
theorem follows_expression (args : List Tree) (stop : Nat) :
    ∀ (ts : List Token) (pending : List Pending), startsExpression ts = true →
      Follows args (supply · pending) (ts.map Token.offset) (parseFrom args ts pending)
        (expression args stop ts)
  | [], _, hstart => nomatch hstart
  | ⟨kind, offset⟩ :: ts, pending, hstart => by
    have atom {p : Pattern} (hp : Atom args kind p) :
        Follows args (supply · pending) ((⟨kind, offset⟩ :: ts).map Token.offset)
          (parseFrom args (⟨kind, offset⟩ :: ts) pending) (.ok (.one p ⟨kind, offset⟩ ts)) :=
      .ok (parseFrom_atom hp)
    rw [expression]
    cases kind with
    | opening b =>
      rw [parseFrom_opening]
      exact (follows_members args stop b offset ts [] pending).map (List.Subset.refl _) fun _ => rfl
    | closing b => cases hstart
    | marker m =>
      dsimp only
      split
      · next hrest =>
        rw [parseFrom_marker hrest]
        exact (follows_expression args stop ts (.marker m :: pending) hrest).map
          (List.subset_cons_self _ _) fun _ => rfl
      · next hrest =>
        have hrest : startsExpression ts = false := by simpa using hrest
        split
        · next hm =>
          subst hm
          exact .ok (parseFrom_bang hrest)
        · next hm => exact .here nofun (by simp [parseFrom, step, hrest, hm])
    | backslash => exact follows_backref
    | wildcard => exact atom .wildcard
    | ellipsis => exact atom .ellipsis
    | int n => exact atom (.int n)
    | float x => exact atom (.float x)
    | str text => exact atom (.str text)
    | symbol name => exact atom (.symbol name)
    | word name => exact atom (.word name)
    | argument n =>
      dsimp only
      split
      · next ha =>
        obtain ⟨hn, ha⟩ : n ≠ 0 ∧ args[n - 1]? = some _ := by simpa using ha
        exact atom (.argument (Nat.pos_of_ne_zero hn) ha)
      · next ha => exact .here nofun (by simp only [parseFrom, step, ha])
termination_by ts => (ts.length, 0)
theorem follows_members (args : List Tree) (stop : Nat) (b : Bracket) (start : Nat) :
    ∀ (ts : List Token) (before : List Pattern) (outer : List Pending),
      Follows args (fun ps => supply (Pattern.group b (before.reverse ++ ps)) outer)
        (start :: ts.map Token.offset) (parseFrom args ts (.group b start before :: outer))
        (members args stop b start ts)
  | [], before, outer => by
    rw [members]
    exact .error rfl ⟨nofun, List.mem_cons_self⟩
  | t :: ts, before, outer => by
    cases hstart : startsExpression (t :: ts) with
    | false =>
      obtain ⟨found, offset, rfl⟩ := exists_closing hstart
      rw [members]
      split
      · next hb =>
        subst hb
        exact .ok (by simp [parseFrom_closing, Parsed.one])
      · next hb => exact .error (by simp [parseFrom, step, hb]) ⟨nofun, by simp⟩
    | true =>
      have hexpression :=
        follows_expression args stop (t :: ts) (.group b start before :: outer) hstart
      rw [members_cons hstart]
      generalize expression args stop (t :: ts) = r at hexpression
      cases hexpression with
      | @ok r hout =>
        -- the other members come from what the first one leaves
        have hlt := r.shorter
        have hmembers := follows_members args stop b start r.rest (r.value :: before) outer
        have hplaces : r.rest.map Token.offset ⊆ (t :: ts).map Token.offset :=
          (r.suffix.map Token.offset).subset
        rw [hout]
        exact hmembers.map (List.cons_subset_cons _ hplaces) fun s => by simp [Parsed.cons]
      | error hout he => exact .error hout (he.mono (List.subset_cons_self _ _))
termination_by ts => (ts.length, 1)
end

theorem follows_parse (args : List Tree) (stop : Nat) (t : Token) (ts : List Token) :
    (∃ r : Parsed Pattern (t :: ts), parse args stop (t :: ts) = finish r.value r.rest ∧
      Parser.parse args (t :: ts) = finish r.value r.rest) ∨
    ∃ e, parse args stop (t :: ts) = .error e ∧ Parser.parse args (t :: ts) = .error e ∧
      Located ((t :: ts).map Token.offset) e := by
  cases hstart : startsExpression (t :: ts) with
  | false =>
    obtain ⟨b, offset, rfl⟩ := exists_closing hstart
    refine .inr ⟨⟨.strayCloser b, offset⟩, ?_, ?_, nofun, List.mem_cons_self⟩
    · simp [parse, expression, Except.bind]
    · simp [Parser.parse, parseFrom, step]
  | true =>
    have hexpression := follows_expression args stop (t :: ts) [] hstart
    rw [parse, Parser.parse]
    generalize expression args stop (t :: ts) = r at hexpression
    cases hexpression with
    | @ok r hout => exact .inl ⟨r, rfl, hout⟩
    | @error e hout he => exact .inr ⟨e, rfl, hout, he⟩

/-- Both ways of reading have the same answers. -/
theorem parse_eq (args : List Tree) (stop : Nat) (ts : List Token) :
    parse args stop ts = Parser.parse args ts := by
  rcases ts with _ | ⟨t, ts⟩
  · rfl
  rcases follows_parse args stop t ts with ⟨r, h, h'⟩ | ⟨e, h, h', -⟩ <;> rw [h, h']

theorem located_of_finish {rest : List Token} (h : finish p rest = .error e) :
    Located (rest.map Token.offset) e := by
  cases rest with
  | nil => cases h
  | cons t rest =>
    cases h
    exact ⟨nofun, List.mem_cons_self⟩

theorem located_of_parse (hts : ts ≠ []) (h : Parser.parse args ts = .error e) :
    Located (ts.map Token.offset) e := by
  obtain ⟨t, ts, rfl⟩ := List.exists_cons_of_ne_nil hts
  rcases follows_parse args 0 t ts with ⟨r, -, hout⟩ | ⟨e', -, hout, he⟩
  · exact (located_of_finish (hout.symm.trans h)).mono (r.suffix.map Token.offset).subset
  · cases hout.symm.trans h
    exact he

end TreeQuery.Pattern.Descent
