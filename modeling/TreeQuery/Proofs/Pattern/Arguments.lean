import TreeQuery.Proofs.Match.Likeness
import TreeQuery.Query

/-!
# Bound arguments and their spans

`Pattern.bare` takes the spans from the bound arguments of a pattern. A pattern text is read in the
same way whatever spans its arguments have (`Query.compile_bare`), and what it is read as fits the
same targets (`Pattern.judge_bare`).
-/

namespace TreeQuery

namespace Tree

mutual
@[simp] theorem bare_bare : ∀ t : Tree, t.bare.bare = t.bare
  | .leaf _ _ => rfl
  | .node _ cs _ => by simp [bare, bareList_bareList cs]
@[simp] theorem bareList_bareList : ∀ ts : List Tree, bareList (bareList ts) = bareList ts
  | [] => rfl
  | t :: ts => by simp [bareList, bare_bare t, bareList_bareList ts]
end

end Tree

def Literal.bare : Literal → Literal
  | .value t => .value t.bare
  | l => l

theorem Literal.fits_bare (l : Literal) (target : Target) : l.bare.fits target = l.fits target := by
  cases l with
  | value t =>
    cases target with
    | none => rfl
    | some s => exact Tree.same_congr_right t.bare_bare s.tree
  | _ => rfl

namespace Pattern

mutual
def bare : Pattern → Pattern
  | .wildcard => .wildcard
  | .nonempty => .nonempty
  | .literal l => .literal l.bare
  | .sequence ps => .sequence (bareList ps)
  | .union ps => .union (bareList ps)
  | .every ps => .every (bareList ps)
  | .capture p => .capture (bare p)
  | .negation p => .negation (bare p)
  | .optional p => .optional (bare p)
  | .child p => .child (bare p)
  | .backref n => .backref n
def bareList : List Pattern → List Pattern
  | [] => []
  | p :: ps => bare p :: bareList ps
end

theorem bareList_eq_map (ps : List Pattern) : bareList ps = ps.map bare := by
  induction ps with
  | nil => rfl
  | cons p ps ih => rw [bareList, ih, List.map_cons]

theorem bare_eq_nonempty_iff {p : Pattern} : p.bare = .nonempty ↔ p = .nonempty := by
  cases p <;> simp [bare]

mutual
@[simp] theorem captures_bare : ∀ p : Pattern, p.bare.captures = p.captures
  | .wildcard | .nonempty | .literal _ | .backref _ => rfl
  | .sequence ps | .union ps | .every ps => captures_bareList ps
  | .capture p => congrArg (· + 1) (captures_bare p)
  | .negation p | .optional p | .child p => captures_bare p
@[simp] theorem captures_bareList : ∀ ps : List Pattern,
    capturesList (bareList ps) = capturesList ps
  | [] => rfl
  | p :: ps => by simp only [bareList, capturesList, captures_bare p, captures_bareList ps]
end

mutual
theorem judge_bare : ∀ (p : Pattern) (target : Target) (captures : List Site),
    p.bare.judge target captures = p.judge target captures
  | .wildcard, _, _ | .nonempty, _, _ | .backref _, _, _ => by rfl
  | .literal l, target, captures => by rw [bare, judge, judge, l.fits_bare]
  | .sequence _, none, _ => rfl
  | .sequence ps, some s, captures => by rw [bare, judge, judge, judgeForm_bare ps]
  | .union ps, target, captures => judgeSome_bare ps target captures
  | .every ps, target, captures => judgeEvery_bare ps target captures
  | .capture p, target, captures => by rw [bare, judge, judge, judge_bare p]
  | .negation p, target, captures => by rw [bare, judge, judge, judge_bare p]
  | .optional p, target, captures => by rw [bare, judge, judge, judge_bare p]
  | .child _, none, _ => rfl
  | .child p, some s, captures => by
    rw [bare, judge, judge]
    exact congrArg (fun f => List.findSome? f _) (funext fun c => judge_bare p (some c) captures)
theorem judgeForm_bare : ∀ (ps : List Pattern) (s : Site) (captures : List Site),
    judgeForm (bareList ps) s captures = judgeForm ps s captures
  | [], _, _ => rfl
  | p :: ps, s, captures => by
    rw [bareList, judgeForm, judgeForm, judge_bare p]
    exact Option.bind_congr fun after _ => judgeChildren_bare ps s.children after
theorem judgeChildren_bare : ∀ (ps : List Pattern) (cs captures : List Site),
    judgeChildren (bareList ps) cs captures = judgeChildren ps cs captures
  | [], _, _ => rfl
  | p :: ps, cs, captures => by
    by_cases hp : p = .nonempty
    · subst hp
      rw [bareList, bare, judgeChildren, judgeChildren, judgeChildren_bare ps]
    · rw [bareList, judgeChildren, judgeChildren, judge_bare p]
      · exact Option.bind_congr fun after _ => judgeChildren_bare ps cs.tail after
      · exact hp
      · exact fun h => hp (bare_eq_nonempty_iff.1 h)
theorem judgeSome_bare : ∀ (ps : List Pattern) (target : Target) (captures : List Site),
    judgeSome (bareList ps) target captures = judgeSome ps target captures
  | [], _, _ => rfl
  | p :: ps, target, captures => by
    rw [bareList, judgeSome_cons, judgeSome_cons, judge_bare p, judgeSome_bare ps]
theorem judgeEvery_bare : ∀ (ps : List Pattern) (target : Target) (captures : List Site),
    judgeEvery (bareList ps) target captures = judgeEvery ps target captures
  | [], _, _ => rfl
  | p :: ps, target, captures => by
    rw [bareList, judgeEvery, judgeEvery, judge_bare p]
    exact Option.bind_congr fun after _ => judgeEvery_bare ps target after
end

-- ---------------------------------------------------------------------------
-- Reading pattern texts
-- ---------------------------------------------------------------------------

def Pending.bare : Pending → Pending
  | .marker m => .marker m
  | .group b start members => .group b start (members.map Pattern.bare)

namespace Parser

variable (args : List Tree) (p : Pattern) (pending : List Pending)

theorem supply_bare : supply p.bare (pending.map Pending.bare) =
    (supply p pending).map Pattern.bare (List.map Pending.bare) := by
  induction pending generalizing p with
  | nil => rfl
  | cons waiting pending ih =>
    cases waiting with
    | marker m =>
      have happly : m.apply p.bare = (m.apply p).bare := by cases m <;> rfl
      rw [List.map_cons, Pending.bare, supply, supply, happly, ih]
    | group b start members => rfl

theorem unfinished_bare : unfinished (pending.map Pending.bare) = unfinished pending := by
  induction pending with
  | nil => rfl
  | cons waiting pending ih =>
    cases waiting with
    | marker m => exact ih
    | group b start members => rfl

theorem step_bare (t : Token) (rest : List Token) :
    step (args.map Tree.bare) t rest (pending.map Pending.bare) =
      (step args t rest pending).map
        (Sum.map (List.map Pending.bare) (Prod.map Pattern.bare (List.map Pending.bare))) := by
  obtain ⟨kind, offset⟩ := t
  cases kind with
  | closing b =>
    rcases pending with _ | ⟨_ | ⟨opened, start, members⟩, outer⟩
    · rfl
    · rfl
    · by_cases hb : opened = b
      · have hmembers : (members.map Pattern.bare).reverse = bareList members.reverse := by
          rw [bareList_eq_map, List.map_reverse]
        cases b <;> simp [step, Pending.bare, hb, hmembers, group, bare, Except.map]
      · simp [step, Pending.bare, hb, Except.map]
  | marker m =>
    by_cases hstarts : startsExpression rest = true
    · simp [step, hstarts, Pending.bare, Except.map]
    · by_cases hm : m = .negation <;> simp [step, hstarts, hm, bare, Literal.bare, Except.map]
  | argument n =>
    simp only [step, List.getElem?_map, List.length_map]
    by_cases hn : n = 0
    · simp [hn, Except.map]
    · cases args[n - 1]? <;> simp [hn, bare, Literal.bare, Except.map]
  | word name =>
    simp only [step, ofWord]
    split <;> rfl
  | _ => rfl

theorem finish_bare (rest : List Token) : finish p.bare rest = (finish p rest).map bare := by
  cases rest <;> rfl

theorem parseFrom_bare (tokens : List Token) :
    parseFrom (args.map Tree.bare) tokens (pending.map Pending.bare) =
      (parseFrom args tokens pending).map bare := by
  fun_induction parseFrom args tokens pending with
  | case1 pending => rw [parseFrom, unfinished_bare, Except.map]
  | case2 offset n offset' rest pending hn p hp =>
    have hsupply := supply_bare (.backref n.toInt.toNat) pending
    rw [hp] at hsupply
    rw [← finish_bare, parseFrom, if_pos hn]
    simp only [bare] at hsupply
    simp only [hsupply, Sum.map_inl]
  | case3 offset n offset' rest pending hn pending' hp ih =>
    have hsupply := supply_bare (.backref n.toInt.toNat) pending
    rw [hp] at hsupply
    rw [← ih, parseFrom, if_pos hn]
    simp only [bare] at hsupply
    simp only [hsupply, Sum.map_inr]
  | case4 offset n offset' rest pending hn =>
    rw [parseFrom, if_neg hn, Except.map]
  | case5 t rest pending hne error hstep =>
    rw [parseFrom, step_bare, hstep]
    · rfl
    · exact hne
  | case6 t rest pending hne pending' hstep ih =>
    rw [parseFrom, step_bare, hstep, ← ih]
    · rfl
    · exact hne
  | case7 t rest pending hne q outer hstep p hp =>
    have hsupply := supply_bare q outer
    rw [hp] at hsupply
    rw [← finish_bare, parseFrom, step_bare, hstep]
    · simp only [Except.map, Sum.map_inr, Prod.map_apply, hsupply, Sum.map_inl]
    · exact hne
  | case8 t rest pending hne q outer hstep pending' hp ih =>
    have hsupply := supply_bare q outer
    rw [hp] at hsupply
    rw [← ih, parseFrom, step_bare, hstep]
    · simp only [Except.map, Sum.map_inr, Prod.map_apply, hsupply]
    · exact hne

end Parser

end Pattern

namespace Query

def bare (q : Query) : Query := ⟨q.source, q.root.bare⟩

/-- A text is read, or refused, in the same way whatever spans its arguments have. -/
theorem compile_bare (source : List Char) (args : List Tree) :
    compile source (args.map Tree.bare) = (compile source args).map bare := by
  unfold compile
  cases Pattern.Token.scan source with
  | error error => rfl
  | ok tokens =>
    have hparse := Pattern.Parser.parseFrom_bare args [] tokens
    simp only [Except.bind, Pattern.Parser.parse, List.map_nil] at hparse ⊢
    rw [hparse]
    cases Pattern.Parser.parseFrom args tokens [] <;> rfl

end Query

end TreeQuery
