import TreeQuery.Match.Observe
import TreeQuery.Match.Search

/-!
# The events of matching

What is reported of an evaluation is its trace (`observe_eq`). Attempts are closed in the reverse of
the order in which they began, each with its verdict, and the depth of an attempt is the number of
attempts around it (`balanced_of_bracketed`). So the whole has one outermost attempt.
-/

namespace TreeQuery

namespace Event

def depth : Event → Nat
  | .enter depth _ _ => depth
  | .exit depth _ _ _ => depth

end Event

namespace Pattern

-- ---------------------------------------------------------------------------
-- One evaluation gives the judgement and its trace
-- ---------------------------------------------------------------------------

namespace Observed

variable {result after : Option (List Site)} {events next : List Event}

theorem enclose_eq (depth : Nat) (p : Pattern) (target : Target) (captures : List Site)
    (inner : List Event) : enclose depth p target (p.judge target captures, inner) =
      (p.judge target captures, around depth p target captures inner) := rfl

theorem andThen_eq (judge : List Site → Option (List Site)) (trace : List Site → List Event) :
    andThen (result, events) (fun captures => (judge captures, trace captures)) =
      (result.bind judge, events ++
        match result with
        | some captures => trace captures
        | none => []) := by
  cases result with
  | none => simp [andThen]
  | some captures => rfl

theorem orElse_eq : orElse (result, events) (after, next) =
    (result.or after, events ++
      match result with
      | some _ => []
      | none => next) := by
  cases result with
  | none => rfl
  | some captures => simp [orElse]

theorem first_eq (judge : Site → Option (List Site)) (trace : Site → List Event) (cs : List Site) :
    first (fun c => (judge c, trace c)) cs =
      (cs.findSome? judge, upToFirst trace (fun c => (judge c).isSome) cs) := by
  induction cs with
  | nil => rfl
  | cons c cs ih =>
    rw [first, ih, orElse_eq, List.findSome?_cons, upToFirst]
    cases judge c <;> rfl

end Observed

open Observed

mutual
theorem observe_eq : ∀ (p : Pattern) (depth : Nat) (target : Target) (captures : List Site),
    observe depth p target captures =
      (p.judge target captures, p.trace depth target captures)
  | .wildcard, _, _, _ | .nonempty, _, _, _ | .literal _, _, _, _ | .backref _, _, _, _ => rfl
  | .sequence ps, depth, none, captures => rfl
  | .sequence ps, depth, some s, captures => by
    have hform : (if s.tree.isNode then observeForm (depth + 1) ps s captures else silent none) =
        ((sequence ps).judge (some s) captures,
          if s.tree.isNode then traceForm (depth + 1) ps s captures else []) := by
      rw [judge, observeForm_eq ps]
      split <;> rfl
    rw [observe, hform]
    exact enclose_eq ..
  | .union ps, depth, target, captures => by
    rw [observe, observeSome_eq]
    exact enclose_eq ..
  | .every ps, depth, target, captures => by
    rw [observe, observeEvery_eq]
    exact enclose_eq ..
  | .capture q, depth, target, captures => by
    rw [observe, observe_eq q]
    exact enclose_eq ..
  | .negation q, depth, target, captures => by
    rw [observe, observe_eq q]
    exact enclose_eq ..
  | .optional q, depth, target, captures => by
    have hinner : (if target.isAbsent then silent (some captures)
        else observe (depth + 1) q target captures) = ((optional q).judge target captures,
          if target.isAbsent then [] else q.trace (depth + 1) target captures) := by
      rw [judge, observe_eq q]
      split <;> rfl
    rw [observe, hinner]
    exact enclose_eq ..
  | .child q, depth, none, captures => rfl
  | .child q, depth, some s, captures => by
    have hq : (fun c => observe (depth + 1) q (some c) captures) =
        fun c => (q.judge (some c) captures, q.trace (depth + 1) (some c) captures) :=
      funext fun c => observe_eq q (depth + 1) (some c) captures
    rw [observe, hq, first_eq]
    exact enclose_eq ..
theorem observeForm_eq : ∀ (ps : List Pattern) (depth : Nat) (s : Site) (captures : List Site),
    observeForm depth ps s captures = (judgeForm ps s captures, traceForm depth ps s captures)
  | [], _, _, _ => rfl
  | p :: ps, depth, s, captures => by
    have hps : observeChildren depth ps s.children = fun after =>
        (judgeChildren ps s.children after, traceChildren depth ps s.children after) :=
      funext fun after => observeChildren_eq ps depth s.children after
    rw [observeForm, observe_eq p, hps, andThen_eq]
    rfl
theorem observeChildren_eq : ∀ (ps : List Pattern) (depth : Nat) (cs captures : List Site),
    observeChildren depth ps cs captures =
      (judgeChildren ps cs captures, traceChildren depth ps cs captures)
  | [], _, _, _ => rfl
  | p :: ps, depth, cs, captures => by
    by_cases hellipsis : p = .nonempty
    · subst hellipsis
      rw [observeChildren, judgeChildren, traceChildren, observeChildren_eq ps]
      split <;> rfl
    · have hps : observeChildren depth ps cs.tail = fun after =>
          (judgeChildren ps cs.tail after, traceChildren depth ps cs.tail after) :=
        funext fun after => observeChildren_eq ps depth cs.tail after
      rw [observeChildren, judgeChildren, traceChildren, observe_eq p, hps]
      · exact andThen_eq _ _
      all_goals exact hellipsis
theorem observeSome_eq : ∀ (ps : List Pattern) (depth : Nat) (target : Target)
    (captures : List Site), observeSome depth ps target captures =
      (judgeSome ps target captures, traceSome depth ps target captures)
  | [], _, _, _ => rfl
  | p :: ps, depth, target, captures => by
    rw [observeSome, observe_eq p, observeSome_eq ps, orElse_eq, judgeSome_cons]
    rfl
theorem observeEvery_eq : ∀ (ps : List Pattern) (depth : Nat) (target : Target)
    (captures : List Site), observeEvery depth ps target captures =
      (judgeEvery ps target captures, traceEvery depth ps target captures)
  | [], _, _, _ => rfl
  | p :: ps, depth, target, captures => by
    have hps : observeEvery depth ps target = fun after =>
        (judgeEvery ps target after, traceEvery depth ps target after) :=
      funext fun after => observeEvery_eq ps depth target after
    rw [observeEvery, observe_eq p, hps, andThen_eq]
    rfl
end

-- ---------------------------------------------------------------------------
-- Brackets
-- ---------------------------------------------------------------------------

/-- Attempts one behind the other, each around attempts one deeper. -/
inductive Bracketed : Nat → List Event → Prop
  | nil {depth : Nat} : Bracketed depth []
  | attempt {depth : Nat} {inner rest : List Event} (p : Pattern) (target : Target)
      (captures : List Site) : Bracketed (depth + 1) inner → Bracketed depth rest →
      Bracketed depth (around depth p target captures inner ++ rest)

namespace Bracketed

variable {depth : Nat} {inner events rest : List Event}

theorem around (p : Pattern) (target : Target) (captures : List Site)
    (h : Bracketed (depth + 1) inner) :
    Bracketed depth (Pattern.around depth p target captures inner) := by
  simpa using attempt p target captures h .nil

theorem append (h : Bracketed depth events) (hrest : Bracketed depth rest) :
    Bracketed depth (events ++ rest) := by
  induction h with
  | nil => exact hrest
  | attempt p target captures hinner _ _ ih =>
    rw [List.append_assoc]
    exact .attempt p target captures hinner (ih hrest)

theorem upToFirst {trace : Site → List Event} (h : ∀ c, Bracketed depth (trace c))
    (fits : Site → Bool) (cs : List Site) : Bracketed depth (upToFirst trace fits cs) := by
  induction cs with
  | nil => exact .nil
  | cons c cs ih =>
    rw [Pattern.upToFirst]
    refine (h c).append ?_
    split
    · exact .nil
    · exact ih

theorem le_depth (h : Bracketed depth events) : ∀ e ∈ events, depth ≤ e.depth := by
  induction h with
  | nil => simp
  | @attempt depth inner rest p target captures _ _ ihinner ih =>
    intro e he
    simp only [Pattern.around, List.mem_append, List.mem_cons, List.not_mem_nil, or_false] at he
    rcases he with ((rfl | he) | rfl) | he
    · exact Nat.le_refl _
    · exact Nat.le_of_succ_le (ihinner e he)
    · exact Nat.le_refl _
    · exact ih e he

end Bracketed

/-- One attempt, around attempts one deeper. -/
def IsAttempt (depth : Nat) (p : Pattern) (target : Target) (captures : List Site)
    (events : List Event) : Prop :=
  ∃ inner, Bracketed (depth + 1) inner ∧ events = around depth p target captures inner

theorem IsAttempt.bracketed {depth : Nat} {p : Pattern} {target : Target} {captures : List Site}
    {events : List Event} (h : IsAttempt depth p target captures events) :
    Bracketed depth events := by
  obtain ⟨inner, hinner, rfl⟩ := h
  exact .around p target captures hinner

mutual
theorem isAttempt_trace : ∀ (p : Pattern) (depth : Nat) (target : Target) (captures : List Site),
    IsAttempt depth p target captures (p.trace depth target captures)
  | .wildcard, _, _, _ | .nonempty, _, _, _ | .literal _, _, _, _ | .backref _, _, _, _ =>
    ⟨[], .nil, rfl⟩
  | .sequence ps, depth, none, captures => ⟨[], .nil, rfl⟩
  | .sequence ps, depth, some s, captures => by
    refine ⟨_, ?_, rfl⟩
    dsimp only
    split
    · exact bracketed_traceForm ps (depth + 1) s captures
    · exact .nil
  | .union ps, depth, target, captures =>
    ⟨_, bracketed_traceSome ps (depth + 1) target captures, rfl⟩
  | .every ps, depth, target, captures =>
    ⟨_, bracketed_traceEvery ps (depth + 1) target captures, rfl⟩
  | .capture q, depth, target, captures =>
    ⟨_, (isAttempt_trace q (depth + 1) target captures).bracketed, rfl⟩
  | .negation q, depth, target, captures =>
    ⟨_, (isAttempt_trace q (depth + 1) target captures).bracketed, rfl⟩
  | .optional q, depth, target, captures => by
    refine ⟨_, ?_, rfl⟩
    split
    · exact .nil
    · exact (isAttempt_trace q (depth + 1) target captures).bracketed
  | .child q, depth, none, captures => ⟨[], .nil, rfl⟩
  | .child q, depth, some s, captures =>
    ⟨_, .upToFirst (fun c => (isAttempt_trace q (depth + 1) (some c) captures).bracketed) _ _, rfl⟩
theorem bracketed_traceForm : ∀ (ps : List Pattern) (depth : Nat) (s : Site)
    (captures : List Site), Bracketed depth (traceForm depth ps s captures)
  | [], _, _, _ => .nil
  | p :: ps, depth, s, captures => by
    rw [traceForm]
    refine (isAttempt_trace p depth (some s) captures).bracketed.append ?_
    split
    · exact bracketed_traceChildren ps depth s.children _
    · exact .nil
theorem bracketed_traceChildren : ∀ (ps : List Pattern) (depth : Nat) (cs captures : List Site),
    Bracketed depth (traceChildren depth ps cs captures)
  | [], _, _, _ => .nil
  | p :: ps, depth, cs, captures => by
    by_cases hellipsis : p = .nonempty
    · subst hellipsis
      rw [traceChildren]
      split
      · exact .nil
      · exact bracketed_traceChildren ps depth cs.tail captures
    · rw [traceChildren]
      · refine (isAttempt_trace p depth cs.head? captures).bracketed.append ?_
        split
        · exact bracketed_traceChildren ps depth cs.tail _
        · exact .nil
      · exact hellipsis
theorem bracketed_traceSome : ∀ (ps : List Pattern) (depth : Nat) (target : Target)
    (captures : List Site), Bracketed depth (traceSome depth ps target captures)
  | [], _, _, _ => .nil
  | p :: ps, depth, target, captures => by
    rw [traceSome]
    refine (isAttempt_trace p depth target captures).bracketed.append ?_
    split
    · exact .nil
    · exact bracketed_traceSome ps depth target captures
theorem bracketed_traceEvery : ∀ (ps : List Pattern) (depth : Nat) (target : Target)
    (captures : List Site), Bracketed depth (traceEvery depth ps target captures)
  | [], _, _, _ => .nil
  | p :: ps, depth, target, captures => by
    rw [traceEvery]
    refine (isAttempt_trace p depth target captures).bracketed.append ?_
    split
    · exact bracketed_traceEvery ps depth target _
    · exact .nil
end

-- ---------------------------------------------------------------------------
-- Depths
-- ---------------------------------------------------------------------------

structure Trial where
  pattern : Pattern
  target : Target
  captures : List Site

def Trial.verdict (a : Trial) : Bool := (a.pattern.judge a.target a.captures).isSome

/-- The events that end the attempts under way, innermost first, and all that begin meanwhile. An
attempt begins and ends at the depth of the number of attempts around it, and ends with its
verdict. -/
inductive Balanced : List Trial → List Event → Prop
  | nil : Balanced [] []
  | enter {under : List Trial} {events : List Event} (a : Trial) : Balanced (a :: under) events →
      Balanced under (.enter under.length a.pattern a.target :: events)
  | exit {under : List Trial} {events : List Event} (a : Trial) : Balanced under events →
      Balanced (a :: under) (.exit under.length a.pattern a.target a.verdict :: events)

theorem Bracketed.balanced {depth : Nat} {events rest : List Event} {under : List Trial}
    (h : Bracketed depth events) (hdepth : under.length = depth) (hrest : Balanced under rest) :
    Balanced under (events ++ rest) := by
  induction h generalizing under rest with
  | nil => exact hrest
  | @attempt _ inner behind p target captures _ _ ihinner ih =>
    subst hdepth
    let a : Trial := ⟨p, target, captures⟩
    have hinner : Balanced (a :: under)
        (inner ++ .exit under.length p target a.verdict :: (behind ++ rest)) :=
      ihinner rfl (.exit a (ih rfl hrest))
    simpa [Pattern.around, a, Trial.verdict] using Balanced.enter a hinner

end Pattern

namespace Query

open Pattern

theorem isMatch_eq (q : Query) (s : Site) :
    (q.matchSite s).isMatch = (q.root.judge (some s) []).isSome := by
  unfold matchSite
  cases q.root.judge (some s) [] with
  | none => rfl
  | some sites =>
    dsimp only
    split <;> rfl

theorem balanced_traceSite (q : Query) (s : Site) : Balanced [] (q.traceSite s) := by
  have h := (isAttempt_trace q.root 0 (some s) []).bracketed.balanced rfl .nil
  rwa [List.append_nil] at h

theorem exists_traceSite (q : Query) (s : Site) :
    ∃ inner, q.traceSite s = .enter 0 q.root (some s) :: inner ++
        [.exit 0 q.root (some s) (q.matchSite s).isMatch] ∧
      ∀ e ∈ inner, 0 < e.depth := by
  obtain ⟨inner, hinner, htrace⟩ := isAttempt_trace q.root 0 (some s) []
  refine ⟨inner, ?_, hinner.le_depth⟩
  rw [traceSite, htrace, isMatch_eq]
  rfl

def attemptOn (q : Query) (s : Site) : String × Bool :=
  (s.tree.tag?.getD "", (q.matchSite s).isMatch)

theorem attempts_traceSite (q : Query) (s : Site) : attempts (q.traceSite s) = [q.attemptOn s] := by
  obtain ⟨inner, htrace, hinner⟩ := q.exists_traceSite s
  have hnone : inner.filterMap Event.attempt? = [] := by
    refine List.filterMap_eq_nil_iff.2 fun e he => ?_
    have hdepth := hinner e he
    cases e with
    | enter => rfl
    | exit depth =>
      cases depth with
      | zero => cases hdepth
      | succ => rfl
  rw [attempts, htrace, List.filterMap_append, List.filterMap_cons_none rfl, hnone]
  rfl

end Query

end TreeQuery
