import TreeQuery.Match.Attempt
import TreeQuery.Proofs.Match.Captures

/-!
# What an attempt leaves behind

An attempt comes to the same as the judgement, and leaves the list of captures as it was if the
pattern does not fit (`restores_attempt`), although alternatives work on the list or on copies of
it. So captures are only added at the end, failed alternatives leave none, and without references
back nothing depends on what was captured before (`attempt_appends`).
-/

namespace TreeQuery.Pattern

-- ---------------------------------------------------------------------------
-- Patterns without references back
-- ---------------------------------------------------------------------------

mutual
def refersBack : Pattern → Bool
  | .backref _ => true
  | .wildcard | .nonempty | .literal _ => false
  | .sequence ps | .union ps | .every ps => someRefersBack ps
  | .capture p | .negation p | .optional p | .child p => refersBack p
def someRefersBack : List Pattern → Bool
  | [] => false
  | p :: ps => refersBack p || someRefersBack ps
end

/-- The judgement comes to the same from every list of captures. -/
def Fresh (judge : List Site → Option (List Site)) : Prop :=
  ∀ captures, judge captures = (judge []).map (captures ++ ·)

namespace Fresh

variable {f g : List Site → Option (List Site)}

theorem keep (condition : Bool) : Fresh (Pattern.keep condition) := by
  intro captures
  cases condition <;> simp [Pattern.keep]

theorem bind (hf : Fresh f) (hg : Fresh g) : Fresh fun captures => (f captures).bind g := by
  intro captures
  dsimp only
  rw [hf captures]
  cases f [] with
  | none => rfl
  | some inner =>
    simp only [Option.map_some, Option.bind_some]
    rw [hg (captures ++ inner), hg inner, Option.map_map]
    congr 1
    funext new
    exact List.append_assoc captures inner new

theorem orElse (hf : Fresh f) (hg : Fresh g) :
    Fresh fun captures => (f captures).or (g captures) := by
  intro captures
  dsimp only
  rw [hf captures, hg captures]
  cases f [] <;> rfl

theorem findSome? {judge : Site → List Site → Option (List Site)}
    (h : ∀ c, Fresh (judge c)) (cs : List Site) :
    Fresh fun captures => cs.findSome? (judge · captures) := by
  intro captures
  dsimp only
  induction cs with
  | nil => rfl
  | cons c cs ih =>
    rw [List.findSome?_cons, List.findSome?_cons, h c captures, ih]
    cases judge c [] <;> rfl

theorem capture (hf : Fresh f) (target : Target) : Fresh fun captures =>
    (f captures).map fun after => captures ++ target.toList ++ after.drop captures.length := by
  intro captures
  dsimp only
  rw [hf captures]
  cases f [] <;> simp

end Fresh

mutual
theorem fresh_judge : ∀ (p : Pattern) (target : Target), p.refersBack = false →
    Fresh (p.judge target)
  | .wildcard, _, _ | .nonempty, _, _ | .literal _, _, _ => .keep _
  | .sequence ps, none, _ => .keep false
  | .sequence ps, some s, h => by
    intro captures
    rw [judge, judge]
    split
    · exact fresh_judgeForm ps s h captures
    · rfl
  | .union ps, target, h => fresh_judgeSome ps target h
  | .every ps, target, h => fresh_judgeEvery ps target h
  | .capture p, target, h => by
    intro captures
    rw [judge, judge]
    exact (fresh_judge p target h).capture target captures
  | .negation p, target, h => by
    intro captures
    rw [judge, judge, fresh_judge p target h captures, Option.isNone_map]
    exact Fresh.keep _ captures
  | .optional p, target, h => by
    intro captures
    rw [judge, judge]
    split
    · rw [Option.map_some, List.append_nil]
    · exact fresh_judge p target h captures
  | .child p, none, _ => .keep false
  | .child p, some s, h => by
    intro captures
    rw [judge, judge]
    exact Fresh.findSome? (fun c => fresh_judge p (some c) h) _ captures
theorem fresh_judgeForm : ∀ (ps : List Pattern) (s : Site), someRefersBack ps = false →
    Fresh (judgeForm ps s)
  | [], _, _ => .keep true
  | p :: ps, s, h => by
    obtain ⟨hp, hps⟩ := Bool.or_eq_false_iff.1 h
    exact (fresh_judge p (some s) hp).bind (fresh_judgeChildren ps s.children hps)
theorem fresh_judgeChildren : ∀ (ps : List Pattern) (cs : List Site), someRefersBack ps = false →
    Fresh (judgeChildren ps cs)
  | [], _, _ => .keep true
  | p :: ps, cs, h => by
    obtain ⟨hp, hps⟩ := Bool.or_eq_false_iff.1 h
    by_cases hellipsis : p = .nonempty
    · subst hellipsis
      intro captures
      rw [judgeChildren, judgeChildren]
      split
      · rfl
      · exact fresh_judgeChildren ps cs.tail hps captures
    · intro captures
      rw [judgeChildren, judgeChildren]
      · exact (fresh_judge p cs.head? hp).bind (fresh_judgeChildren ps cs.tail hps) captures
      · exact hellipsis
      · exact hellipsis
theorem fresh_judgeSome : ∀ (ps : List Pattern) (target : Target), someRefersBack ps = false →
    Fresh (judgeSome ps target)
  | [], _, _ => .keep false
  | p :: ps, target, h => by
    obtain ⟨hp, hps⟩ := Bool.or_eq_false_iff.1 h
    intro captures
    rw [judgeSome_cons, judgeSome_cons]
    exact (fresh_judge p target hp).orElse (fresh_judgeSome ps target hps) captures
theorem fresh_judgeEvery : ∀ (ps : List Pattern) (target : Target), someRefersBack ps = false →
    Fresh (judgeEvery ps target)
  | [], _, _ => .keep true
  | p :: ps, target, h => by
    obtain ⟨hp, hps⟩ := Bool.or_eq_false_iff.1 h
    exact (fresh_judge p target hp).bind (fresh_judgeEvery ps target hps)
end

-- ---------------------------------------------------------------------------
-- Attempts and judgements
-- ---------------------------------------------------------------------------

namespace Attempt

variable {a b : Attempt} {f g : List Site → Option (List Site)}

/-- The attempt succeeds with the captures of the judgement, or fails as that does. -/
def Agrees (a : Attempt) (f : List Site → Option (List Site)) : Prop :=
  ∀ captures, (a captures).1 = (f captures).isSome ∧
    ∀ after, f captures = some after → (a captures).2 = after

/-- Besides, where it fails it leaves the captures as they were. -/
def Restores (a : Attempt) (f : List Site → Option (List Site)) : Prop :=
  ∀ captures, a captures = ((f captures).isSome, (f captures).getD captures)

theorem Restores.agrees (h : Restores a f) : Agrees a f := by
  intro captures
  rw [h captures]
  exact ⟨rfl, fun after hafter => by rw [hafter]; rfl⟩

theorem Agrees.onCopy (h : Agrees a f) : Restores a.onCopy f := by
  intro captures
  obtain ⟨hverdict, hleft⟩ := h captures
  unfold Attempt.onCopy
  generalize a captures = r at hverdict hleft
  obtain ⟨verdict, copy⟩ := r
  dsimp only at hverdict
  subst hverdict
  cases hf : f captures with
  | none => rfl
  | some after => rw [← hleft after hf]; rfl

theorem Agrees.andThen (ha : Agrees a f) (hb : Agrees b g) :
    Agrees (a.andThen b) fun captures => (f captures).bind g := by
  intro captures
  obtain ⟨hverdict, hleft⟩ := ha captures
  unfold Attempt.andThen
  generalize a captures = r at hverdict hleft
  obtain ⟨verdict, left⟩ := r
  dsimp only at hverdict
  subst hverdict
  dsimp only
  cases hf : f captures with
  | none => exact ⟨rfl, fun after hafter => by cases hafter⟩
  | some inner =>
    obtain rfl := hleft inner hf
    exact hb left

theorem restores_test (condition : List Site → Bool) :
    Restores (.test condition) fun captures => keep (condition captures) captures := by
  intro captures
  dsimp only [Attempt.test]
  cases condition captures <;> rfl

theorem Restores.orElse (ha : Restores a f) (hb : Restores b g) :
    Restores (a.orElse b) fun captures => (f captures).or (g captures) := by
  intro captures
  dsimp only [Attempt.orElse]
  rw [ha captures]
  cases f captures with
  | some after => rfl
  | none => exact hb captures

theorem restores_first {attempt : Site → Attempt} {judge : Site → List Site → Option (List Site)}
    (h : ∀ c, Restores (attempt c) (judge c)) (cs : List Site) :
    Restores (.first (cs.map attempt)) fun captures => cs.findSome? (judge · captures) := by
  induction cs with
  | nil => exact restores_test fun _ => false
  | cons c cs ih =>
    intro captures
    rw [List.map_cons, first, (h c).orElse ih captures]
    dsimp only
    rw [List.findSome?_cons]
    cases judge c captures <;> rfl

end Attempt

open Attempt

mutual
theorem restores_attempt : ∀ (p : Pattern) (target : Target),
    Restores (p.attempt target) (p.judge target)
  | .wildcard, _ | .nonempty, _ | .literal _, _ | .backref _, _ => restores_test _
  | .sequence ps, none => restores_test fun _ => false
  | .sequence ps, some s => by
    intro captures
    rw [attempt, judge]
    split
    · exact (agrees_attemptForm ps s).onCopy captures
    · rfl
  | .union ps, target => restores_attemptSome ps target
  | .every ps, target => (agrees_attemptEvery ps target).onCopy
  | .capture p, target => by
    intro captures
    rw [attempt, judge]
    dsimp only
    rw [restores_attempt p target captures]
    cases p.judge target captures <;> rfl
  | .negation p, target => by
    intro captures
    rw [attempt, judge, restores_test]
    dsimp only
    rw [restores_attempt p target captures]
    cases p.judge target captures <;> rfl
  | .optional p, target => by
    intro captures
    rw [attempt, judge]
    split
    · rfl
    · exact (restores_attempt p target).agrees.onCopy captures
  | .child p, none => restores_test fun _ => false
  | .child p, some s => by
    intro captures
    rw [attempt, judge]
    exact restores_first (fun c => (restores_attempt p (some c)).agrees.onCopy) _ captures
theorem agrees_attemptForm : ∀ (ps : List Pattern) (s : Site),
    Agrees (attemptForm ps s) (judgeForm ps s)
  | [], _ => (restores_test fun _ => true).agrees
  | p :: ps, s =>
    (restores_attempt p (some s)).agrees.andThen (agrees_attemptChildren ps s.children)
theorem agrees_attemptChildren : ∀ (ps : List Pattern) (cs : List Site),
    Agrees (attemptChildren ps cs) (judgeChildren ps cs)
  | [], _ => (restores_test fun _ => true).agrees
  | p :: ps, cs => by
    by_cases hellipsis : p = .nonempty
    · subst hellipsis
      intro captures
      rw [attemptChildren, judgeChildren]
      cases cs with
      | nil => exact ⟨rfl, nofun⟩
      | cons c cs => exact agrees_attemptChildren ps cs captures
    · intro captures
      rw [attemptChildren, judgeChildren]
      · exact (restores_attempt p cs.head?).agrees.andThen
          (agrees_attemptChildren ps cs.tail) captures
      · exact hellipsis
      · exact hellipsis
theorem restores_attemptSome : ∀ (ps : List Pattern) (target : Target),
    Restores (attemptSome ps target) (judgeSome ps target)
  | [], _ => restores_test fun _ => false
  | p :: ps, target => by
    intro captures
    rw [attemptSome, judgeSome_cons]
    exact (restores_attempt p target).agrees.onCopy.orElse (restores_attemptSome ps target) captures
theorem agrees_attemptEvery : ∀ (ps : List Pattern) (target : Target),
    Agrees (attemptEvery ps target) (judgeEvery ps target)
  | [], _ => (restores_test fun _ => true).agrees
  | p :: ps, target => (restores_attempt p target).agrees.andThen (agrees_attemptEvery ps target)
end

theorem judge_eq_attempt (p : Pattern) (target : Target) (captures : List Site) :
    p.judge target captures = if (p.attempt target captures).1 = true then
      some (p.attempt target captures).2 else none := by
  rw [restores_attempt p target captures]
  cases p.judge target captures <;> rfl

/-- An attempt is what the judgement is, worked out on one list of captures. If the pattern does
not fit, the list is exactly as it was, and if it fits, captures are added at its end. If the
pattern does not refer back, the verdict and what is added are the same for every list. -/
theorem attempt_appends (p : Pattern) (target : Target) :
    (∀ captures, p.judge target captures = if (p.attempt target captures).1 = true then
      some (p.attempt target captures).2 else none) ∧
    (∀ captures, (p.attempt target captures).1 = false →
      (p.attempt target captures).2 = captures) ∧
    (∀ captures, (p.attempt target captures).1 = true →
      ∃ new, (p.attempt target captures).2 = captures ++ new) ∧
    (p.refersBack = false → ∃ verdict new, ∀ captures,
      p.attempt target captures = (verdict, captures ++ new)) := by
  have hattempt := restores_attempt p target
  refine ⟨judge_eq_attempt p target, fun captures h => ?_, fun captures h => ?_, fun h => ?_⟩
  · rw [hattempt captures] at h ⊢
    rw [Option.isSome_eq_false_iff, Option.isNone_iff_eq_none] at h
    rw [h, Option.getD_none]
  · rw [hattempt captures] at h ⊢
    obtain ⟨after, hafter⟩ := Option.isSome_iff_exists.1 h
    obtain ⟨new, hnew⟩ := (gains_of_judge p hafter).isPrefix
    exact ⟨new, by rw [hafter, Option.getD_some, hnew]⟩
  · refine ⟨(p.judge target []).isSome, (p.judge target []).getD [], fun captures => ?_⟩
    rw [hattempt captures, fresh_judge p target h captures]
    cases p.judge target [] <;> simp

theorem attempt_appends_after_failure :
    let failing : Pattern := .every [.capture .wildcard, .literal (.sym "y")]
    let p : Pattern := .union [failing, .capture (.literal (.sym "x"))]
    let target : Target := some (.root (.node "x" [] none))
    let earlier : List Site := [⟨[0], .leaf .nil none⟩]
    (failing.attempt target earlier).1 = false ∧ (failing.attempt target earlier).2 = earlier ∧
      (p.attempt target earlier).1 = true ∧
      (∃ new, (p.attempt target earlier).2 = earlier ++ new) ∧
      p.refersBack = false ∧
      ∃ verdict new, ∀ captures, p.attempt target captures = (verdict, captures ++ new) := by
  intro failing p target earlier
  have hfails : (failing.attempt target earlier).1 = false := by decide
  have hfits : (p.attempt target earlier).1 = true := by decide
  have hfresh : p.refersBack = false := by decide
  obtain ⟨-, hrestores, -, -⟩ := attempt_appends failing target
  obtain ⟨-, -, hadds, hconstant⟩ := attempt_appends p target
  exact ⟨hfails, hrestores earlier hfails, hfits, hadds earlier hfits, hfresh, hconstant hfresh⟩

end TreeQuery.Pattern
