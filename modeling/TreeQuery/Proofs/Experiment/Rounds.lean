import TreeQuery.Proofs.Combination.Loop
import TreeQuery.Proofs.Experiment.Commit

/-!
# The rounds of a run come to an end

The search on a file is the loop around a search, with the verdicts of the policy, cut short by a
cancellation or a failure (`Follows`). It runs out of rounds before it runs out of fuel
(`rounds_end`).
-/

namespace TreeQuery.Experiment

open Combination (Loop Dialogue ofList)

variable {σ : Type} {s : Subject σ} {p : Progress} {w : World σ} {n limit fuel : Nat}
  {d : Dialogue} {l : Loop}

/-- The runner has come as far as the loop: its search is the loop's and it has tested what the
loop has a verdict on. -/
structure Follows (n limit : Nat) (l : Loop) (p : Progress) : Prop where
  run : ∃ k, Loop.Run n limit k l
  search : p.search = l.dialogue.search
  tested : p.tested = l.dialogue.verdicts.length

theorem Follows.bounded (h : Follows n limit l p) : ∃ k, Loop.Bounded n k l :=
  h.run.imp fun _ hrun => hrun.bounded

theorem Follows.call {l' : Loop} {p' : Progress} (h : Follows n limit l p) (hstep : Loop.Step l l')
    (hsearch : p'.search = l'.dialogue.search) (htested : p'.tested = l'.dialogue.verdicts.length) :
    Follows n limit l' p' := by
  obtain ⟨k, hrun⟩ := h.run
  exact ⟨⟨k + 1, hrun.call hstep⟩, hsearch, htested⟩

structure Ends (n limit : Nat) (status : Option Status) (l : Loop) (p : Progress) : Prop where
  follows : Follows n limit l p
  empty : status = none → l.stopped = some .empty
  exceeded : ∀ e, status = some (.budgetExceeded e) ↔ l.stopped = some (.exceeded e)

theorem tryAll_follows (number : Nat) (cs : List Combination)
    (h : Follows n limit ⟨d, none⟩ p) (hp : d.pending = cs) :
    ∃ d', Follows n limit ⟨d', none⟩ (tryAll s number cs p w).2.1 ∧ d'.rounds = d.rounds ∧
      ((tryAll s number cs p w).1 = none → d'.pending = []) ∧
      ∀ e, (tryAll s number cs p w).1 ≠ some (.budgetExceeded e) := by
  induction cs generalizing d p w with
  | nil => exact ⟨d, h, rfl, fun _ => hp, fun e he => by cases he⟩
  | cons c cs ih =>
    unfold tryAll
    rcases w.look with ⟨cancelled, w⟩
    cases cancelled with
    | true =>
      simp only [if_true]
      exact ⟨d, h, rfl, fun he => (by cases he), fun e he => (by cases he)⟩
    | false =>
      simp only [Bool.false_eq_true, if_false]
      rcases s.evaluate c w with ⟨error | passed, w⟩
      · exact ⟨d, h, rfl, fun he => (by cases he), fun e he => (by cases he)⟩
      · have hstep := Loop.Step.verdict passed hp
        have hcall : Follows n limit _
            { p with tested := p.tested + 1, search := p.search.record c passed } :=
          h.call hstep (by simp [h.search]) (by simp [h.tested])
        obtain ⟨d', hfollows, hrounds, hrest⟩ := ih (w := w.note _) hcall rfl
        exact ⟨d', hfollows, hrounds, hrest⟩

/-- The rounds follow the loop to its end; and if nothing more is proposed, the flag was not set at
the last look. -/
theorem tryRounds_follows (h : Follows n limit ⟨d, none⟩ p) (hp : d.pending = [])
    (hfuel : 2 ^ n - 1 < fuel + d.proposed.length) :
    (∃ l, Ends n limit (tryRounds s fuel p w).1 l (tryRounds s fuel p w).2.1) ∧
      ((tryRounds s fuel p w).1 = none → (tryRounds s fuel p w).2.2.cancelled = false) := by
  induction fuel generalizing d p w with
  | zero =>
    obtain ⟨k, hbounded⟩ := h.bounded
    have := hbounded.candidates
    simp only [Nat.zero_add] at hfuel
    exact absurd hfuel (Nat.not_lt.2 this)
  | succ fuel ih =>
    unfold tryRounds
    have hflag : w.look.2.cancelled = w.look.1 := rfl
    generalize w.look = r at hflag
    obtain ⟨cancelled, w⟩ := r
    cases cancelled with
    | true =>
      simp only [if_true]
      exact ⟨⟨_, h, fun he => (by cases he), by simp⟩, fun he => (by cases he)⟩
    | false =>
      simp only [Bool.false_eq_true, if_false]
      rcases hn : p.search.next with ⟨error | round, search⟩
      · rw [h.search] at hn
        have hstep := Loop.Step.exceeded hp hn
        exact ⟨⟨_, h.call hstep rfl h.tested, fun he => (by cases he), by simp⟩,
          fun he => (by cases he)⟩
      · rw [h.search] at hn
        dsimp only
        by_cases hempty : round.candidates = []
        · have hstep := Loop.Step.empty hp hn hempty
          have hcond : round.isEmpty = true := by simp [Combination.Round.isEmpty, hempty]
          rw [if_pos hcond]
          exact ⟨⟨_, h.call hstep rfl h.tested, fun _ => rfl, by simp⟩, fun _ => hflag⟩
        · have hstep := Loop.Step.round hp hn hempty
          have hcond : ¬ round.isEmpty = true := by simp [Combination.Round.isEmpty, hempty]
          rw [if_neg hcond]
          have hcall : Follows n limit _ { p with search := search, rounds := round.number } :=
            h.call hstep rfl h.tested
          obtain ⟨d', hfollows, hrounds, hpending, hstatus⟩ := tryAll_follows (s := s) (w := w)
            round.number round.candidates hcall rfl
          have hproposed : d'.proposed = d.proposed ++ round.candidates := by
            simp [Dialogue.proposed, hrounds]
          generalize tryAll s round.number round.candidates _ w = r at hfollows hpending hstatus
          obtain ⟨_ | status, p', w'⟩ := r
          · refine ih hfollows (hpending rfl) ?_
            have := List.length_pos_iff.2 hempty
            rw [hproposed, List.length_append]
            omega
          · exact ⟨⟨_, hfollows, fun he => (by cases he), by simpa using hstatus⟩,
              fun he => (by cases he)⟩

theorem tryRounds_start (s : Subject σ) (w : World σ) (limit : Nat) (hfuel : 2 ^ n ≤ fuel) :
    (∃ l, Ends n limit (tryRounds s fuel ⟨.start n limit, 0, 0⟩ w).1 l
      (tryRounds s fuel ⟨.start n limit, 0, 0⟩ w).2.1) ∧
    ((tryRounds s fuel ⟨.start n limit, 0, 0⟩ w).1 = none →
      (tryRounds s fuel ⟨.start n limit, 0, 0⟩ w).2.2.cancelled = false) := by
  have hpos : 0 < 2 ^ n := Nat.two_pow_pos n
  refine tryRounds_follows (d := .start n limit) ⟨⟨0, .start⟩, rfl, rfl⟩ rfl ?_
  omega

/-- Whatever the verdicts, the loop ends; and the rounds on a file are that loop as long as their
fuel is enough for a round with each non-empty set of occurrences and one more. -/
theorem rounds_end (s : Subject σ) (w : World σ) (n limit : Nat) :
    (∀ k l, Loop.Run n limit k l → Loop.Bounded n k l) ∧
    ∀ fuel, 2 ^ n ≤ fuel →
      ∃ l, Ends n limit (tryRounds s fuel ⟨.start n limit, 0, 0⟩ w).1 l
        (tryRounds s fuel ⟨.start n limit, 0, 0⟩ w).2.1 :=
  ⟨fun _ _ hrun => hrun.bounded, fun _ hfuel => (tryRounds_start s w limit hfuel).1⟩

theorem rounds_end_alone :
    (∃ l, Loop.Run 3 9 10 l ∧ l.dialogue.proposed.length ≤ 7 ∧
      ∃ s, l.dialogue.search.next = (.ok ⟨4, []⟩, s)) ∧
    ∃ l, Ends 3 9
      (tryRounds ⟨marking, ⟨['f']⟩, [], .leaf .nil none⟩ 8 ⟨.start 3 9, 0, 0⟩ twoForms).1 l
      (tryRounds ⟨marking, ⟨['f']⟩, [], .leaf .nil none⟩ 8 ⟨.start 3 9, 0, 0⟩ twoForms).2.1 := by
  obtain ⟨hloop, hrounds⟩ :=
    rounds_end ⟨marking, ⟨['f']⟩, [], .leaf .nil none⟩ twoForms 3 9
  have hone : Loop.Run 3 9 1 _ := .call .start (.round rfl rfl (by decide))
  have halone : Loop.Run 3 9 4 _ :=
    ((hone.call (.verdict true rfl)).call (.verdict true rfl)).call (.verdict true rfl)
  have hmerge : Loop.Run 3 9 6 _ :=
    (halone.call (.round rfl rfl (by decide))).call (.verdict false rfl)
  have hpairs : Loop.Run 3 9 7 _ := hmerge.call (.round rfl rfl (by decide))
  have hrejected : Loop.Run 3 9 10 _ :=
    ((hpairs.call (.verdict false rfl)).call (.verdict false rfl)).call (.verdict false rfl)
  have hbounded := hloop 10 _ hrejected
  exact ⟨⟨_, hrejected, hbounded.candidates,
    hbounded.rejected rfl ⟨3, [ofList [1, 2], ofList [1, 3], ofList [2, 3]]⟩ rfl (Nat.le_refl 3)
      (by decide)⟩, hrounds 8 (Nat.le_refl 8)⟩

end TreeQuery.Experiment
