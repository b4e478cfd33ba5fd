import TreeQuery.Experiment.Runner

/-!
# What is kept along a search

A search on a file looks at the cancellation flag, proposes candidates, evaluates them and notes
what it does; and it stops, with a status, where it finds the flag set, where the budget is exceeded
and where an evaluation fails. What these steps keep holds at the end of the candidates of a round,
and at the end of all rounds (`Steady.tryAll`, `Steady.tryRounds`). Nothing is committed on the way.
-/

namespace TreeQuery.Experiment

variable {σ : Type} {s : Subject σ} {p : Progress} {w : World σ}
  {holds : Progress → World σ → Prop} {ends : Status → Progress → World σ → Prop}

/-- The steps of a search keep what holds of its progress and of the world while it goes on, and
what comes of it when it stops. Candidates are proposed and evaluated only when the flag was seen
not to be set. -/
structure Steady (s : Subject σ) (holds : Progress → World σ → Prop)
    (ends : Status → Progress → World σ → Prop) : Prop where
  look : ∀ {p w}, holds p w → holds p w.look.2
  note : ∀ {p w} entries, holds p w → holds p (w.note entries)
  propose : ∀ {p w} rounds, holds p w → holds ⟨p.search.next.2, rounds, p.tested⟩ w
  judged : ∀ {p w} c passed, holds p w → w.cancelled = false → (s.evaluate c w).1 = .ok passed →
    holds ⟨p.search.record c passed, p.rounds, p.tested + 1⟩ (s.evaluate c w).2
  cancelled : ∀ {p w}, holds p w → w.cancelled = true → ends .cancelled p w
  exceeded : ∀ {p w} e, holds p w → w.cancelled = false → ends (.budgetExceeded e) p w
  failed : ∀ {p w} c error, holds p w → w.cancelled = false →
    (s.evaluate c w).1 = .error error → ends (.failed error) p (s.evaluate c w).2

def Reached (holds : Progress → World σ → Prop) (ends : Status → Progress → World σ → Prop) :
    Option Status × Progress × World σ → Prop
  | (none, p, w) => holds p w
  | (some status, p, w) => ends status p w

theorem Reached.kept {r : Option Status × Progress × World σ}
    (h : Reached holds (fun _ => holds) r) : holds r.2.1 r.2.2 := by
  obtain ⟨_ | status, p, w⟩ := r <;> exact h

theorem Steady.tryAll (hs : Steady s holds ends) (number : Nat) (cs : List Combination)
    (h : holds p w) : Reached holds ends (tryAll s number cs p w) := by
  induction cs generalizing p w with
  | nil => exact h
  | cons c cs ih =>
    unfold Experiment.tryAll
    have hlook := hs.look h
    have hflag : w.look.2.cancelled = w.look.1 := rfl
    generalize w.look = r at hlook hflag
    obtain ⟨cancelled, w⟩ := r
    cases cancelled with
    | true => exact hs.cancelled hlook hflag
    | false =>
      have hfailed := fun error => hs.failed c error hlook hflag
      have hjudged := fun passed => hs.judged c passed hlook hflag
      simp only [Bool.false_eq_true, if_false]
      generalize s.evaluate c w = r at hfailed hjudged
      obtain ⟨error | passed, w'⟩ := r
      · exact hfailed error rfl
      · exact ih (hs.note _ (hjudged passed rfl))

theorem Steady.tryRounds (hs : Steady s holds ends) (fuel : Nat) (h : holds p w) :
    Reached holds ends (tryRounds s fuel p w) := by
  induction fuel generalizing p w with
  | zero => exact h
  | succ fuel ih =>
    unfold Experiment.tryRounds
    have hlook := hs.look h
    have hflag : w.look.2.cancelled = w.look.1 := rfl
    generalize w.look = r at hlook hflag
    obtain ⟨cancelled, w⟩ := r
    cases cancelled with
    | true => exact hs.cancelled hlook hflag
    | false =>
      have hpropose := fun rounds => hs.propose rounds hlook
      simp only [Bool.false_eq_true, if_false]
      generalize p.search.next = r at hpropose
      obtain ⟨error | round, search⟩ := r
      · exact hs.exceeded error (hs.note _ (hpropose p.rounds)) hflag
      · dsimp only
        split
        · exact hpropose p.rounds
        · have hround := hs.tryAll round.number round.candidates (hpropose round.number)
          generalize Experiment.tryAll s round.number round.candidates _ w = r at hround
          obtain ⟨_ | status, p', w'⟩ := r
          · exact ih hround
          · exact hround

theorem uncommitted_steady (s : Subject σ) :
    Steady s (fun _ _ => True) (fun status _ _ => status.isCommitted = false) where
  look _ := trivial
  note _ _ := trivial
  propose _ _ := trivial
  judged _ _ _ _ _ := trivial
  cancelled _ _ := rfl
  exceeded _ _ _ := rfl
  failed _ _ _ _ _ := rfl

theorem isCommitted_tryRounds {fuel : Nat} {status : Status}
    (h : (tryRounds s fuel p w).1 = some status) : status.isCommitted = false := by
  have hreached := (uncommitted_steady s).tryRounds (p := p) (w := w) fuel trivial
  generalize tryRounds s fuel p w = r at h hreached
  obtain ⟨_ | status', p', w'⟩ := r
  · cases h
  · cases h
    exact hreached

theorem exists_logged (r : FileOutcome × World σ) :
    ∃ entries, logged r = (r.1, r.2.note entries) := by
  unfold logged
  split
  · exact ⟨_, rfl⟩
  · exact ⟨[], by rw [World.note, List.append_nil]⟩

end TreeQuery.Experiment
