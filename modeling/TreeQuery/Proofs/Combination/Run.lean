import Mathlib.Data.Finset.Powerset
import Mathlib.Order.Interval.Finset.Nat
import TreeQuery.Proofs.Combination.Round

/-!
# Runs of a search

`Sound` is what every run keeps, whatever the verdicts: only non-empty sets of occurrence numbers
are tried, and units have passed. It implies that a round proposes nothing that was tried before,
so a driven search ends in an empty round or above the limit (`completes_drive`).
-/

namespace TreeQuery.Combination.Search

variable {n : Nat} {s t : Search} {c : Combination} {accepts : Combination → Bool}

def Proposable (n : Nat) (c : Combination) : Prop :=
  c.members.Nonempty ∧ c.members ⊆ Finset.Icc 1 n

theorem proposable_singleton {i : Nat} (h1 : 1 ≤ i) (hn : i ≤ n) : Proposable n (singleton i) :=
  ⟨by simp, by simp [h1, hn]⟩

theorem Proposable.union {a b : Combination} (ha : Proposable n a) (hb : Proposable n b) :
    Proposable n (a.union b) := by
  rw [Proposable, members_union]
  exact ⟨ha.1.mono Finset.subset_union_left, Finset.union_subset ha.2 hb.2⟩

structure Sound (n : Nat) (s : Search) : Prop where
  occurrences : s.occurrences = n
  tried : ∀ c, s.Tried c → Proposable n c
  units : ∀ c ∈ s.active, c ∈ s.accepted
  untouched : s.round = 0 → ∀ c, ¬ s.Tried c

theorem sound_start (n limit : Nat) : Sound n (start n limit) where
  occurrences := rfl
  tried c h := by simp [start, Tried] at h
  units c h := by simp [start] at h
  untouched _ c := by simp [start, Tried]

theorem Sound.proposable_of_unit (h : Sound n s) (hc : c ∈ s.active) : Proposable n c :=
  h.tried c (.inl (h.units c hc))

theorem Sound.propose (h : Sound n s) (hc : c ∈ s.propose (s.round + 1)) :
    Proposable n c ∧ ¬ s.Tried c := by
  by_cases h3 : 3 ≤ s.round + 1
  · obtain ⟨hu, ht⟩ := (mem_propose_later h3).1 hc
    obtain ⟨a, ha, b, hb, rfl⟩ := exists_of_mem_unions hu
    exact ⟨(h.proposable_of_unit ha).union (h.proposable_of_unit hb), ht⟩
  · obtain h0 | h1 : s.round = 0 ∨ s.round = 1 := by omega
    · rw [h0] at hc
      obtain ⟨i, hi, hn, rfl⟩ := mem_singletons.1 hc
      exact ⟨proposable_singleton hi (h.occurrences ▸ hn), h.untouched h0 _⟩
    · rw [h1] at hc
      obtain ⟨h2, rfl, ht⟩ := mem_merge.1 hc
      refine ⟨⟨?_, fun i hi => ?_⟩, ht⟩
      · obtain ⟨a, ha⟩ := List.exists_mem_of_length_pos (Nat.lt_of_lt_of_le Nat.two_pos h2)
        obtain ⟨i, hi⟩ := (h.proposable_of_unit ha).1
        exact ⟨i, mem_members.2 (mem_foldl_union.2 (.inr ⟨a, ha, mem_members.1 hi⟩))⟩
      · rcases mem_foldl_union.1 (mem_members.1 hi) with hi | ⟨a, ha, hi⟩
        · cases hi
        · exact (h.proposable_of_unit ha).2 (mem_members.2 hi)

/-- The search that a round within the limit leaves before its verdicts. -/
def advance (s : Search) : Search :=
  { s with round := s.round + 1, finished := (s.propose (s.round + 1)).isEmpty }

theorem Sound.recordEach (h : Sound n s) {vs : List (Combination × Bool)}
    (hvs : vs.map (·.1) = s.propose (s.round + 1)) : Sound n (s.advance.recordEach vs) where
  occurrences := by rw [recordEach_occurrences]; exact h.occurrences
  tried c hc := by
    rcases tried_recordEach.1 hc with hc | hc
    · exact h.tried c hc
    · exact (h.propose (hvs ▸ hc)).1
  units c hc := by
    rw [recordEach_accepted, List.mem_append]
    exact (mem_of_mem_active hc).imp_left (h.units c)
  untouched h0 := by simp [advance] at h0

theorem Sound.recordAll (h : Sound n s) :
    Sound n (s.advance.recordAll accepts (s.propose (s.round + 1))) :=
  recordAll_eq ▸ h.recordEach map_judged

theorem not_finished_recordAll (he : s.propose (s.round + 1) ≠ [])
    (hmerge : s.round = 1 → ∀ c ∈ s.propose (s.round + 1), accepts c = false) :
    (s.advance.recordAll accepts (s.propose (s.round + 1))).finished = false := by
  rw [Bool.eq_false_iff, Ne, recordAll_finished]
  rintro (hf | ⟨h2, c, hc, ha⟩)
  · exact he (List.isEmpty_iff.1 hf)
  · rw [hmerge (Nat.succ.inj h2) c hc] at ha
    cases ha

-- ---------------------------------------------------------------------------
-- Complete runs
-- ---------------------------------------------------------------------------

/-- Rounds that stay within the limit, each recorded under the rule, until one is empty. -/
inductive Completes (accepts : Combination → Bool) : Search → List Round → Search → Prop
  | stop {s s' : Search} {r : Round} : s.next = (.ok r, s') → r.candidates = [] →
      Completes accepts s [r] s'
  | round {s s' t : Search} {r : Round} {rs : List Round} : s.next = (.ok r, s') →
      r.candidates ≠ [] → Completes accepts (s'.recordAll accepts r.candidates) rs t →
      Completes accepts s (r :: rs) t

theorem Completes.getLast? {rs : List Round} (h : Completes accepts s rs t) :
    ∃ r, rs.getLast? = some r ∧ r.candidates = [] := by
  induction h with
  | stop _ hr => exact ⟨_, rfl, hr⟩
  | @round _ _ _ r rs _ _ hc ih =>
    obtain ⟨last, hl, he⟩ := ih
    exact ⟨last, by simp [List.getLast?_cons, hl], he⟩

theorem next_ok {r : Round} {s' : Search} (hf : s.finished = false)
    (h : s.next = (.ok r, s')) :
    r = ⟨s.round + 1, s.propose (s.round + 1)⟩ ∧ s' = s.advance := by
  by_cases hl : (s.propose (s.round + 1)).length ≤ s.limit
  · rw [next_proposed hf hl] at h
    simp only [Prod.mk.injEq, Except.ok.injEq] at h
    exact ⟨h.1.symm, h.2.symm⟩
  · rw [next_exceeded hf (Nat.not_le.1 hl)] at h
    simp at h

theorem not_finished_of_next {r : Round} {s' : Search} (h : s.next = (.ok r, s'))
    (hr : r.candidates ≠ []) : s.finished = false := by
  by_contra hf
  rw [Bool.not_eq_false] at hf
  rw [next_finished hf, Prod.mk.injEq, Except.ok.injEq] at h
  exact hr (h.1 ▸ rfl)

theorem Completes.eq_of_finished {rs : List Round} (h : Completes accepts s rs t)
    (hf : s.finished = true) : t = s := by
  cases h with
  | stop hn _ =>
    rw [next_finished hf] at hn
    exact (congrArg Prod.snd hn).symm
  | round hn hr _ =>
    rw [not_finished_of_next hn hr] at hf
    cases hf

theorem next_error {e : BudgetExceeded} {s' : Search} (h : s.next = (.error e, s')) :
    s' = { s with round := s.round + 1, finished := true } := by
  cases hf : s.finished with
  | true =>
    rw [next_finished hf] at h
    simp at h
  | false =>
    by_cases hl : (s.propose (s.round + 1)).length ≤ s.limit
    · rw [next_proposed hf hl] at h
      simp at h
    · rw [next_exceeded hf (Nat.not_le.1 hl)] at h
      exact (Prod.mk.inj h).2.symm

def untried (n : Nat) (s : Search) : Finset (Finset Nat) :=
  (Finset.Icc 1 n).powerset \ ((s.accepted ++ s.rejected).map members).toFinset

theorem mem_untried {F : Finset Nat} :
    F ∈ untried n s ↔ F ⊆ Finset.Icc 1 n ∧ ∀ c, s.Tried c → c.members ≠ F := by
  simp [untried, Tried, or_imp, forall_and]

theorem card_untried_le : (untried n s).card ≤ 2 ^ n := by
  calc (untried n s).card ≤ (Finset.Icc 1 n).powerset.card :=
        Finset.card_le_card Finset.sdiff_subset
    _ = 2 ^ n := by simp

theorem Sound.card_untried_lt (h : Sound n s) {vs : List (Combination × Bool)}
    (hvs : vs.map (·.1) = s.propose (s.round + 1)) (hne : s.propose (s.round + 1) ≠ []) :
    (untried n (s.advance.recordEach vs)).card < (untried n s).card := by
  obtain ⟨c, hc⟩ := List.exists_mem_of_ne_nil _ hne
  obtain ⟨hp, ht⟩ := h.propose hc
  refine Finset.card_lt_card (Finset.ssubset_iff_subset_ne.2 ⟨fun F hF => ?_, fun heq => ?_⟩)
  · rw [mem_untried] at hF ⊢
    exact ⟨hF.1, fun d hd => hF.2 d (tried_recordEach.2 (.inl hd))⟩
  · have hmem : c.members ∈ untried n s :=
      mem_untried.2 ⟨hp.2, fun d hd he => ht (eq_of_members_eq he ▸ hd)⟩
    rw [← heq, mem_untried] at hmem
    exact hmem.2 c (tried_recordEach.2 (.inr (hvs ▸ hc))) rfl

theorem driveFor_error {fuel : Nat} {e : BudgetExceeded} (h : s.next = (.error e, t)) :
    driveFor accepts (fuel + 1) s = ([.error e], t) := by
  simp only [driveFor, h]

theorem driveFor_empty {fuel : Nat} {r : Round} (h : s.next = (.ok r, t)) (hr : r.candidates = []) :
    driveFor accepts (fuel + 1) s = ([.ok r], t) := by
  simp [driveFor, h, Round.isEmpty, hr]

theorem driveFor_round {fuel : Nat} {r : Round} (h : s.next = (.ok r, t)) (hr : r.candidates ≠ []) :
    driveFor accepts (fuel + 1) s =
      (.ok r :: (driveFor accepts fuel (t.recordAll accepts r.candidates)).1,
        (driveFor accepts fuel (t.recordAll accepts r.candidates)).2) := by
  simp [driveFor, h, Round.isEmpty, hr]

/-- With fuel for every untried set, a driven search that stays within the limit completes. -/
theorem completes_driveFor {fuel : Nat} (h : Sound n s) (hfuel : (untried n s).card < fuel)
    (hlimit : ∀ e, .error e ∉ (driveFor accepts fuel s).1) :
    ∃ rs, (driveFor accepts fuel s).1 = rs.map .ok ∧
      Completes accepts s rs (driveFor accepts fuel s).2 := by
  induction fuel generalizing s with
  | zero => omega
  | succ fuel ih =>
    match hn : s.next with
    | (.error e, s') => simp [driveFor_error hn] at hlimit
    | (.ok r, s') =>
      by_cases he : r.candidates = []
      · rw [driveFor_empty hn he]
        exact ⟨[r], rfl, .stop hn he⟩
      · rw [driveFor_round hn he] at hlimit ⊢
        simp only [List.mem_cons, reduceCtorEq, false_or] at hlimit ⊢
        obtain ⟨rfl, rfl⟩ := next_ok (not_finished_of_next hn he) hn
        have hvs : (judged accepts (s.propose (s.round + 1))).map (·.1) = _ := map_judged
        have hlt := h.card_untried_lt hvs he
        rw [← recordAll_eq] at hlt
        obtain ⟨rs, hrs, hc⟩ := ih h.recordAll (by omega) hlimit
        exact ⟨⟨s.round + 1, s.propose (s.round + 1)⟩ :: rs, by simp [hrs], .round hn he hc⟩

theorem completes_drive (limit : Nat)
    (hlimit : ∀ e, .error e ∉ (drive accepts (start n limit)).1) :
    ∃ rs, (drive accepts (start n limit)).1 = rs.map .ok ∧
      Completes accepts (start n limit) rs (drive accepts (start n limit)).2 := by
  refine completes_driveFor (sound_start n limit) ?_ hlimit
  have h := card_untried_le (n := n) (s := start n limit)
  show _ < 2 ^ n + 2
  omega

end TreeQuery.Combination.Search
