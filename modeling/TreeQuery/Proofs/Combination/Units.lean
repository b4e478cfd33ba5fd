import TreeQuery.Proofs.Combination.Dialogue

/-!
# What the units of a search cover

From the third round on a combination that passes takes the place of the units that are part of it.
So units come and go, but together they always cover the occurrences that passed alone, and no unit
is part of what passed after it (`Dialogue.units_cover`).
-/

namespace TreeQuery.Combination.Dialogue

variable {n limit i k : Nat} {d : Dialogue} {s : Search} {c : Combination} {v w : Verdict}
  {vs : List Verdict} {active : List Combination}

/-- The second of two verdicts does not take away a unit that the first one made. -/
def Spares (active : List Combination) (v w : Verdict) : Prop :=
  v.passed = true → v.candidate ∈ active → w.passed = true → 3 ≤ w.round →
    ¬ v.candidate.members ⊆ w.candidate.members

structure Covers (active : List Combination) (vs : List Verdict) : Prop where
  granted : ∀ i, (∃ u ∈ active, i ∈ u) ↔ Granted vs i
  spared : vs.Pairwise (Spares active)

theorem covers_start : Covers [] [] where
  granted := by simp [Granted]
  spared := .nil

theorem granted_concat : Granted (vs ++ [v]) i ↔ Granted vs i ∨ v = ⟨1, singleton i, true⟩ := by
  simp [Granted, eq_comm]

theorem Covers.failed (h : Covers active vs) : Covers active (vs ++ [⟨k, c, false⟩]) where
  granted := by
    intro i
    simp [granted_concat, h.granted]
  spared := by
    refine List.pairwise_append.2 ⟨h.spared, List.pairwise_singleton _ _, ?_⟩
    intro v _ w hw _ _ hpassed
    rw [List.mem_singleton.1 hw] at hpassed
    cases hpassed

theorem Covers.passed (h : Covers s.active vs) (hc : Supported vs s.round c)
    (hnew : c ∉ vs.map (·.candidate)) :
    Covers (s.activeWith c) (vs ++ [⟨s.round, c, true⟩]) where
  granted := by
    intro i
    rw [Search.exists_mem_activeWith, h.granted, granted_concat, Verdict.mk.injEq]
    -- in the first round an occurrence comes in, later ones only put together what is covered
    rcases hc with ⟨h1, j, rfl⟩ | ⟨h2, hcomposed⟩
    · simp [h1, mem_singleton, singleton_inj, eq_comm]
    · have hone : s.round ≠ 1 := by omega
      simp only [hone, false_and, or_false, or_iff_left_iff_imp]
      exact fun hi => hcomposed.granted i hi.2
  spared := by
    have hother {v : Verdict} (hv : v ∈ vs) : v.candidate ≠ c :=
      fun he => hnew (List.mem_map.2 ⟨v, hv, he⟩)
    refine List.pairwise_append.2 ⟨?_, List.pairwise_singleton _ _, ?_⟩
    · refine h.spared.imp_of_mem fun hv _ hspares hpassed hactive => ?_
      exact hspares hpassed ((Search.mem_activeWith hactive).resolve_right (hother hv))
    · intro v hv w hw _ hactive _ h3
      rw [List.mem_singleton.1 hw] at h3 ⊢
      exact Search.not_subset_of_mem_activeWith h3 hactive (hother hv)

theorem Reachable.covers (h : Reachable n limit d) : Covers d.search.active d.verdicts := by
  induction h with
  | refl => exact covers_start
  | @tail d _ hreach hstep ih =>
    have hinv := Reachable.inv hreach
    cases hstep with
    | round _ hn | exceeded _ hn =>
      obtain ⟨number, finished, rfl⟩ := Search.exists_of_next hn
      exact ih
    | @verdict c cs passed hp =>
      have hc : c ∈ d.pending := by simp [hp]
      cases passed with
      | false => exact ih.failed
      | true =>
        rw [Search.record_passed]
        exact ih.passed (hinv.pending c hc) (hinv.not_judged hc)

/-- However the verdicts are given, all units have passed, an occurrence is in one of them just if
it passed alone, and no unit is part of a combination that passed after it in the third round or a
later one. -/
theorem units_cover (h : Reachable n limit d) :
    d.search.accepted = (d.verdicts.filter (·.passed)).map (·.candidate) ∧
    (∀ u ∈ d.search.active, u ∈ d.search.accepted) ∧
    (∀ i, (∃ u ∈ d.search.active, i ∈ u) ↔ ⟨1, singleton i, true⟩ ∈ d.verdicts) ∧
    d.verdicts.Pairwise fun v w => v.passed = true → v.candidate ∈ d.search.active →
      w.passed = true → 3 ≤ w.round → ¬ v.candidate.members ⊆ w.candidate.members :=
  ⟨h.inv.accepted, fun _ hu => h.inv.units.subset hu, h.covers.granted, h.covers.spared⟩

theorem units_cover_pairs :
    ∃ d, Reachable 3 9 d ∧ d.pending = [ofList [2, 3]] ∧
      d.search.active = [ofList [1, 2], ofList [1, 3]] ∧
      (∀ i, (∃ u ∈ d.search.active, i ∈ u) ↔ ⟨1, singleton i, true⟩ ∈ d.verdicts) ∧
      d.verdicts.Pairwise fun v w => v.passed = true → v.candidate ∈ d.search.active →
        w.passed = true → 3 ≤ w.round → ¬ v.candidate.members ⊆ w.candidate.members := by
  have hone : Reachable 3 9 _ := .single (.round rfl rfl)
  have halone : Reachable 3 9 _ :=
    ((hone.tail (.verdict true rfl)).tail (.verdict true rfl)).tail (.verdict true rfl)
  have htogether : Reachable 3 9 _ := (halone.tail (.round rfl rfl)).tail (.verdict false rfl)
  have hpairs : Reachable 3 9 _ :=
    ((htogether.tail (.round rfl rfl)).tail (.verdict true rfl)).tail (.verdict true rfl)
  obtain ⟨-, -, hgranted, hspared⟩ := units_cover hpairs
  exact ⟨_, hpairs, rfl, rfl, hgranted, hspared⟩

end TreeQuery.Combination.Dialogue
