import Mathlib.Logic.Function.Iterate
import TreeQuery.Proofs.Combination.Dialogue

/-!
# The loop around a search

A driver asks for rounds and tells its verdicts until a round is empty or above the limit.
`Loop.Run` counts the calls of such a loop, with any verdicts. No loop makes more calls than
`Loop.Bounded` says, since nothing is proposed twice and every round before the last one proposes
something; and what is over stays over.
-/

namespace TreeQuery.Combination

def Search.Closed (s : Search) : Prop :=
  ∀ k, ((fun s : Search => s.next.2)^[k] s).next = (.ok ⟨s.round, []⟩, s)

theorem Search.closed_of_finished {s : Search} (h : s.finished = true) : s.Closed := by
  intro k
  have hfixed : s.next.2 = s := by rw [Search.next_finished h]
  rw [Function.iterate_fixed hfixed, Search.next_finished h]

inductive Stop where
  | empty
  | exceeded (e : BudgetExceeded)
deriving DecidableEq

/-- A dialogue whose driver goes on until something stops it. -/
structure Loop where
  dialogue : Dialogue
  stopped : Option Stop

namespace Loop

open Search (Proposable)

inductive Step : Loop → Loop → Prop
  | round {d : Dialogue} {r : Round} {s : Search} : d.pending = [] → d.search.next = (.ok r, s) →
      r.candidates ≠ [] →
      Step ⟨d, none⟩
        ⟨{ d with search := s, pending := r.candidates, rounds := d.rounds ++ [r] }, none⟩
  | empty {d : Dialogue} {r : Round} {s : Search} : d.pending = [] → d.search.next = (.ok r, s) →
      r.candidates = [] →
      Step ⟨d, none⟩
        ⟨{ d with search := s, pending := r.candidates, rounds := d.rounds ++ [r] }, some .empty⟩
  | exceeded {d : Dialogue} {e : BudgetExceeded} {s : Search} : d.pending = [] →
      d.search.next = (.error e, s) → Step ⟨d, none⟩ ⟨{ d with search := s }, some (.exceeded e)⟩
  | verdict {d : Dialogue} {c : Combination} {cs : List Combination} (passed : Bool) :
      d.pending = c :: cs →
      Step ⟨d, none⟩
        ⟨{ d with search := d.search.record c passed, pending := cs,
                  verdicts := d.verdicts ++ [⟨d.search.round, c, passed⟩] }, none⟩

inductive Run (n limit : Nat) : Nat → Loop → Prop
  | start : Run n limit 0 ⟨.start n limit, none⟩
  | call {k : Nat} {l l' : Loop} : Run n limit k l → Step l l' → Run n limit (k + 1) l'

variable {n limit k : Nat} {l l' : Loop} {d : Dialogue} {c : Combination}

theorem Step.dialogue (h : Step l l') : Dialogue.Step l.dialogue l'.dialogue := by
  cases h with
  | round hp hn | empty hp hn => exact .round hp hn
  | exceeded hp hn => exact .exceeded hp hn
  | verdict passed hp => exact .verdict passed hp

theorem Run.reachable (h : Run n limit k l) : Dialogue.Reachable n limit l.dialogue := by
  induction h with
  | start => exact .refl
  | call _ hstep ih => exact ih.tail hstep.dialogue

theorem exists_step (h : l.stopped = none) : ∃ l', Step l l' := by
  obtain ⟨d, stopped⟩ := l
  subst h
  cases hp : d.pending with
  | cons c cs => exact ⟨_, .verdict true hp⟩
  | nil =>
    rcases hn : d.search.next with ⟨e | r, s⟩
    · exact ⟨_, .exceeded hp hn⟩
    · by_cases hr : r.candidates = []
      · exact ⟨_, .empty hp hn hr⟩
      · exact ⟨_, .round hp hn hr⟩

-- ---------------------------------------------------------------------------
-- The number of calls
-- ---------------------------------------------------------------------------

/-- There are no more candidates than non-empty sets of occurrence numbers. -/
theorem length_proposed_le (h : Dialogue.Inv n d) : d.proposed.length ≤ 2 ^ n - 1 := by
  have hsub : (d.proposed.map members).toFinset ⊆ (Finset.Icc 1 n).powerset.erase ∅ := by
    intro F hF
    obtain ⟨c, hc, rfl⟩ := List.mem_map.1 (List.mem_toFinset.1 hF)
    obtain ⟨hne, hsub⟩ := h.proposable c hc
    exact Finset.mem_erase.2 ⟨hne.ne_empty, Finset.mem_powerset.2 hsub⟩
  have hnodup : (d.proposed.map members).Nodup := h.nodup.map fun _ _ => eq_of_members_eq
  calc d.proposed.length = (d.proposed.map members).toFinset.card := by
        rw [List.toFinset_card_of_nodup hnodup, List.length_map]
    _ ≤ ((Finset.Icc 1 n).powerset.erase ∅).card := Finset.card_le_card hsub
    _ = 2 ^ n - 1 := by simp [Finset.card_erase_of_mem]

theorem length_verdicts_le (h : Dialogue.Inv n d) : d.verdicts.length ≤ d.proposed.length := by
  rw [h.proposed, List.length_append, List.length_map]
  exact Nat.le_add_right _ _

/-- Every call but the last proposes something new or gives a verdict. -/
theorem Run.calls_le (h : Run n limit k l) :
    k ≤ l.dialogue.proposed.length + l.dialogue.verdicts.length +
      (if l.stopped = none then 0 else 1) := by
  induction h with
  | start => exact Nat.zero_le _
  | call _ hstep ih =>
    cases hstep with
    | @round d r s hp hn hr =>
      have := List.length_pos_iff.2 hr
      simp [Dialogue.proposed] at ih ⊢
      omega
    | empty hp hn hr | exceeded hp hn =>
      simp [Dialogue.proposed] at ih ⊢
      omega
    | verdict passed hp =>
      simp [Dialogue.proposed] at ih ⊢
      omega

theorem Run.calls_lt (h : Run n limit k l) : k < 2 ^ (n + 1) := by
  have hinv := h.reachable.inv
  have hproposed := length_proposed_le hinv
  have hverdicts := length_verdicts_le hinv
  have hcalls := h.calls_le
  have hpos : 0 < 2 ^ n := Nat.two_pow_pos n
  rw [Nat.pow_succ]
  split at hcalls <;> omega

-- ---------------------------------------------------------------------------
-- How a loop comes to its end
-- ---------------------------------------------------------------------------

structure Live (d : Dialogue) : Prop where
  merged : d.search.finished = true ↔ ∃ c, ⟨2, c, true⟩ ∈ d.verdicts
  settled : d.search.finished = true → d.search.round = 2 ∧ d.pending = []
  merging : d.search.round = 2 → d.pending.length ≤ 1
  current : ∀ r, d.rounds.getLast? = some r → r.number = d.search.round ∧ d.pending ⊆ r.candidates ∧
    ∀ v ∈ d.verdicts, v.round = d.search.round → v.candidate ∈ r.candidates
  /-- As long as a round passes nothing, its candidates are all that the units have to offer. -/
  known : 3 ≤ d.search.round → (∀ c, ⟨d.search.round, c, true⟩ ∉ d.verdicts) →
    ∀ c ∈ Search.unions d.search.active, d.search.Tried c ∨ c ∈ d.pending

theorem live_start : Live (.start n limit) where
  merged := by simp [Dialogue.start, Search.start]
  settled h := by simp [Dialogue.start, Search.start] at h
  merging _ := Nat.zero_le _
  current r hr := by simp [Dialogue.start] at hr
  known h := by simp [Dialogue.start, Search.start] at h

theorem length_merge_le (s : Search) : s.merge.length ≤ 1 := by
  unfold Search.merge
  dsimp only
  split
  · exact Nat.zero_le _
  · split
    · exact Nat.zero_le _
    · exact Nat.le_refl _

theorem Live.round (hinv : Dialogue.Inv n d) (h : Live d) {r : Round} {s : Search}
    (hn : d.search.next = (.ok r, s)) (hr : r.candidates ≠ []) :
    Live { d with search := s, pending := r.candidates, rounds := d.rounds ++ [r] } := by
  have hf := Search.not_finished_of_next hn hr
  obtain ⟨rfl, rfl⟩ := Search.next_ok hf hn
  have hopen : (d.search.propose (d.search.round + 1)).isEmpty = false := by simpa using hr
  have hmerged : ¬ ∃ c, ⟨2, c, true⟩ ∈ d.verdicts := by
    rw [← h.merged, hf]
    exact Bool.false_ne_true
  constructor
  case merged => simp only [Search.advance, hopen, Bool.false_eq_true, hmerged]
  case settled => simp [Search.advance, hopen]
  case merging =>
    intro (h2 : d.search.round + 1 = 2)
    show (d.search.propose (d.search.round + 1)).length ≤ 1
    rw [h2]
    exact length_merge_le d.search
  case current =>
    intro r hr
    obtain rfl : _ = r := by simpa using hr
    refine ⟨rfl, List.Subset.refl _, fun v hv hround => ?_⟩
    have hround : v.round = d.search.round + 1 := hround
    have := hinv.numbers v hv
    omega
  case known =>
    intro (h3 : 3 ≤ d.search.round + 1) _ c hc
    by_cases ht : d.search.Tried c
    · exact .inl ht
    · exact .inr ((Search.mem_propose_later h3).2 ⟨hc, ht⟩)

theorem Live.verdict (h : Live d) {cs : List Combination}
    (hp : d.pending = c :: cs) (passed : Bool) :
    Live { d with search := d.search.record c passed, pending := cs,
                  verdicts := d.verdicts ++ [⟨d.search.round, c, passed⟩] } := by
  have hf : d.search.finished = false := by
    by_contra hf
    simpa [hp] using (h.settled (by simpa using hf)).2
  have hmerged : ¬ ∃ c, ⟨2, c, true⟩ ∈ d.verdicts := by
    rw [← h.merged, hf]
    exact Bool.false_ne_true
  have hlast : d.search.round = 2 → cs = [] := by
    intro h2
    have := h.merging h2
    simpa [hp] using this
  have hfinished : (d.search.record c passed).finished = true ↔
      d.search.round = 2 ∧ passed = true := by
    cases passed <;> simp [Search.record_failed, Search.record_passed, hf]
  constructor
  case merged =>
    rw [hfinished]
    constructor
    · rintro ⟨h2, rfl⟩
      exact ⟨c, by simp [h2]⟩
    · rintro ⟨e, he⟩
      rcases List.mem_append.1 he with he | he
      · exact absurd ⟨e, he⟩ hmerged
      · rw [List.mem_singleton, Verdict.mk.injEq] at he
        exact ⟨he.1.symm, he.2.2.symm⟩
  case settled =>
    intro hfin
    have h2 := (hfinished.1 hfin).1
    exact ⟨Search.record_round.trans h2, hlast h2⟩
  case merging =>
    intro h2
    rw [Search.record_round] at h2
    simp [hlast h2]
  case current =>
    intro r hr
    obtain ⟨hnumber, hpending, hverdicts⟩ := h.current r hr
    rw [hp] at hpending
    rw [Search.record_round]
    refine ⟨hnumber, (List.cons_subset.1 hpending).2, fun v hv hround => ?_⟩
    rcases List.mem_append.1 hv with hv | hv
    · exact hverdicts v hv hround
    · rw [List.mem_singleton.1 hv]
      exact (List.cons_subset.1 hpending).1
  case known =>
    rw [Search.record_round]
    intro h3 hnone e he
    cases passed with
    | true => exact absurd (List.mem_append_right _ (List.mem_singleton.2 rfl)) (hnone c)
    | false =>
      have hnone' : ∀ c, ⟨d.search.round, c, true⟩ ∉ d.verdicts :=
        fun c hc => hnone c (List.mem_append_left _ hc)
      rcases h.known h3 hnone' e he with ht | hpend
      · exact .inl (ht.imp_right fun ht => Search.mem_insertRejected.2 (.inr ht))
      · rcases List.mem_cons.1 (hp ▸ hpend) with rfl | hpend
        · exact .inl (.inr (Search.mem_insertRejected.2 (.inl rfl)))
        · exact .inr hpend

theorem Run.live (h : Run n limit k l) : l.stopped = none → Live l.dialogue := by
  induction h with
  | start => exact fun _ => live_start
  | call hrun hstep ih =>
    intro hgoing
    cases hstep with
    | round hp hn hr => exact (ih rfl).round hrun.reachable.inv hn hr
    | empty | exceeded => cases hgoing
    | verdict passed hp => exact (ih rfl).verdict hp passed

theorem Live.next_empty (h : Live d) (h3 : 3 ≤ d.search.round) (hp : d.pending = [])
    (hnone : ∀ c, ⟨d.search.round, c, true⟩ ∉ d.verdicts) :
    ∃ s, d.search.next = (.ok ⟨d.search.round + 1, []⟩, s) := by
  have hf : d.search.finished = false := by
    by_contra hf
    have := (h.settled (by simpa using hf)).1
    omega
  have hpropose : d.search.propose (d.search.round + 1) = [] := by
    refine List.eq_nil_iff_forall_not_mem.2 fun c hc => ?_
    obtain ⟨hunion, hfresh⟩ := (Search.mem_propose_later (by omega)).1 hc
    rcases h.known h3 hnone c hunion with ht | hpend
    · exact hfresh ht
    · simp [hp] at hpend
  have hn := Search.next_proposed hf (by simp [hpropose])
  rw [hpropose] at hn
  exact ⟨_, hn⟩

/-- A round from the third on that is rejected as a whole is followed by an empty one. -/
theorem Live.next_empty_of_rejected (hinv : Dialogue.Inv n d) (h : Live d) {r : Round}
    (hr : d.rounds.getLast? = some r) (h3 : 3 ≤ r.number)
    (hrejected : ∀ c ∈ r.candidates, ⟨r.number, c, false⟩ ∈ d.verdicts) :
    ∃ s, d.search.next = (.ok ⟨r.number + 1, []⟩, s) := by
  obtain ⟨hnumber, hpending, hverdicts⟩ := h.current r hr
  rw [hnumber] at h3 hrejected ⊢
  have hp : d.pending = [] := List.eq_nil_iff_forall_not_mem.2 fun c hc =>
    hinv.not_judged hc (List.mem_map_of_mem (hrejected c (hpending hc)))
  refine h.next_empty h3 hp fun c hc => ?_
  have hmem := hrejected c (hverdicts _ hc rfl)
  cases List.inj_on_of_nodup_map hinv.nodup_verdicts hc hmem rfl

theorem Live.closed (h : Live d) (hc : ⟨2, c, true⟩ ∈ d.verdicts) :
    d.pending = [] ∧ d.search.Closed := by
  have hf := h.merged.2 ⟨c, hc⟩
  exact ⟨(h.settled hf).2, Search.closed_of_finished hf⟩

theorem Run.closed (h : Run n limit k l) (hstop : l.stopped ≠ none) :
    l.dialogue.pending = [] ∧ l.dialogue.search.Closed := by
  cases h with
  | start => exact absurd rfl hstop
  | call hrun hstep =>
    cases hstep with
    | round | verdict => exact absurd rfl hstop
    | @empty d r s hp hn hr =>
      refine ⟨hr, Search.closed_of_finished ?_⟩
      cases hf : d.search.finished with
      | true =>
        rw [Search.next_finished hf] at hn
        exact (Prod.mk.inj hn).2 ▸ hf
      | false =>
        obtain ⟨rfl, rfl⟩ := Search.next_ok hf hn
        simpa [Search.advance] using hr
    | exceeded hp hn =>
      refine ⟨hp, Search.closed_of_finished ?_⟩
      rw [Search.next_error hn]

/-- How a loop ends: within `2 ^ (n + 1)` calls, with at most `2 ^ n - 1` candidates, right after a
round from the third on that is rejected as a whole, and for good. -/
structure Bounded (n k : Nat) (l : Loop) : Prop where
  calls : k < 2 ^ (n + 1)
  goes_on : l.stopped = none → ∃ l', Step l l'
  candidates : l.dialogue.proposed.length ≤ 2 ^ n - 1
  rejected : l.stopped = none → ∀ r, l.dialogue.rounds.getLast? = some r → 3 ≤ r.number →
    (∀ c ∈ r.candidates, ⟨r.number, c, false⟩ ∈ l.dialogue.verdicts) →
    ∃ s, l.dialogue.search.next = (.ok ⟨r.number + 1, []⟩, s)
  merged : ∀ c, ⟨2, c, true⟩ ∈ l.dialogue.verdicts →
    l.dialogue.pending = [] ∧ l.dialogue.search.Closed
  stopped : l.stopped ≠ none → l.dialogue.pending = [] ∧ l.dialogue.search.Closed

theorem Run.bounded (h : Run n limit k l) : Bounded n k l where
  calls := h.calls_lt
  goes_on := exists_step
  candidates := length_proposed_le h.reachable.inv
  rejected hgoing _ hr h3 hrejected :=
    (h.live hgoing).next_empty_of_rejected h.reachable.inv hr h3 hrejected
  merged c hc := by
    by_cases hstop : l.stopped = none
    · exact (h.live hstop).closed hc
    · exact h.closed hstop
  stopped := h.closed

end Loop

end TreeQuery.Combination
