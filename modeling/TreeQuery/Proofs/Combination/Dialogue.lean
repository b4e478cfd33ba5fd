import Mathlib.Logic.Relation
import TreeQuery.Proofs.Combination.Run

/-!
# A search call by call

Whoever drives a search asks for a round, tells the verdicts on its candidates one by one, and asks
again. The verdicts may be any, and need not agree with each other. `Dialogue.Reachable` are the
situations that arise in this way, the middle of a round included.

What every call keeps is `Dialogue.Inv`. It follows that nothing is ever proposed twice, and that
from the second round on only what passed before is put together (`Dialogue.proposals_fresh`).
-/

namespace TreeQuery.Combination

open Search (Proposable Sound)

structure Verdict where
  round : Nat
  candidate : Combination
  passed : Bool
deriving DecidableEq

/-- A search in the hands of somebody who records all that is said. -/
structure Dialogue where
  search : Search
  pending : List Combination
  rounds : List Round
  verdicts : List Verdict

namespace Dialogue

def start (n limit : Nat) : Dialogue := ⟨.start n limit, [], [], []⟩

def proposed (d : Dialogue) : List Combination := d.rounds.flatMap (·.candidates)

/-- One call. The next round is asked for when no candidate waits, and the verdicts come in the
order of the candidates. -/
inductive Step : Dialogue → Dialogue → Prop
  | round {d : Dialogue} {r : Round} {s : Search} : d.pending = [] → d.search.next = (.ok r, s) →
      Step d { d with search := s, pending := r.candidates, rounds := d.rounds ++ [r] }
  | exceeded {d : Dialogue} {e : BudgetExceeded} {s : Search} : d.pending = [] →
      d.search.next = (.error e, s) → Step d { d with search := s }
  | verdict {d : Dialogue} {c : Combination} {cs : List Combination} (passed : Bool) :
      d.pending = c :: cs →
      Step d { d with search := d.search.record c passed, pending := cs,
                      verdicts := d.verdicts ++ [⟨d.search.round, c, passed⟩] }

def Reachable (n limit : Nat) (d : Dialogue) : Prop := Relation.ReflTransGen Step (start n limit) d

variable {n limit i k : Nat} {d d' : Dialogue} {s : Search} {c : Combination}
  {vs vs' : List Verdict} {v : Verdict}

-- ---------------------------------------------------------------------------
-- What a candidate rests on
-- ---------------------------------------------------------------------------

/-- The occurrence passed alone, in the first round. -/
def Granted (vs : List Verdict) (i : Nat) : Prop := ⟨1, singleton i, true⟩ ∈ vs

/-- The candidate is put together from at least two combinations that passed in earlier rounds, and
each of its occurrences passed alone. -/
structure Composed (vs : List Verdict) (round : Nat) (c : Combination) : Prop where
  granted : ∀ i, i ∈ c → Granted vs i
  parts : ∃ fs : List Combination, 2 ≤ fs.length ∧ fs.Nodup ∧
    (∀ f ∈ fs, ∃ k, k < round ∧ ⟨k, f, true⟩ ∈ vs) ∧ c = fs.foldl union empty

/-- What a candidate of a round rests on. In the first round every candidate is one occurrence. -/
def Supported (vs : List Verdict) (round : Nat) (c : Combination) : Prop :=
  (round = 1 ∧ ∃ i, c = singleton i) ∨ (2 ≤ round ∧ Composed vs round c)

theorem Composed.mono (h : Composed vs k c) (hsub : vs ⊆ vs') : Composed vs' k c := by
  obtain ⟨fs, hlen, hnodup, hfs, hc⟩ := h.parts
  refine ⟨fun i hi => hsub (h.granted i hi), fs, hlen, hnodup, fun f hf => ?_, hc⟩
  obtain ⟨k, hk, hv⟩ := hfs f hf
  exact ⟨k, hk, hsub hv⟩

theorem Supported.mono (h : Supported vs k c) (hsub : vs ⊆ vs') : Supported vs' k c :=
  h.imp_right fun h => ⟨h.1, h.2.mono hsub⟩

theorem Supported.granted (h : Supported vs k c) (hc : ⟨k, c, true⟩ ∈ vs') (hsub : vs ⊆ vs')
    (hi : i ∈ c) : Granted vs' i := by
  rcases h with ⟨rfl, j, rfl⟩ | ⟨-, h⟩
  · obtain rfl : i = j := by simpa using mem_members.2 hi
    exact hc
  · exact hsub (h.granted i hi)

-- ---------------------------------------------------------------------------
-- What every call keeps
-- ---------------------------------------------------------------------------

structure Inv (n : Nat) (d : Dialogue) : Prop where
  sound : Sound n d.search
  untouched : d.search.round = 0 → d.proposed = []
  proposed : d.proposed = d.verdicts.map (·.candidate) ++ d.pending
  nodup : d.proposed.Nodup
  accepted : d.search.accepted = (d.verdicts.filter (·.passed)).map (·.candidate)
  rejected : ∀ c, c ∈ d.search.rejected ↔ ∃ k, ⟨k, c, false⟩ ∈ d.verdicts
  units : d.search.active.Sublist d.search.accepted
  numbers : ∀ v ∈ d.verdicts, v.round ≤ d.search.round
  proposable : ∀ c ∈ d.proposed, Proposable n c
  supported : ∀ r ∈ d.rounds, ∀ c ∈ r.candidates, Supported d.verdicts r.number c
  pending : ∀ c ∈ d.pending, Supported d.verdicts d.search.round c
  granted : ∀ c ∈ d.search.accepted, ∀ i, i ∈ c → Granted d.verdicts i

theorem inv_start : Inv n (start n limit) where
  sound := Search.sound_start n limit
  untouched _ := rfl
  proposed := rfl
  nodup := .nil
  accepted := rfl
  rejected c := by simp [start, Search.start]
  units := List.Sublist.refl _
  numbers := nofun
  proposable := nofun
  supported := nofun
  pending := nofun
  granted := nofun

theorem Inv.mem_accepted (h : Inv n d) :
    c ∈ d.search.accepted ↔ ∃ k, ⟨k, c, true⟩ ∈ d.verdicts := by
  rw [h.accepted]
  constructor
  · intro hc
    obtain ⟨⟨k, c', b⟩, hv, rfl⟩ := List.mem_map.1 hc
    obtain ⟨hv, rfl⟩ : _ ∧ b = true := List.mem_filter.1 hv
    exact ⟨k, hv⟩
  · rintro ⟨k, hv⟩
    exact List.mem_map.2 ⟨_, List.mem_filter.2 ⟨hv, rfl⟩, rfl⟩

theorem Inv.nodup_verdicts (h : Inv n d) : (d.verdicts.map (·.candidate)).Nodup := by
  have hnodup := h.nodup
  rw [h.proposed] at hnodup
  exact hnodup.of_append_left

theorem Inv.not_judged (h : Inv n d) (hc : c ∈ d.pending) : c ∉ d.verdicts.map (·.candidate) := by
  have hnodup := h.nodup
  rw [h.proposed] at hnodup
  exact fun hv => List.disjoint_of_nodup_append hnodup hv hc

theorem Inv.nodup_accepted (h : Inv n d) : d.search.accepted.Nodup := by
  rw [h.accepted]
  exact h.nodup_verdicts.sublist (List.filter_sublist.map _)

theorem Inv.disjoint (h : Inv n d) (hc : c ∈ d.search.accepted) : c ∉ d.search.rejected := by
  intro hr
  obtain ⟨k, hp⟩ := h.mem_accepted.1 hc
  obtain ⟨l, hf⟩ := (h.rejected c).1 hr
  cases List.inj_on_of_nodup_map h.nodup_verdicts hp hf rfl

theorem Inv.tried_of_proposed (h : Inv n d) (hp : d.pending = []) (hc : c ∈ d.proposed) :
    d.search.Tried c := by
  rw [h.proposed, hp, List.append_nil] at hc
  obtain ⟨⟨k, c', b⟩, hv, rfl⟩ := List.mem_map.1 hc
  cases b with
  | true => exact .inl (h.mem_accepted.2 ⟨k, hv⟩)
  | false => exact .inr ((h.rejected _).2 ⟨k, hv⟩)

theorem Inv.numbered (h : Inv n d) (hc : c ∈ d.search.accepted) :
    ∃ k, k < d.search.round + 1 ∧ ⟨k, c, true⟩ ∈ d.verdicts := by
  obtain ⟨k, hv⟩ := h.mem_accepted.1 hc
  exact ⟨k, Nat.lt_succ_of_le (h.numbers _ hv), hv⟩

-- ---------------------------------------------------------------------------
-- The next round
-- ---------------------------------------------------------------------------

theorem foldl_union_pair (a b : Combination) : [a, b].foldl union empty = a.union b := by
  refine eq_of_members_eq ?_
  ext i
  simp

theorem Inv.supported_propose (h : Inv n d) (hc : c ∈ d.search.propose (d.search.round + 1)) :
    Supported d.verdicts (d.search.round + 1) c := by
  have hnodup := h.nodup_accepted.sublist h.units
  have hpart {f : Combination} (hf : f ∈ d.search.active) := h.numbered (h.units.subset hf)
  have hgranted {f : Combination} (hf : f ∈ d.search.active) := h.granted f (h.units.subset hf)
  by_cases h3 : 3 ≤ d.search.round + 1
  · obtain ⟨a, b, hab, rfl⟩ :=
      Search.exists_sublist_of_mem_unions ((Search.mem_propose_later h3).1 hc).1
    have hmem : ∀ f ∈ [a, b], f ∈ d.search.active := fun f hf => hab.subset hf
    refine .inr ⟨by omega, fun i hi => ?_, [a, b], Nat.le_refl 2, hnodup.sublist hab,
      fun f hf => hpart (hmem f hf), (foldl_union_pair a b).symm⟩
    rcases mem_union.1 hi with hi | hi
    · exact hgranted (hmem a (by simp)) i hi
    · exact hgranted (hmem b (by simp)) i hi
  · obtain h0 | h1 : d.search.round = 0 ∨ d.search.round = 1 := by omega
    · rw [h0] at hc ⊢
      obtain ⟨i, -, -, rfl⟩ := Search.mem_singletons.1 hc
      exact .inl ⟨rfl, i, rfl⟩
    · have hmerge : c ∈ d.search.merge := by
        rw [h1] at hc
        exact hc
      obtain ⟨hlen, rfl, -⟩ := Search.mem_merge.1 hmerge
      refine .inr ⟨by omega, fun i hi => ?_, d.search.active, hlen, hnodup, fun f hf => hpart hf,
        rfl⟩
      rcases mem_foldl_union.1 hi with hi | ⟨f, hf, hi⟩
      · cases hi
      · exact hgranted hf i hi

theorem Inv.ask (h : Inv n d) (hp : d.pending = []) (number : Nat) (finished : Bool)
    (rs : List Round) (hnumber : d.search.round ≤ number) (hrs : ∀ r ∈ rs, r.number = number)
    (hnodup : (rs.flatMap (·.candidates)).Nodup)
    (hcs : ∀ c ∈ rs.flatMap (·.candidates), 1 ≤ number ∧ Proposable n c ∧ ¬ d.search.Tried c ∧
      Supported d.verdicts number c) :
    Inv n { d with search := { d.search with round := number, finished := finished }
                   pending := rs.flatMap (·.candidates), rounds := d.rounds ++ rs } := by
  have hold : d.proposed = d.verdicts.map (·.candidate) := by
    rw [h.proposed, hp, List.append_nil]
  have hzero : number = 0 → d.search.round = 0 := by omega
  constructor
  case sound =>
    exact ⟨h.sound.occurrences, h.sound.tried, h.sound.units,
      fun h0 => h.sound.untouched (hzero h0)⟩
  case untouched =>
    intro (h0 : number = 0)
    have hnone : rs.flatMap (·.candidates) = [] :=
      List.eq_nil_iff_forall_not_mem.2 fun c hc => absurd (hcs c hc).1 (by omega)
    rw [Dialogue.proposed, List.flatMap_append, hnone, List.append_nil]
    exact h.untouched (hzero h0)
  case proposed => simpa [Dialogue.proposed] using hold
  case nodup =>
    rw [Dialogue.proposed, List.flatMap_append]
    refine List.nodup_append'.2 ⟨h.nodup, hnodup, fun c hc hc' => ?_⟩
    exact (hcs c hc').2.2.1 (h.tried_of_proposed hp hc)
  case accepted => exact h.accepted
  case rejected => exact h.rejected
  case units => exact h.units
  case numbers => exact fun v hv => (h.numbers v hv).trans hnumber
  case proposable =>
    intro c hc
    rw [Dialogue.proposed, List.flatMap_append, List.mem_append] at hc
    exact hc.elim (h.proposable c) fun hc => (hcs c hc).2.1
  case supported =>
    intro r hr c hc
    rcases List.mem_append.1 hr with hr | hr
    · exact h.supported r hr c hc
    · rw [hrs r hr]
      exact (hcs c (List.mem_flatMap.2 ⟨r, hr, hc⟩)).2.2.2
  case pending => exact fun c hc => (hcs c hc).2.2.2
  case granted => exact h.granted

theorem Inv.round (h : Inv n d) (hp : d.pending = []) {r : Round}
    (hn : d.search.next = (.ok r, s)) :
    Inv n { d with search := s, pending := r.candidates, rounds := d.rounds ++ [r] } := by
  cases hf : d.search.finished with
  | true =>
    -- a finished search answers with an empty round and stays as it is
    rw [Search.next_finished hf, Prod.mk.injEq, Except.ok.injEq] at hn
    obtain ⟨rfl, rfl⟩ := hn
    exact h.ask hp _ _ [⟨d.search.round, []⟩] (Nat.le_refl _) (by simp) .nil nofun
  | false =>
    obtain ⟨rfl, rfl⟩ := Search.next_ok hf hn
    have hnext := h.ask hp _ (d.search.propose (d.search.round + 1)).isEmpty
      [⟨d.search.round + 1, d.search.propose (d.search.round + 1)⟩] (Nat.le_succ _) (by simp)
    simp only [List.flatMap_singleton] at hnext
    refine hnext (Search.nodup_propose _) fun c hc => ?_
    exact ⟨Nat.succ_pos _, (h.sound.propose hc).1, (h.sound.propose hc).2, h.supported_propose hc⟩

theorem Inv.exceeded (h : Inv n d) (hp : d.pending = []) {e : BudgetExceeded}
    (hn : d.search.next = (.error e, s)) : Inv n { d with search := s } := by
  have hs := Search.next_error hn
  have hnext := h.ask hp (d.search.round + 1) true [] (Nat.le_succ _) nofun .nil nofun
  simpa [hs, hp] using hnext

-- ---------------------------------------------------------------------------
-- The next verdict
-- ---------------------------------------------------------------------------

theorem sublist_record (passed : Bool) (h : s.active.Sublist s.accepted) :
    (s.record c passed).active.Sublist (s.record c passed).accepted := by
  cases passed with
  | false => exact h
  | true =>
    rw [Search.record_passed]
    show (s.activeWith c).Sublist (s.accepted ++ [c])
    unfold Search.activeWith
    split
    · exact h.append (List.Sublist.refl _)
    · exact h.trans (List.sublist_append_left _ _)
    · exact (List.filter_sublist.trans h).append (List.Sublist.refl _)

theorem sound_record (passed : Bool) (h : Sound n s) (hc : Proposable n c) (hr : s.round ≠ 0)
    (hu : s.active.Sublist s.accepted) : Sound n (s.record c passed) where
  occurrences := by rw [Search.record_occurrences, h.occurrences]
  tried e he := by
    have he : (s.recordEach [(c, passed)]).Tried e := he
    rcases Search.tried_recordEach.1 he with he | he
    · exact h.tried e he
    · rwa [List.mem_singleton.1 he]
  units u hm := (sublist_record passed hu).subset hm
  untouched h0 := absurd (Search.record_round ▸ h0) hr

theorem Inv.verdict (h : Inv n d) (passed : Bool) {cs : List Combination}
    (hp : d.pending = c :: cs) :
    Inv n { d with search := d.search.record c passed, pending := cs,
                   verdicts := d.verdicts ++ [⟨d.search.round, c, passed⟩] } := by
  have hsub : d.verdicts ⊆ d.verdicts ++ [⟨d.search.round, c, passed⟩] :=
    List.subset_append_left _ _
  have hmem : c ∈ d.proposed := by
    rw [h.proposed, hp]
    simp
  have hround : d.search.round ≠ 0 := fun h0 => by
    rw [h.untouched h0] at hmem
    cases hmem
  constructor
  case sound => exact sound_record passed h.sound (h.proposable c hmem) hround h.units
  case untouched =>
    intro h0
    exact absurd (Search.record_round ▸ h0) hround
  case proposed =>
    have hproposed := h.proposed
    rw [hp] at hproposed
    simpa [Dialogue.proposed] using hproposed
  case nodup => exact h.nodup
  case accepted => cases passed <;> simp [Search.record_failed, Search.record_passed, h.accepted]
  case rejected =>
    intro e
    cases passed with
    | false =>
      simp only [Search.record_failed, Search.mem_insertRejected, h.rejected, List.mem_append,
        List.mem_singleton, Verdict.mk.injEq, and_true, exists_or, exists_eq_left]
      exact or_comm
    | true => simp [Search.record_passed, h.rejected]
  case units => exact sublist_record passed h.units
  case numbers =>
    intro v hv
    rw [Search.record_round]
    rcases List.mem_append.1 hv with hv | hv
    · exact h.numbers v hv
    · rw [List.mem_singleton.1 hv]
  case proposable => exact h.proposable
  case supported => exact fun r hr e he => (h.supported r hr e he).mono hsub
  case pending =>
    intro e he
    rw [Search.record_round]
    exact (h.pending e (hp ▸ List.mem_cons_of_mem c he)).mono hsub
  case granted =>
    intro e he i hi
    cases passed with
    | false => exact hsub (h.granted e he i hi)
    | true =>
      rw [Search.record_passed] at he
      rcases List.mem_append.1 he with he | he
      · exact hsub (h.granted e he i hi)
      · obtain rfl := List.mem_singleton.1 he
        exact (h.pending e (hp ▸ List.mem_cons_self)).granted (by simp) hsub hi

theorem Inv.step (h : Inv n d) (hstep : Step d d') : Inv n d' := by
  cases hstep with
  | round hp hn => exact h.round hp hn
  | exceeded hp hn => exact h.exceeded hp hn
  | verdict passed hp => exact h.verdict passed hp

theorem Reachable.inv (h : Reachable n limit d) : Inv n d := by
  induction h with
  | refl => exact inv_start
  | tail _ hstep ih => exact ih.step hstep

/-- However the verdicts are given: no combination is proposed twice, what passed is listed once and
is not among what failed, only non-empty sets of occurrence numbers are proposed, and from the
second round on every candidate is put together from what passed before, of occurrences that passed
alone. -/
theorem proposals_fresh (h : Reachable n limit d) :
    (d.rounds.flatMap (·.candidates)).Nodup ∧
    d.search.accepted.Nodup ∧ (∀ c ∈ d.search.accepted, c ∉ d.search.rejected) ∧
    (∀ r ∈ d.rounds, ∀ c ∈ r.candidates, Proposable n c) ∧
    ∀ r ∈ d.rounds, 2 ≤ r.number → ∀ c ∈ r.candidates, Composed d.verdicts r.number c := by
  have hinv := h.inv
  refine ⟨hinv.nodup, hinv.nodup_accepted, fun c hc => hinv.disjoint hc, fun r hr c hc => ?_,
    fun r hr hnumber c hc => ?_⟩
  · exact hinv.proposable c (List.mem_flatMap.2 ⟨r, hr, hc⟩)
  · rcases hinv.supported r hr c hc with ⟨hone, -⟩ | ⟨-, h⟩
    · omega
    · exact h

theorem proposals_fresh_merge :
    ∃ d, Reachable 2 9 d ∧ d.pending = [ofList [1, 2]] ∧ (d.rounds.flatMap (·.candidates)).Nodup ∧
      Composed d.verdicts 2 (ofList [1, 2]) := by
  have hone : Reachable 2 9 _ := .single (.round rfl rfl)
  have htold : Reachable 2 9 _ := (hone.tail (.verdict true rfl)).tail (.verdict true rfl)
  have htwo : Reachable 2 9 _ := htold.tail (.round rfl rfl)
  have h := proposals_fresh htwo
  exact ⟨_, htwo, rfl, h.1,
    h.2.2.2.2 ⟨2, [ofList [1, 2]]⟩ (by decide) (Nat.le_refl 2) _ (by decide)⟩

end Dialogue

end TreeQuery.Combination
