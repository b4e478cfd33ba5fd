import TreeQuery.Proofs.Combination.Best
import TreeQuery.Proofs.Combination.Run

/-!
# A search finds a largest accepted combination

Where every part of an accepted combination is accepted, a search that stays within its limit
ends with an accepted combination of greatest size (`drive_best`).

The reason is `Level`: at the end of a round there is a size `k` such that everything accepted of
at most that size has passed and what has exactly that size is a unit, whatever other units were
retired. An accepted combination of up to twice the size is the union of two such units, so one
round doubles `k`, and a round that proposes nothing new leaves nothing above it.
-/

namespace TreeQuery.Combination.Search

variable {n k : Nat} {s t : Search} {c : Combination} {accepts : Combination → Bool}

/-- Every part of an accepted combination is accepted. -/
def DownwardClosed (n : Nat) (accepts : Combination → Bool) : Prop :=
  ∀ c d, Proposable n c → accepts c = true → d.members.Nonempty → d.members ⊆ c.members →
    accepts d = true

structure Level (n : Nat) (accepts : Combination → Bool) (k : Nat) (s : Search) : Prop where
  sound : Sound n s
  accepted : ∀ c ∈ s.accepted, accepts c = true ∧ c.size ≤ k
  rejected : ∀ c ∈ s.rejected, accepts c = false
  complete : ∀ c, Proposable n c → accepts c = true → c.size ≤ k → c ∈ s.accepted
  units : ∀ c, Proposable n c → accepts c = true → c.size = k → c ∈ s.active

theorem Level.mem_accepted_of_tried (h : Level n accepts k s) (ht : s.Tried c)
    (hc : accepts c = true) : c ∈ s.accepted := by
  rcases ht with ht | ht
  · exact ht
  · rw [h.rejected c ht] at hc
    cases hc

theorem Level.mem_unions (h : Level n accepts k s) (hk : 1 ≤ k) (hd : DownwardClosed n accepts)
    (hp : Proposable n c) (hc : accepts c = true) (hlo : k < c.size) (hhi : c.size ≤ 2 * k) :
    c ∈ unions s.active := by
  obtain ⟨a, b, ha, hb, hac, hbc, rfl⟩ := exists_halves (Nat.le_of_lt hlo) hhi
  have hunit (u : Combination) (hu : u.size = k) (huc : u.members ⊆ (a.union b).members) :
      u ∈ s.active := by
    have hne : u.members.Nonempty := by
      rw [← Finset.card_pos, card_members]
      omega
    exact h.units u ⟨hne, huc.trans hp.2⟩ (hd _ u hp hc hne huc) hu
  refine union_mem_unions (hunit a ha hac) (hunit b hb hbc) ?_
  rintro rfl
  have : (a.union a).size ≤ a.size := size_le_of_subset (by simp)
  omega

theorem Level.exhausted (h : Level n accepts k s) (hk : 1 ≤ k) (hd : DownwardClosed n accepts)
    (hall : ∀ c ∈ unions s.active, s.Tried c) (hp : Proposable n c) (hc : accepts c = true) :
    c ∈ s.accepted := by
  by_cases hle : c.size ≤ k
  · exact h.complete c hp hc hle
  · -- a part of size `k + 1` would be new
    exfalso
    obtain ⟨D, hDc, hDk⟩ := Finset.exists_subset_card_eq (n := k + 1)
      (show k + 1 ≤ c.members.card by rw [card_members]; omega)
    obtain ⟨d, rfl⟩ := exists_members_eq D
    have hdne : d.members.Nonempty := by
      rw [← Finset.card_pos]
      omega
    rw [card_members] at hDk
    have hda : accepts d = true := hd c d hp hc hdne hDc
    have hmem := h.mem_unions hk hd ⟨hdne, hDc.trans hp.2⟩ hda (by omega) (by omega)
    have hsize := (h.accepted d (h.mem_accepted_of_tried (hall d hmem) hda)).2
    omega

/-- A round lifts the level to `m` if it proposes everything accepted between and nothing above. The
second round is left out, because what passes there does not become a unit. -/
theorem Level.lift {m : Nat} (h : Level n accepts k s) (hkm : k < m) (hr : s.round ≠ 1)
    (hbelow : ∀ c ∈ s.propose (s.round + 1), c.size ≤ m)
    (hall : ∀ c, Proposable n c → accepts c = true → k < c.size → c.size ≤ m →
      c ∈ s.propose (s.round + 1)) :
    Level n accepts m (s.advance.recordAll accepts (s.propose (s.round + 1))) := by
  constructor
  case sound => exact h.sound.recordAll
  case accepted =>
    intro c hc
    rw [recordAll_accepted, List.mem_append, List.mem_filter] at hc
    rcases hc with hc | ⟨hc, ha⟩
    · have := h.accepted c hc
      exact ⟨this.1, by omega⟩
    · exact ⟨ha, hbelow c hc⟩
  case rejected =>
    intro c hc
    rcases mem_recordAll_rejected.1 hc with hc | hc
    · exact h.rejected c hc
    · exact hc.2
  case complete =>
    intro c hp hc hs
    rw [recordAll_accepted, List.mem_append, List.mem_filter]
    by_cases hlo : k < c.size
    · exact .inr ⟨hall c hp hc hlo hs, hc⟩
    · exact .inl (h.complete c hp hc (Nat.not_lt.1 hlo))
  case units =>
    intro c hp hc hs
    rw [recordAll_eq]
    refine mem_active_of_passed (by simpa [advance] using hr) ?_ fun d hd hcd => ?_
    · rw [passed_judged, List.mem_filter]
      exact ⟨hall c hp hc (by omega) (by omega), hc⟩
    · rw [passed_judged, List.mem_filter] at hd
      exact eq_of_subset_of_size_le hcd (hs ▸ hbelow d hd.1)

theorem Level.round (h : Level n accepts k s) (hk : 1 ≤ k) (hd : DownwardClosed n accepts)
    (hr : 2 ≤ s.round) :
    Level n accepts (2 * k) (s.advance.recordAll accepts (s.propose (s.round + 1))) := by
  have h3 : 3 ≤ s.round + 1 := by omega
  refine h.lift (by omega) (by omega) (fun c hc => ?_) fun c hp hc hlo hhi => ?_
  · obtain ⟨a, ha, b, hb, rfl⟩ := exists_of_mem_unions ((mem_propose_later h3).1 hc).1
    have := size_union_le a b
    have := (h.accepted a (h.sound.units a ha)).2
    have := (h.accepted b (h.sound.units b hb)).2
    omega
  · refine (mem_propose_later h3).2 ⟨h.mem_unions hk hd hp hc hlo hhi, fun ht => ?_⟩
    have := (h.accepted c (h.mem_accepted_of_tried ht hc)).2
    omega

/-- What a complete run has to leave: everything that passed is accepted, and nothing accepted is
greater than all that passed. -/
structure Exhausted (n : Nat) (accepts : Combination → Bool) (s : Search) : Prop where
  accepted : ∀ c ∈ s.accepted, Proposable n c ∧ accepts c = true
  greatest : ∀ c, Proposable n c → accepts c = true → ∃ b ∈ s.accepted, c.size ≤ b.size

theorem Level.exhausted_advance (h : Level n accepts k s) (hk : 1 ≤ k)
    (hd : DownwardClosed n accepts) (hall : ∀ c ∈ unions s.active, s.Tried c) :
    Exhausted n accepts s.advance where
  accepted c hc := ⟨h.sound.tried c (.inl hc), (h.accepted c hc).1⟩
  greatest c hp hc := ⟨c, h.exhausted hk hd hall hp hc, Nat.le_refl _⟩

theorem Level.completes {rs : List Round} (h : Level n accepts k s) (hk : 1 ≤ k)
    (hd : DownwardClosed n accepts) (hr : 2 ≤ s.round) (hf : s.finished = false)
    (hc : Completes accepts s rs t) : Exhausted n accepts t := by
  induction hc generalizing k with
  | @stop s s' r hn he =>
    obtain ⟨rfl, rfl⟩ := next_ok hf hn
    refine h.exhausted_advance hk hd fun c hc => ?_
    by_contra ht
    have hmem : c ∈ s.propose (s.round + 1) :=
      (mem_propose_later (Nat.succ_le_succ hr)).2 ⟨hc, ht⟩
    rw [show s.propose (s.round + 1) = [] from he] at hmem
    cases hmem
  | @round s s' t r rs hn he _ ih =>
    obtain ⟨rfl, rfl⟩ := next_ok hf hn
    refine ih (h.round hk hd hr) (by omega) ?_ (not_finished_recordAll he fun h1 => ?_)
    · rw [recordAll_round]
      exact Nat.le_succ_of_le hr
    · omega

-- ---------------------------------------------------------------------------
-- The first two rounds
-- ---------------------------------------------------------------------------

theorem Proposable.one_le_size (h : Proposable n c) : 1 ≤ c.size := by
  rw [← card_members]
  exact Finset.card_pos.2 h.1

theorem level_start (limit : Nat) : Level n accepts 0 (start n limit) where
  sound := sound_start n limit
  accepted c hc := by simp [start] at hc
  rejected c hc := by simp [start] at hc
  complete c hp _ hs := absurd hp.one_le_size (by omega)
  units c hp _ hs := absurd hp.one_le_size (by omega)

theorem eq_singleton_of_size_le_one (hp : Proposable n c) (hs : c.size ≤ 1) :
    ∃ i, 1 ≤ i ∧ i ≤ n ∧ c = singleton i := by
  obtain ⟨i, hi⟩ := hp.1
  have hin := Finset.mem_Icc.1 (hp.2 hi)
  refine ⟨i, hin.1, hin.2, (eq_of_subset_of_size_le ?_ hs).symm⟩
  simpa using hi

theorem level_one (limit : Nat) : Level n accepts 1
    ((start n limit).advance.recordAll accepts ((start n limit).propose 1)) := by
  refine (level_start limit).lift Nat.one_pos Nat.zero_ne_one (fun c hc => ?_)
    fun c hp _ _ hs => ?_
  · obtain ⟨i, -, -, rfl⟩ := mem_singletons.1 hc
    exact Nat.le_refl 1
  · exact mem_singletons.2 (eq_singleton_of_size_le_one hp hs)

theorem unions_eq_nil {cs : List Combination} (h : cs.length < 2) : unions cs = [] := by
  match cs, h with
  | [], _ => rfl
  | [_], _ => rfl

theorem subset_foldl_union {u : Combination} {cs : List Combination} (hu : u ∈ cs) :
    u.members ⊆ (cs.foldl union empty).members :=
  fun _ hi => mem_members.2 (mem_foldl_union.2 (.inr ⟨u, hu, mem_members.1 hi⟩))

theorem Level.subset_merge (h : Level n accepts 1 s) (hd : DownwardClosed n accepts)
    (hp : Proposable n c) (hc : accepts c = true) :
    c.members ⊆ (s.active.foldl union empty).members := by
  intro i hi
  have hpi : Proposable n (singleton i) := ⟨by simp, by simpa using hp.2 hi⟩
  have hunit := h.units _ hpi (hd c _ hp hc hpi.1 (by simpa using hi)) rfl
  exact subset_foldl_union hunit (by simp)

theorem merge_eq : s.merge = [] ∨ s.merge = [s.active.foldl union empty] := by
  simp only [merge]
  split
  · exact .inl rfl
  · split
    · exact .inl rfl
    · exact .inr rfl

theorem Level.unmoved (h : Level n accepts k s)
    (hnone : ∀ c ∈ s.propose (s.round + 1), accepts c = false) :
    Level n accepts k (s.advance.recordAll accepts (s.propose (s.round + 1))) := by
  have hpassed : (s.propose (s.round + 1)).filter accepts = [] := by
    simpa using hnone
  have haccepted : (s.advance.recordAll accepts (s.propose (s.round + 1))).accepted =
      s.accepted := by
    rw [recordAll_accepted, hpassed, List.append_nil]
    rfl
  constructor
  case sound => exact h.sound.recordAll
  case accepted => exact haccepted ▸ h.accepted
  case rejected =>
    intro c hc
    rcases mem_recordAll_rejected.1 hc with hc | hc
    · exact h.rejected c hc
    · exact hc.2
  case complete => exact haccepted ▸ h.complete
  case units =>
    intro c hp hc hs
    rw [recordAll_eq]
    exact mem_active_of_mem (h.units c hp hc hs) (by rw [passed_judged, hpassed]; simp)

theorem Level.tried_unions (h : Level n accepts 1 s) (hone : ∀ c, s.Tried c → c.size ≤ 1)
    (hmerge : s.merge = []) : ∀ c ∈ unions s.active, s.Tried c := by
  intro c hc
  by_cases hlen : s.active.length < 2
  · rw [unions_eq_nil hlen] at hc
    cases hc
  · have htried : s.Tried (s.active.foldl union empty) := by
      by_contra ht
      have hmem := mem_merge.2 ⟨Nat.not_lt.1 hlen, rfl, ht⟩
      rw [hmerge] at hmem
      cases hmem
    obtain ⟨a, ha, b, hb, rfl⟩ := exists_of_mem_unions hc
    have hsub : (a.union b).members ⊆ (s.active.foldl union empty).members := by
      rw [members_union]
      exact Finset.union_subset (subset_foldl_union ha) (subset_foldl_union hb)
    have hsize := (size_le_of_subset hsub).trans (hone _ htried)
    have heq : a = a.union b :=
      eq_of_subset_of_size_le (by simp)
        (hsize.trans (h.sound.proposable_of_unit ha).one_le_size)
    exact .inl (heq ▸ h.sound.units a ha)

theorem Level.exhausted_merge (h : Level n accepts 1 s) (hd : DownwardClosed n accepts)
    (hmerge : s.propose (s.round + 1) = [s.active.foldl union empty])
    (hm : accepts (s.active.foldl union empty) = true) :
    Exhausted n accepts (s.advance.recordAll accepts (s.propose (s.round + 1))) := by
  have haccepted : (s.advance.recordAll accepts (s.propose (s.round + 1))).accepted =
      s.accepted ++ [s.active.foldl union empty] := by
    rw [recordAll_accepted, hmerge, List.filter_singleton, hm]
    rfl
  constructor
  case accepted =>
    intro c hc
    refine ⟨h.sound.recordAll.tried c (.inl hc), ?_⟩
    rw [haccepted, List.mem_append, List.mem_singleton] at hc
    rcases hc with hc | rfl
    · exact (h.accepted c hc).1
    · exact hm
  case greatest =>
    intro c hp hc
    exact ⟨s.active.foldl union empty, by simp [haccepted],
      size_le_of_subset (h.subset_merge hd hp hc)⟩

/-- From the second round on: either the merge of all units passes, and nothing accepted is
greater, or the levels start. -/
theorem Level.completes_merge {rs : List Round} (h : Level n accepts 1 s)
    (hd : DownwardClosed n accepts) (hr : s.round = 1) (hf : s.finished = false)
    (hone : ∀ c, s.Tried c → c.size ≤ 1) (hc : Completes accepts s rs t) :
    Exhausted n accepts t := by
  have hpropose : s.propose (s.round + 1) = s.merge := by rw [hr]; rfl
  cases hc with
  | stop hn he =>
    obtain ⟨rfl, rfl⟩ := next_ok hf hn
    exact h.exhausted_advance (Nat.le_refl 1) hd (h.tried_unions hone (hpropose ▸ he))
  | round hn he hrest =>
    obtain ⟨rfl, rfl⟩ := next_ok hf hn
    have hmerge : s.propose (s.round + 1) = [s.active.foldl union empty] := by
      rw [hpropose]
      exact merge_eq.resolve_left (hpropose ▸ he)
    cases hm : accepts (s.active.foldl union empty) with
    | false =>
      have hnone : ∀ c ∈ s.propose (s.round + 1), accepts c = false := by
        simp [hmerge, hm]
      refine (h.unmoved hnone).completes (Nat.le_refl 1) hd ?_
        (not_finished_recordAll he fun _ => hnone) hrest
      rw [recordAll_round]
      exact Nat.succ_le_succ (Nat.le_of_eq hr.symm)
    | true =>
      have hfinished : (s.advance.recordAll accepts (s.propose (s.round + 1))).finished = true :=
        recordAll_finished.2 (.inr ⟨congrArg (· + 1) hr, _, by simp [hmerge], hm⟩)
      obtain rfl := hrest.eq_of_finished hfinished
      exact h.exhausted_merge hd hmerge hm

/-- A complete run from the start leaves nothing accepted that is greater than all that passed. -/
theorem exhausted_of_completes {limit : Nat} {rs : List Round} (hd : DownwardClosed n accepts)
    (hc : Completes accepts (start n limit) rs t) : Exhausted n accepts t := by
  cases hc with
  | stop hn he =>
    obtain ⟨rfl, rfl⟩ := next_ok rfl hn
    refine ⟨fun c hc => by simp [advance, start] at hc, fun c hp _ => ?_⟩
    -- without numbers there is nothing to accept
    obtain ⟨i, hi⟩ := hp.1
    have hin := Finset.mem_Icc.1 (hp.2 hi)
    have hmem : singleton i ∈ (start n limit).propose 1 :=
      mem_singletons.2 ⟨i, hin.1, hin.2, rfl⟩
    rw [show (start n limit).propose 1 = [] from he] at hmem
    cases hmem
  | round hn he hrest =>
    obtain ⟨rfl, rfl⟩ := next_ok rfl hn
    refine (level_one limit).completes_merge hd recordAll_round
      (not_finished_recordAll he fun h1 => absurd h1 Nat.zero_ne_one) (fun c hc => ?_) hrest
    · rcases tried_recordAll.1 hc with hc | hc
      · simp [advance, start, Tried] at hc
      · obtain ⟨i, -, -, rfl⟩ := mem_singletons.1 hc
        exact Nat.le_refl 1

-- ---------------------------------------------------------------------------
-- The best combination
-- ---------------------------------------------------------------------------

/-- Under a rule that accepts the parts of what it accepts, a driven search that stays within its
limit ends in an empty round, and its best combination is a greatest accepted one. -/
theorem drive_best (n limit : Nat) (accepts : Combination → Bool)
    (hdown : DownwardClosed n accepts)
    (hlimit : ∀ e, .error e ∉ (drive accepts (start n limit)).1) :
    (∃ r, (drive accepts (start n limit)).1.getLast? = some (.ok r) ∧ r.candidates = []) ∧
    ((drive accepts (start n limit)).2.best? = none ↔
      ∀ c, Proposable n c → accepts c = false) ∧
    ∀ b, (drive accepts (start n limit)).2.best? = some b →
      Proposable n b ∧ accepts b = true ∧
        ∀ c, Proposable n c → accepts c = true → c.size ≤ b.size := by
  obtain ⟨rs, hrs, hc⟩ := completes_drive limit hlimit
  have hex := exhausted_of_completes hdown hc
  refine ⟨?_, ?_, fun b hb => ?_⟩
  · obtain ⟨r, hl, he⟩ := hc.getLast?
    exact ⟨r, by rw [hrs, List.getLast?_map, hl]; rfl, he⟩
  · rw [best?_eq_none_iff]
    constructor
    · intro hnil c hp
      rw [← Bool.not_eq_true]
      intro ha
      obtain ⟨b, hb, -⟩ := hex.greatest c hp ha
      rw [hnil] at hb
      cases hb
    · intro hnone
      refine List.eq_nil_iff_forall_not_mem.2 fun c hc => ?_
      have := hex.accepted c hc
      rw [hnone c this.1] at this
      cases this.2
  · obtain ⟨hmem, hmax⟩ := best?_eq_some hb
    refine ⟨(hex.accepted b hmem).1, (hex.accepted b hmem).2, fun c hp hc => ?_⟩
    obtain ⟨d, hd, hle⟩ := hex.greatest c hp hc
    exact hle.trans (hmax d hd)

def apart (c : Combination) : Bool := !(c.indices.contains 1 && c.indices.contains 2)

theorem drive_best_apart :
    (drive apart (start 4 9)).2.best? = some (ofList [2, 3, 4]) ∧
      ∀ c, Proposable 4 c → apart c = true → c.size ≤ 3 := by
  have hdown : DownwardClosed 4 apart := by
    intro c d _ hc _ hdc
    have h {i : Nat} (hi : i ∈ d.indices) : i ∈ c.indices :=
      List.mem_toFinset.1 (hdc (List.mem_toFinset.2 hi))
    simp only [apart, Bool.not_eq_true', ← Bool.not_eq_true, Bool.and_eq_true,
      List.contains_iff_mem] at hc ⊢
    exact fun hd12 => hc ⟨h hd12.1, h hd12.2⟩
  have hrounds : (drive apart (start 4 9)).1.all (fun r => r.toOption.isSome) = true := by
    decide +kernel
  have hlimit : ∀ e, .error e ∉ (drive apart (start 4 9)).1 := by
    intro e he
    cases List.all_eq_true.1 hrounds _ he
  have hbest : (drive apart (start 4 9)).2.best? = some (ofList [2, 3, 4]) := by decide +kernel
  have h := (drive_best 4 9 apart hdown hlimit).2.2 _ hbest
  exact ⟨hbest, h.2.2⟩

end TreeQuery.Combination.Search
