import TreeQuery.Combination.Search
import TreeQuery.Proofs.Combination.Members

/-!
# One round of a search

What a round proposes, and what the verdicts on its candidates leave. Later arguments about
searches start from these statements and do not open the search again.
-/

namespace TreeQuery.Combination.Search

variable {s : Search} {c d : Combination} {cs : List Combination}

-- ---------------------------------------------------------------------------
-- Proposals
-- ---------------------------------------------------------------------------

def Tried (s : Search) (c : Combination) : Prop := c ∈ s.accepted ∨ c ∈ s.rejected

theorem isKnown_iff : s.isKnown c = true ↔ s.Tried c := by
  simp [isKnown, Tried, or_comm]

theorem mem_singletons : c ∈ s.singletons ↔ ∃ n, 1 ≤ n ∧ n ≤ s.occurrences ∧ c = singleton n := by
  simp only [singletons, List.mem_map, List.mem_range]
  constructor
  · rintro ⟨i, hi, rfl⟩
    exact ⟨i + 1, by omega, by omega, rfl⟩
  · rintro ⟨n, h1, hn, rfl⟩
    exact ⟨n - 1, by omega, by rw [Nat.sub_add_cancel h1]⟩

theorem mem_merge : c ∈ s.merge ↔
    2 ≤ s.active.length ∧ c = s.active.foldl union empty ∧ ¬ s.Tried c := by
  simp only [merge]
  split
  · next h => simp only [List.not_mem_nil, false_iff]; omega
  · next h =>
    split
    · next hk =>
      rw [isKnown_iff] at hk
      simp only [List.not_mem_nil, false_iff]
      exact fun hc => hc.2.2 (hc.2.1 ▸ hk)
    · next hk =>
      rw [isKnown_iff] at hk
      rw [List.mem_singleton]
      exact ⟨fun hc => ⟨by omega, hc, hc ▸ hk⟩, fun hc => hc.2.1⟩

theorem exists_of_mem_unions (h : c ∈ unions cs) : ∃ a ∈ cs, ∃ b ∈ cs, c = a.union b := by
  induction cs with
  | nil => cases h
  | cons x xs ih =>
    rcases List.mem_append.1 h with h | h
    · obtain ⟨b, hb, rfl⟩ := List.mem_map.1 h
      exact ⟨x, List.mem_cons_self, b, List.mem_cons_of_mem _ hb, rfl⟩
    · obtain ⟨a, ha, b, hb, rfl⟩ := ih h
      exact ⟨a, List.mem_cons_of_mem _ ha, b, List.mem_cons_of_mem _ hb, rfl⟩

theorem exists_sublist_of_mem_unions (h : c ∈ unions cs) :
    ∃ a b, [a, b].Sublist cs ∧ c = a.union b := by
  induction cs with
  | nil => cases h
  | cons x xs ih =>
    rcases List.mem_append.1 h with h | h
    · obtain ⟨b, hb, rfl⟩ := List.mem_map.1 h
      exact ⟨x, b, (List.singleton_sublist.2 hb).cons_cons x, rfl⟩
    · obtain ⟨a, b, hab, rfl⟩ := ih h
      exact ⟨a, b, hab.cons x, rfl⟩

theorem union_mem_unions {a b : Combination} (ha : a ∈ cs) (hb : b ∈ cs) (hab : a ≠ b) :
    a.union b ∈ unions cs := by
  induction cs with
  | nil => cases ha
  | cons x xs ih =>
    refine List.mem_append.2 ?_
    rcases List.mem_cons.1 ha with rfl | ha'
    · rcases List.mem_cons.1 hb with rfl | hb'
      · exact absurd rfl hab
      · exact .inl (List.mem_map.2 ⟨b, hb', rfl⟩)
    · rcases List.mem_cons.1 hb with rfl | hb'
      · exact .inl (List.mem_map.2 ⟨a, ha', union_comm b a⟩)
      · exact .inr (ih ha' hb')

theorem mem_foldl_insert {seen : Std.TreeSet (List Nat)} {l : List Nat} :
    l ∈ cs.foldl (fun seen c => seen.insert c.indices) seen ↔
      l ∈ seen ∨ ∃ c ∈ cs, c.indices = l := by
  induction cs generalizing seen with
  | nil => simp
  | cons c cs ih => simp [ih, Std.TreeSet.mem_insert, or_assoc, or_left_comm]

def keepNew (r : Std.TreeSet (List Nat) × List Combination) (c : Combination) :
    Std.TreeSet (List Nat) × List Combination :=
  if r.1.contains c.indices then r else (r.1.insert c.indices, c :: r.2)

theorem fresh_eq (seen : Std.TreeSet (List Nat)) (cs : List Combination) :
    fresh seen cs = (cs.foldl keepNew (seen, [])).2.reverse := rfl

theorem indices_inj : c.indices = d.indices ↔ c = d := by
  cases c
  cases d
  simp

theorem mem_known : c.indices ∈ s.known ↔ s.Tried c := by
  simp [known, mem_foldl_insert, Tried, indices_inj]

theorem mem_foldl_keepNew {r : Std.TreeSet (List Nat) × List Combination} :
    c ∈ (cs.foldl keepNew r).2 ↔ c ∈ r.2 ∨ (c ∈ cs ∧ c.indices ∉ r.1) := by
  induction cs generalizing r with
  | nil => simp
  | cons x xs ih =>
    rw [List.foldl_cons, ih]
    unfold keepNew
    by_cases hx : x.indices ∈ r.1
    · have : c = x → c.indices ∈ r.1 := fun h => h ▸ hx
      simp only [Std.TreeSet.contains_iff_mem, hx, ↓reduceIte, List.mem_cons]
      grind
    · have : c = x → c.indices ∉ r.1 := fun h => h ▸ hx
      simp only [Std.TreeSet.contains_iff_mem, hx, ↓reduceIte, List.mem_cons,
        Std.TreeSet.mem_insert, Std.LawfulEqCmp.compare_eq_iff_eq, indices_inj]
      grind

theorem nodup_foldl_keepNew {r : Std.TreeSet (List Nat) × List Combination}
    (hseen : ∀ c ∈ r.2, c.indices ∈ r.1) (h : r.2.Nodup) : (cs.foldl keepNew r).2.Nodup := by
  induction cs generalizing r with
  | nil => exact h
  | cons x xs ih =>
    rw [List.foldl_cons]
    unfold keepNew
    split
    · exact ih hseen h
    · next hx =>
      rw [Std.TreeSet.contains_iff_mem] at hx
      refine ih (fun c hc => Std.TreeSet.mem_insert.2 ?_) (List.nodup_cons.2 ⟨fun hm => ?_, h⟩)
      · rcases List.mem_cons.1 hc with rfl | hc
        · simp
        · exact .inr (hseen c hc)
      · exact hx (hseen x hm)

theorem nodup_fresh (seen : Std.TreeSet (List Nat)) : (fresh seen cs).Nodup := by
  rw [fresh_eq, List.nodup_reverse]
  exact nodup_foldl_keepNew nofun .nil

theorem mem_fresh {seen : Std.TreeSet (List Nat)} :
    c ∈ fresh seen cs ↔ c ∈ cs ∧ c.indices ∉ seen := by
  simp [fresh_eq, mem_foldl_keepNew]

/-- The candidates of the third and every later round. -/
theorem mem_propose_later {number : Nat} (h : 3 ≤ number) :
    c ∈ s.propose number ↔ c ∈ unions s.active ∧ ¬ s.Tried c := by
  have hp : s.propose number = fresh s.known (unions s.active) := by
    match number, h with
    | _ + 3, _ => rfl
  rw [hp, mem_fresh, mem_known]

/-- From the second round on nothing is proposed that was tried before. -/
theorem not_tried_of_mem_propose {number : Nat} (h2 : 2 ≤ number) (hc : c ∈ s.propose number) :
    ¬ s.Tried c := by
  match number, h2 with
  | 2, _ => exact (mem_merge.1 hc).2.2
  | n + 3, _ => exact ((mem_propose_later (Nat.le_add_left 3 n)).1 hc).2

theorem nodup_singletons : s.singletons.Nodup := by
  refine List.Nodup.map (fun i j hij => ?_) List.nodup_range
  simpa [singleton] using hij

theorem nodup_merge : s.merge.Nodup := by
  simp only [merge]
  split
  · exact .nil
  · split
    · exact .nil
    · exact List.nodup_singleton _

theorem nodup_propose : ∀ number, (s.propose number).Nodup
  | 1 => nodup_singletons
  | 2 => nodup_merge
  | 0 | _ + 3 => nodup_fresh _

theorem next_finished (h : s.finished = true) : s.next = (.ok ⟨s.round, []⟩, s) := by
  simp [next, h]

theorem exists_of_next {a : Except BudgetExceeded Round} {t : Search} (h : s.next = (a, t)) :
    ∃ number finished, t = { s with round := number, finished := finished } := by
  obtain rfl : s.next.2 = t := congrArg Prod.snd h
  unfold next
  split
  · exact ⟨_, _, rfl⟩
  · dsimp only
    split
    · exact ⟨_, _, rfl⟩
    · exact ⟨_, _, rfl⟩

theorem next_accepted : s.next.2.accepted = s.accepted := by
  obtain ⟨number, finished, h⟩ := exists_of_next (Prod.eta s.next).symm
  rw [h]

theorem next_exceeded (h : s.finished = false)
    (hl : s.limit < (s.propose (s.round + 1)).length) :
    s.next = (.error ⟨s.round + 1, (s.propose (s.round + 1)).length, s.limit⟩,
      { s with round := s.round + 1, finished := true }) := by
  simp [next, h, hl]

theorem next_proposed (h : s.finished = false)
    (hl : (s.propose (s.round + 1)).length ≤ s.limit) :
    s.next = (.ok ⟨s.round + 1, s.propose (s.round + 1)⟩,
      { s with round := s.round + 1, finished := (s.propose (s.round + 1)).isEmpty }) := by
  simp [next, h, Nat.not_lt.2 hl]

-- ---------------------------------------------------------------------------
-- Verdicts
-- ---------------------------------------------------------------------------

theorem mem_insertRejected {l : List Combination} : d ∈ insertRejected c l ↔ d = c ∨ d ∈ l := by
  induction l with
  | nil => simp [insertRejected]
  | cons x xs ih =>
    unfold insertRejected
    split
    · simp
    · split
      · next h => simp [h]
      · simp [ih, or_left_comm]

theorem pairwise_insertRejected {l : List Combination} (h : l.Pairwise (·.indices < ·.indices)) :
    (insertRejected c l).Pairwise (·.indices < ·.indices) := by
  induction l with
  | nil => exact List.pairwise_singleton _ c
  | cons x xs ih =>
    obtain ⟨hx, hxs⟩ := List.pairwise_cons.1 h
    unfold insertRejected
    split
    · next hlt =>
      refine List.pairwise_cons.2 ⟨List.forall_mem_cons.2 ⟨hlt, fun d hd => ?_⟩, h⟩
      exact List.lt_trans hlt (hx d hd)
    · next hlt =>
      split
      · exact h
      · next hne =>
        refine List.pairwise_cons.2 ⟨fun d hd => ?_, ih hxs⟩
        rcases mem_insertRejected.1 hd with rfl | hd
        · refine (List.le_iff_lt_or_eq.1 (List.not_lt.1 hlt)).resolve_right ?_
          exact fun he => hne (indices_inj.1 he.symm)
        · exact hx d hd

def recordEach (s : Search) (vs : List (Combination × Bool)) : Search :=
  vs.foldl (fun s v => s.record v.1 v.2) s

def passed (vs : List (Combination × Bool)) : List Combination :=
  (vs.filter (·.2)).map (·.1)

def judged (accepts : Combination → Bool) (cs : List Combination) : List (Combination × Bool) :=
  cs.map fun c => (c, accepts c)

variable {accepts : Combination → Bool}

theorem recordAll_eq : s.recordAll accepts cs = s.recordEach (judged accepts cs) := by
  simp [recordAll, recordEach, judged, List.foldl_map]

@[simp] theorem map_judged : (judged accepts cs).map (·.1) = cs := by
  simp [judged, Function.comp_def]

@[simp] theorem passed_judged : passed (judged accepts cs) = cs.filter accepts := by
  simp [passed, judged, List.filter_map, Function.comp_def]

@[simp] theorem mem_judged {v : Combination × Bool} :
    v ∈ judged accepts cs ↔ v.1 ∈ cs ∧ accepts v.1 = v.2 := by
  obtain ⟨c, b⟩ := v
  simp [judged]

variable {b : Bool} {vs : List (Combination × Bool)}

def activeWith (s : Search) (c : Combination) : List Combination :=
  match s.round with
  | 1 => s.active ++ [c]
  | 2 => s.active
  | _ => s.active.filter (fun unit => !unit.isSubset c) ++ [c]

theorem record_failed :
    s.record c false = { s with rejected := insertRejected c s.rejected } := rfl

theorem record_passed : s.record c true =
    { s with accepted := s.accepted ++ [c], active := s.activeWith c
             finished := s.finished || s.round == 2 } := by
  obtain ⟨n, limit, round, accepted, rejected, active, finished⟩ := s
  match round with
  | 0 | 1 | 2 | _ + 3 => simp [record, activeWith]

theorem mem_activeWith {u : Combination} (h : u ∈ s.activeWith c) : u ∈ s.active ∨ u = c := by
  unfold activeWith at h
  split at h
  · simpa using h
  · exact .inl h
  · rcases List.mem_append.1 h with h | h
    · exact .inl (List.mem_of_mem_filter h)
    · exact .inr (List.mem_singleton.1 h)

theorem self_mem_activeWith (h : s.round ≠ 2) : c ∈ s.activeWith c := by
  unfold activeWith
  split <;> simp_all

theorem mem_activeWith_of_mem {u : Combination} (hu : u ∈ s.active)
    (hc : u.members ⊆ c.members → u = c) : u ∈ s.activeWith c := by
  unfold activeWith
  split
  · exact List.mem_append_left _ hu
  · exact hu
  · by_cases hs : u.isSubset c = true
    · simp [hc (isSubset_iff.1 hs)]
    · exact List.mem_append_left _ (List.mem_filter.2 ⟨hu, by simp [hs]⟩)

/-- A combination that passes takes the place of its parts, so nothing that the units cover is
lost. -/
theorem exists_mem_activeWith {i : Nat} : (∃ u ∈ s.activeWith c, i ∈ u) ↔
    (∃ u ∈ s.active, i ∈ u) ∨ (s.round ≠ 2 ∧ i ∈ c) := by
  unfold activeWith
  split
  · simp_all [or_and_right, exists_or]
  · simp_all
  · next _ h2 =>
    constructor
    · rintro ⟨u, hu, hi⟩
      rcases List.mem_append.1 hu with hu | hu
      · exact .inl ⟨u, List.mem_of_mem_filter hu, hi⟩
      · exact .inr ⟨h2, List.mem_singleton.1 hu ▸ hi⟩
    · rintro (⟨u, hu, hi⟩ | ⟨-, hi⟩)
      · by_cases hs : u.isSubset c = true
        · exact ⟨c, by simp, mem_members.1 (isSubset_iff.1 hs (mem_members.2 hi))⟩
        · exact ⟨u, by simp [hu, hs], hi⟩
      · exact ⟨c, by simp, hi⟩

/-- From the third round on no other unit is left that is part of what passes. -/
theorem not_subset_of_mem_activeWith {u : Combination} (h3 : 3 ≤ s.round)
    (hu : u ∈ s.activeWith c) (hc : u ≠ c) : ¬ u.members ⊆ c.members := by
  intro hsub
  unfold activeWith at hu
  split at hu
  · omega
  · omega
  · simp [isSubset_iff.2 hsub, hc] at hu

theorem record_accepted :
    (s.record c b).accepted = if b then s.accepted ++ [c] else s.accepted := by
  cases b <;> simp [record_failed, record_passed]

@[simp] theorem record_round : (s.record c b).round = s.round := by
  cases b <;> simp [record_failed, record_passed]

@[simp] theorem record_limit : (s.record c b).limit = s.limit := by
  cases b <;> simp [record_failed, record_passed]

@[simp] theorem record_occurrences : (s.record c b).occurrences = s.occurrences := by
  cases b <;> simp [record_failed, record_passed]

@[simp] theorem recordEach_nil : s.recordEach [] = s := rfl

@[simp] theorem recordEach_cons {v : Combination × Bool} :
    s.recordEach (v :: vs) = (s.record v.1 v.2).recordEach vs := rfl

@[simp] theorem recordEach_round : (s.recordEach vs).round = s.round := by
  induction vs generalizing s with
  | nil => rfl
  | cons v vs ih => simp [ih]

@[simp] theorem recordEach_limit : (s.recordEach vs).limit = s.limit := by
  induction vs generalizing s with
  | nil => rfl
  | cons v vs ih => simp [ih]

@[simp] theorem recordEach_occurrences : (s.recordEach vs).occurrences = s.occurrences := by
  induction vs generalizing s with
  | nil => rfl
  | cons v vs ih => simp [ih]

theorem passed_cons {v : Combination × Bool} :
    passed (v :: vs) = (if v.2 then [v.1] else []) ++ passed vs := by
  obtain ⟨c, _ | _⟩ := v <;> rfl

theorem recordEach_accepted : (s.recordEach vs).accepted = s.accepted ++ passed vs := by
  induction vs generalizing s with
  | nil => simp [passed]
  | cons v vs ih =>
    obtain ⟨c, _ | _⟩ := v <;> simp [ih, passed_cons, record_failed, record_passed]

theorem mem_recordEach_rejected :
    d ∈ (s.recordEach vs).rejected ↔ d ∈ s.rejected ∨ (d, false) ∈ vs := by
  induction vs generalizing s with
  | nil => simp
  | cons v vs ih =>
    obtain ⟨c, _ | _⟩ := v <;>
      simp [ih, record_failed, record_passed, mem_insertRejected, or_assoc, or_left_comm]

theorem tried_recordEach : (s.recordEach vs).Tried d ↔ s.Tried d ∨ d ∈ vs.map (·.1) := by
  have hp : d ∈ passed vs ↔ (d, true) ∈ vs := by simp [passed]
  have hm : d ∈ vs.map (·.1) ↔ (d, true) ∈ vs ∨ (d, false) ∈ vs := by
    simp [or_comm]
  rw [Tried, recordEach_accepted, mem_recordEach_rejected, List.mem_append, hp, hm, Tried]
  grind

theorem recordEach_finished : (s.recordEach vs).finished = true ↔
    s.finished = true ∨ (s.round = 2 ∧ passed vs ≠ []) := by
  induction vs generalizing s with
  | nil => simp [passed]
  | cons v vs ih =>
    obtain ⟨c, _ | _⟩ := v <;> simp [ih, passed_cons, record_failed, record_passed, or_assoc]
    grind

-- Under a rule the verdicts are a matter of the candidates.

@[simp] theorem recordAll_round : (s.recordAll accepts cs).round = s.round := by
  rw [recordAll_eq, recordEach_round]

@[simp] theorem recordAll_limit : (s.recordAll accepts cs).limit = s.limit := by
  rw [recordAll_eq, recordEach_limit]

theorem recordAll_accepted :
    (s.recordAll accepts cs).accepted = s.accepted ++ cs.filter accepts := by
  rw [recordAll_eq, recordEach_accepted, passed_judged]

theorem mem_recordAll_rejected :
    d ∈ (s.recordAll accepts cs).rejected ↔ d ∈ s.rejected ∨ (d ∈ cs ∧ accepts d = false) := by
  rw [recordAll_eq, mem_recordEach_rejected, mem_judged]

theorem tried_recordAll : (s.recordAll accepts cs).Tried d ↔ s.Tried d ∨ d ∈ cs := by
  rw [recordAll_eq, tried_recordEach, map_judged]

theorem recordAll_finished : (s.recordAll accepts cs).finished = true ↔
    s.finished = true ∨ (s.round = 2 ∧ ∃ c ∈ cs, accepts c = true) := by
  rw [recordAll_eq, recordEach_finished, passed_judged]
  simp

theorem mem_of_mem_active {u : Combination} (h : u ∈ (s.recordEach vs).active) :
    u ∈ s.active ∨ u ∈ passed vs := by
  induction vs generalizing s with
  | nil => exact .inl h
  | cons v vs ih =>
    rw [recordEach_cons] at h
    rw [passed_cons]
    obtain ⟨c, _ | _⟩ := v
    · simpa [record_failed] using ih h
    · rcases ih h with h | h
      · simp only [record_passed] at h
        rcases mem_activeWith h with h | h
        · exact .inl h
        · exact .inr (by simp [h])
      · exact .inr (by simp [h])

theorem mem_active_of_mem {u : Combination} (hu : u ∈ s.active)
    (hmax : ∀ c ∈ passed vs, u.members ⊆ c.members → u = c) : u ∈ (s.recordEach vs).active := by
  induction vs generalizing s with
  | nil => exact hu
  | cons v vs ih =>
    rw [passed_cons] at hmax
    rw [recordEach_cons]
    obtain ⟨c, _ | _⟩ := v
    · exact ih hu (by simpa using hmax)
    · refine ih ?_ fun d hd => hmax d (by simp [hd])
      simp only [record_passed]
      exact mem_activeWith_of_mem hu (hmax c (by simp))

theorem mem_active_of_passed {u : Combination} (hr : s.round ≠ 2) (hu : u ∈ passed vs)
    (hmax : ∀ c ∈ passed vs, u.members ⊆ c.members → u = c) : u ∈ (s.recordEach vs).active := by
  induction vs generalizing s with
  | nil => simp [passed] at hu
  | cons v vs ih =>
    rw [passed_cons] at hu hmax
    rw [recordEach_cons]
    have hrest : ∀ c ∈ passed vs, u.members ⊆ c.members → u = c :=
      fun c hc => hmax c (List.mem_append_right _ hc)
    rcases List.mem_append.1 hu with hu | hu
    · obtain ⟨c, _ | _⟩ := v
      · simp at hu
      · obtain rfl : u = c := by simpa using hu
        refine mem_active_of_mem ?_ hrest
        simp only [record_passed]
        exact self_mem_activeWith hr
    · exact ih (by simpa using hr) hu hrest

end TreeQuery.Combination.Search
