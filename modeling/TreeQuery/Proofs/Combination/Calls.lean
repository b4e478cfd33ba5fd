import TreeQuery.Proofs.Combination.Best
import TreeQuery.Proofs.Combination.Run

/-!
# Any calls at all

A search can be asked for rounds and told verdicts in any order: on what it never proposed, on the
same combination again and again, on the empty one, before the first round. It still records just
what it is told, and still proposes nothing that it was told about (`calls_recorded`).
-/

namespace TreeQuery.Combination

inductive Call where
  | next
  | record (candidate : Combination) (passed : Bool)

def Call.passed? : Call → Option Combination
  | .record c true => some c
  | _ => none

namespace Search

def after (s : Search) : Call → Search
  | .next => s.next.2
  | .record c passed => s.record c passed

def afterAll (s : Search) (calls : List Call) : Search := calls.foldl after s

variable {s : Search} {b c : Combination} {calls : List Call} {limit : Nat}

structure Records (limit : Nat) (calls : List Call) (s : Search) : Prop where
  limit : s.limit = limit
  accepted : s.accepted = calls.filterMap Call.passed?
  rejected : ∀ c, c ∈ s.rejected ↔ .record c false ∈ calls
  sorted : s.rejected.Pairwise (·.indices < ·.indices)

theorem records_start (n limit : Nat) : Records limit [] (start n limit) where
  limit := rfl
  accepted := rfl
  rejected := by simp [start]
  sorted := .nil

theorem Records.after (h : Records limit calls s) (call : Call) :
    Records limit (calls ++ [call]) (s.after call) := by
  cases call with
  | next =>
    obtain ⟨number, finished, hnext⟩ := exists_of_next (Prod.eta s.next).symm
    rw [Search.after, hnext]
    constructor
    case limit => exact h.limit
    case accepted => simp [h.accepted, Call.passed?]
    case rejected => simp [h.rejected]
    case sorted => exact h.sorted
  | record c passed =>
    cases passed with
    | true =>
      rw [Search.after, record_passed]
      constructor
      case limit => exact h.limit
      case accepted => simp [h.accepted, Call.passed?]
      case rejected => simp [h.rejected]
      case sorted => exact h.sorted
    | false =>
      rw [Search.after, record_failed]
      constructor
      case limit => exact h.limit
      case accepted => simp [h.accepted, Call.passed?]
      case rejected =>
        intro d
        simp [mem_insertRejected, h.rejected, or_comm]
      case sorted => exact pairwise_insertRejected h.sorted

theorem records_afterAll (n limit : Nat) (calls : List Call) :
    Records limit calls ((start n limit).afterAll calls) := by
  induction calls using List.reverseRecOn with
  | nil => exact records_start n limit
  | append_singleton calls call ih =>
    rw [afterAll, List.foldl_concat]
    exact ih.after call

theorem passed?_eq_some_iff {call : Call} : call.passed? = some c ↔ call = .record c true := by
  rcases call with _ | ⟨d, _ | _⟩ <;> simp [Call.passed?]

theorem mem_passed : c ∈ calls.filterMap Call.passed? ↔ .record c true ∈ calls := by
  simp [passed?_eq_some_iff]

theorem latestGreatest_passed : LatestGreatest b (calls.filterMap Call.passed?) ↔
    ∃ before after, calls = before ++ .record b true :: after ∧
      (∀ c, .record c true ∈ before → c.size ≤ b.size) ∧
      ∀ c, .record c true ∈ after → c.size < b.size := by
  constructor
  · rintro ⟨_, _, he, hbefore, hafter⟩
    -- split the calls where they split what passed; what is between counts as before
    obtain ⟨before, rest, rfl, rfl, hrest⟩ := List.filterMap_eq_append_iff.1 he
    obtain ⟨gap, call, after, rfl, hgap, hcall, rfl⟩ := List.filterMap_eq_cons_iff.1 hrest
    obtain rfl := passed?_eq_some_iff.1 hcall
    refine ⟨before ++ gap, after, by simp, fun c hc => ?_, fun c hc => hafter c (mem_passed.2 hc)⟩
    rcases List.mem_append.1 hc with hc | hc
    · exact hbefore c (mem_passed.2 hc)
    · cases hgap _ hc
  · rintro ⟨before, after, rfl, hbefore, hafter⟩
    exact ⟨_, _, List.filterMap_append, fun c hc => hbefore c (mem_passed.1 hc),
      fun c hc => hafter c (mem_passed.1 hc)⟩

theorem candidates_of_next {r : Round} {t : Search} (h : s.next = (.ok r, t)) :
    r.candidates.Nodup ∧ r.candidates.length ≤ s.limit ∧
      (2 ≤ r.number → ∀ c ∈ r.candidates, ¬ s.Tried c) := by
  cases hf : s.finished with
  | true =>
    rw [next_finished hf, Prod.mk.injEq, Except.ok.injEq] at h
    obtain ⟨rfl, rfl⟩ := h
    exact ⟨.nil, Nat.zero_le _, nofun⟩
  | false =>
    have hlimit : (s.propose (s.round + 1)).length ≤ s.limit := by
      by_contra hl
      rw [next_exceeded hf (Nat.not_le.1 hl)] at h
      cases h
    obtain ⟨rfl, rfl⟩ := next_ok hf h
    exact ⟨nodup_propose _, hlimit, fun h2 c hc => not_tried_of_mem_propose h2 hc⟩

/-- Whatever calls are made: the best combination is the one that passed last among those of the
greatest size, if any passed; what passed is listed in the order of the calls, and what failed is
kept as a set; and the next round has different candidates, not more than the limit, and none that
a verdict was given on, unless it is the first round. -/
theorem calls_recorded (n limit : Nat) (calls : List Call) :
    let s := (start n limit).afterAll calls
    (s.best? = none ↔ ∀ c, .record c true ∉ calls) ∧
    (∀ b, s.best? = some b ↔ ∃ before after, calls = before ++ .record b true :: after ∧
      (∀ c, .record c true ∈ before → c.size ≤ b.size) ∧
      ∀ c, .record c true ∈ after → c.size < b.size) ∧
    s.accepted = calls.filterMap Call.passed? ∧
    (s.rejected.Pairwise (·.indices < ·.indices) ∧
      ∀ c, c ∈ s.rejected ↔ .record c false ∈ calls) ∧
    ∀ r t, s.next = (.ok r, t) → r.candidates.Nodup ∧ r.candidates.length ≤ limit ∧
      (2 ≤ r.number → ∀ c ∈ r.candidates, c ∉ s.accepted ∧ c ∉ s.rejected) := by
  intro s
  have h : Records limit calls s := records_afterAll n limit calls
  refine ⟨?_, fun b => ?_, h.accepted, ⟨h.sorted, h.rejected⟩, fun r t hnext => ?_⟩
  · rw [best?_eq_none_iff, h.accepted, List.eq_nil_iff_forall_not_mem]
    exact forall_congr' fun c => not_congr mem_passed
  · rw [best?_eq_some_iff, h.accepted, latestGreatest_passed]
  · obtain ⟨hnodup, hlimit, hfresh⟩ := candidates_of_next hnext
    exact ⟨hnodup, h.limit ▸ hlimit, fun h2 c hc => not_or.1 (hfresh h2 c hc)⟩

/-- Verdicts before the first round, on a combination that is never proposed, and said twice. -/
theorem calls_recorded_unasked :
    let calls : List Call := [.record (singleton 3) true, .next, .record (singleton 1) true,
      .record (singleton 1) true, .record empty false, .record (singleton 2) true, .next,
      .record (ofList [1, 2]) false, .record (ofList [1, 2]) false]
    let s := (start 2 9).afterAll calls
    s.best? = some (singleton 2) ∧
      (∃ before after, calls = before ++ .record (singleton 2) true :: after ∧
        (∀ c, .record c true ∈ before → c.size ≤ 1) ∧
        ∀ c, .record c true ∈ after → c.size < 1) ∧
      ∃ r t, s.next = (.ok r, t) ∧ r = ⟨3, [ofList [1, 3], ofList [2, 3]]⟩ ∧ r.candidates.Nodup ∧
        r.candidates.length ≤ 9 ∧ ∀ c ∈ r.candidates, c ∉ s.accepted ∧ c ∉ s.rejected := by
  intro calls s
  obtain ⟨-, hbest, -, -, hnext⟩ := calls_recorded 2 9 calls
  have hlatest : s.best? = some (singleton 2) := rfl
  have hround : s.next = (.ok ⟨3, [ofList [1, 3], ofList [2, 3]]⟩, _) := rfl
  obtain ⟨hnodup, hlimit, hfresh⟩ := hnext _ _ hround
  exact ⟨hlatest, (hbest _).1 hlatest, _, _, hround, rfl, hnodup, hlimit, hfresh (by decide)⟩

end Search

end TreeQuery.Combination
