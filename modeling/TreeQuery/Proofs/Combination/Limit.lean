import TreeQuery.Proofs.Combination.Best
import TreeQuery.Proofs.Combination.Run

/-!
# The limit only cuts a run off

Two searches that differ in their limits propose the same, as long as no round has more candidates
than the smaller limit allows (`driveFor_withLimit`). So a run under the smaller limit is the
beginning of the one under the greater limit, up to the first round that is too large
(`limit_cuts_off`).
-/

namespace TreeQuery.Combination

-- ---------------------------------------------------------------------------
-- Answers of a search
-- ---------------------------------------------------------------------------

abbrev Answer := Except BudgetExceeded Round

namespace Answer

def number : Answer → Nat
  | .ok r => r.number
  | .error e => e.round

def size : Answer → Nat
  | .ok r => r.candidates.length
  | .error e => e.proposed

def candidates : Answer → List Combination
  | .ok r => r.candidates
  | .error _ => []

/-- The answers up to the first with more candidates than the limit, which fails. -/
def cutOff (limit : Nat) : List Answer → List Answer
  | [] => []
  | a :: as => if limit < size a then [.error ⟨number a, size a, limit⟩] else a :: cutOff limit as

def AllOk (as : List Answer) : Prop := ∀ e, .error e ∉ as

theorem cutOff_eq_self {limit : Nat} {as : List Answer} (h : AllOk (cutOff limit as)) :
    cutOff limit as = as := by
  induction as with
  | nil => rfl
  | cons a as ih =>
    rw [cutOff] at h ⊢
    split
    · next hlt => exact absurd List.mem_cons_self (if_pos hlt ▸ h _)
    · next hle =>
      rw [if_neg hle] at h
      rw [ih fun e he => h e (List.mem_cons_of_mem _ he)]

end Answer

namespace Search

open Answer (AllOk cutOff)

variable {m : Nat} {s : Search} {c : Combination} {accepts : Combination → Bool}
  {cs : List Combination}

-- ---------------------------------------------------------------------------
-- What a run records
-- ---------------------------------------------------------------------------

theorem getLast?_of_error {fuel : Nat} {e : BudgetExceeded}
    (he : .error e ∈ (driveFor accepts fuel s).1) :
    (driveFor accepts fuel s).1.getLast? = some (.error e) := by
  induction fuel generalizing s with
  | zero => cases he
  | succ fuel ih =>
    rcases hn : s.next with ⟨e' | r, t⟩
    · rw [driveFor_error hn] at he ⊢
      rw [List.mem_singleton.1 he]
      rfl
    · by_cases hr : r.candidates = []
      · rw [driveFor_empty hn hr] at he
        cases List.mem_singleton.1 he
      · rw [driveFor_round hn hr] at he ⊢
        have hrest := ih ((List.mem_cons.1 he).resolve_left nofun)
        simp [List.getLast?_cons, hrest]

theorem drive_ends (accepts : Combination → Bool) (n limit : Nat) :
    ∃ a, (drive accepts (start n limit)).1.getLast? = some a ∧ Answer.candidates a = [] := by
  -- within the limit the run is complete, else it stops at what is above
  by_cases hok : AllOk (drive accepts (start n limit)).1
  · obtain ⟨rs, hrs, hcompletes⟩ := completes_drive limit hok
    obtain ⟨r, hr, hempty⟩ := hcompletes.getLast?
    exact ⟨.ok r, by rw [hrs, List.getLast?_map, hr, Option.map_some], hempty⟩
  · simp only [AllOk, not_forall, not_not] at hok
    obtain ⟨e, he⟩ := hok
    exact ⟨.error e, getLast?_of_error he, rfl⟩

/-- A run records the verdicts on all that it proposed, also if it fails in the end. -/
theorem driveFor_records (accepts : Combination → Bool) (fuel : Nat) (s : Search) :
    (driveFor accepts fuel s).2.accepted =
      s.accepted ++ ((driveFor accepts fuel s).1.flatMap Answer.candidates).filter accepts ∧
    ∀ c, c ∈ (driveFor accepts fuel s).2.rejected ↔ c ∈ s.rejected ∨
      (c ∈ (driveFor accepts fuel s).1.flatMap Answer.candidates ∧ accepts c = false) := by
  induction fuel generalizing s with
  | zero => simp [driveFor]
  | succ fuel ih =>
    rcases hn : s.next with ⟨e | r, t⟩
    · obtain ⟨number, finished, rfl⟩ := exists_of_next hn
      simp [driveFor_error hn, Answer.candidates]
    · by_cases hr : r.candidates = []
      · obtain ⟨number, finished, rfl⟩ := exists_of_next hn
        simp [driveFor_empty hn hr, Answer.candidates, hr]
      · obtain ⟨haccepted, hrejected⟩ := ih (t.recordAll accepts r.candidates)
        obtain ⟨number, finished, rfl⟩ := exists_of_next hn
        rw [driveFor_round hn hr]
        simp only [haccepted, hrejected, recordAll_accepted, mem_recordAll_rejected,
          List.flatMap_cons, List.filter_append, List.append_assoc, Answer.candidates,
          List.mem_append, true_and]
        grind

theorem drive_records (accepts : Combination → Bool) (n limit : Nat) :
    (drive accepts (start n limit)).2.accepted =
      ((drive accepts (start n limit)).1.flatMap Answer.candidates).filter accepts ∧
    ∀ c, c ∈ (drive accepts (start n limit)).2.rejected ↔
      c ∈ (drive accepts (start n limit)).1.flatMap Answer.candidates ∧ accepts c = false := by
  obtain ⟨haccepted, hrejected⟩ := driveFor_records accepts (Nat.pow 2 n + 2) (start n limit)
  exact ⟨haccepted, fun c => (hrejected c).trans (or_iff_right List.not_mem_nil)⟩

-- ---------------------------------------------------------------------------
-- The same search under another limit
-- ---------------------------------------------------------------------------

def withLimit (m : Nat) (s : Search) : Search := { s with limit := m }

theorem propose_withLimit (number : Nat) :
    (s.withLimit m).propose number = s.propose number := by
  match number with
  | 0 | 1 | 2 | _ + 3 => rfl

theorem record_withLimit (passed : Bool) :
    (s.withLimit m).record c passed = (s.record c passed).withLimit m := by
  cases passed with
  | false => rfl
  | true =>
    rw [record_passed, record_passed]
    rfl

theorem recordAll_withLimit :
    (s.withLimit m).recordAll accepts cs = (s.recordAll accepts cs).withLimit m := by
  induction cs generalizing s with
  | nil => rfl
  | cons c cs ih =>
    simp only [recordAll, List.foldl_cons, record_withLimit] at ih ⊢
    exact ih

theorem next_withLimit (hm : m ≤ s.limit) :
    (∃ r t, s.next = (.ok r, t) ∧ r.candidates.length ≤ m ∧
      (s.withLimit m).next = (.ok r, t.withLimit m)) ∨
    ∃ a t t', s.next = (a, t) ∧ m < Answer.size a ∧
      (s.withLimit m).next = (.error ⟨Answer.number a, Answer.size a, m⟩, t') := by
  cases hf : s.finished with
  | true => exact .inl ⟨_, _, next_finished hf, Nat.zero_le m, next_finished hf⟩
  | false =>
    have hf' : (s.withLimit m).finished = false := hf
    have hsame : (s.withLimit m).propose ((s.withLimit m).round + 1) = s.propose (s.round + 1) :=
      propose_withLimit _
    by_cases hle : (s.propose (s.round + 1)).length ≤ m
    · have hnext' := next_proposed hf' (hsame.symm ▸ hle)
      rw [hsame] at hnext'
      exact .inl ⟨_, _, next_proposed hf (hle.trans hm), hle, hnext'⟩
    · have hlt := Nat.not_le.1 hle
      have hnext' := next_exceeded hf' (hsame.symm ▸ hlt)
      rw [hsame] at hnext'
      by_cases hlimit : (s.propose (s.round + 1)).length ≤ s.limit
      · exact .inr ⟨_, _, _, next_proposed hf hlimit, hlt, hnext'⟩
      · exact .inr ⟨_, _, _, next_exceeded hf (Nat.not_le.1 hlimit), hlt, hnext'⟩

theorem driveFor_withLimit (accepts : Combination → Bool) (fuel : Nat) (hm : m ≤ s.limit) :
    (driveFor accepts fuel (s.withLimit m)).1 = cutOff m (driveFor accepts fuel s).1 ∧
    (AllOk (driveFor accepts fuel (s.withLimit m)).1 →
      (driveFor accepts fuel (s.withLimit m)).2 = (driveFor accepts fuel s).2.withLimit m) := by
  induction fuel generalizing s with
  | zero => exact ⟨rfl, fun _ => rfl⟩
  | succ fuel ih =>
    rcases next_withLimit hm with ⟨r, t, hnext, hle, hnext'⟩ | ⟨a, t, t', hnext, hlt, hnext'⟩
    · have hkeep (as : List Answer) : cutOff m (.ok r :: as) = .ok r :: cutOff m as :=
        if_neg (Nat.not_lt.2 hle)
      by_cases hr : r.candidates = []
      · rw [driveFor_empty hnext hr, driveFor_empty hnext' hr]
        exact ⟨(hkeep []).symm, fun _ => rfl⟩
      · have hlimit : m ≤ (t.recordAll accepts r.candidates).limit := by
          obtain ⟨number, finished, rfl⟩ := exists_of_next hnext
          rwa [recordAll_limit]
        obtain ⟨hrounds, hlast⟩ := ih hlimit
        rw [driveFor_round hnext hr, driveFor_round hnext' hr, recordAll_withLimit, hkeep, hrounds]
        refine ⟨rfl, fun hok => hlast ?_⟩
        rw [hrounds]
        exact fun e he => hok e (List.mem_cons_of_mem _ he)
    · -- the smaller limit stops here, whatever the greater one does
      rw [driveFor_error hnext']
      refine ⟨?_, fun hok => absurd List.mem_cons_self (hok _)⟩
      have hcut (as : List Answer) : cutOff m (a :: as) = [.error ⟨_, _, m⟩] := if_pos hlt
      rcases a with e | r
      · rw [driveFor_error hnext, hcut]
      · have hr : r.candidates ≠ [] := List.ne_nil_of_length_pos (Nat.zero_lt_of_lt hlt)
        rw [driveFor_round hnext hr, hcut]

/-- Of two limits, the smaller one only cuts the run off, at the first round with more candidates:
that round fails, and says its number, its candidates and the limit. All that was proposed before
has been recorded. A run that is not cut off is the run under the greater limit and ends as that
does. Every run comes to an end, with a round that is empty or fails. -/
theorem limit_cuts_off (n : Nat) {limit limit' : Nat} (hle : limit ≤ limit')
    (accepts : Combination → Bool) :
    let small := drive accepts (start n limit)
    let large := drive accepts (start n limit')
    small.1 = cutOff limit large.1 ∧
    (AllOk small.1 → large.1 = small.1 ∧ large.2.accepted = small.2.accepted ∧
      large.2.rejected = small.2.rejected ∧ large.2.best? = small.2.best?) ∧
    small.2.accepted = (small.1.flatMap Answer.candidates).filter accepts ∧
    (∀ c, c ∈ small.2.rejected ↔
      c ∈ small.1.flatMap Answer.candidates ∧ accepts c = false) ∧
    (∃ a, small.1.getLast? = some a ∧ Answer.candidates a = []) ∧
    ∃ a, large.1.getLast? = some a ∧ Answer.candidates a = [] := by
  intro small large
  obtain ⟨hrounds, hlast⟩ : small.1 = cutOff limit large.1 ∧
      (AllOk small.1 → small.2 = large.2.withLimit limit) :=
    driveFor_withLimit (s := start n limit') accepts (Nat.pow 2 n + 2) hle
  obtain ⟨haccepted, hrejected⟩ := drive_records accepts n limit
  refine ⟨hrounds, fun hok => ?_, haccepted, hrejected, drive_ends accepts n limit,
    drive_ends accepts n limit'⟩
  have hsame : large.1 = small.1 := by
    rw [hrounds] at hok ⊢
    exact (Answer.cutOff_eq_self hok).symm
  rw [hlast hok]
  exact ⟨hsame, rfl, rfl, rfl⟩

def alone (c : Combination) : Bool := c.size == 1

theorem limit_cuts_off_pairs :
    4 ≤ 6 ∧ (drive alone (start 4 4)).1.getLast? = some (.error ⟨3, 6, 4⟩) ∧
      (drive alone (start 4 4)).1 = cutOff 4 (drive alone (start 4 6)).1 ∧
      AllOk (drive alone (start 4 6)).1 ∧
      (drive alone (start 4 9)).1 = (drive alone (start 4 6)).1 ∧
      (drive alone (start 4 9)).2.best? = (drive alone (start 4 6)).2.best? := by
  have hle : 4 ≤ 6 := by decide
  have herror : (drive alone (start 4 4)).1.getLast? = some (.error ⟨3, 6, 4⟩) := by
    decide +kernel
  have hrounds : (drive alone (start 4 6)).1.all (fun a => a.toOption.isSome) = true := by
    decide +kernel
  have hok : AllOk (drive alone (start 4 6)).1 := by
    intro e he
    cases List.all_eq_true.1 hrounds _ he
  have hcut := (limit_cuts_off 4 hle alone).1
  have hsame := (limit_cuts_off 4 (show 6 ≤ 9 by decide) alone).2.1 hok
  exact ⟨hle, herror, hcut, hok, hsame.1, hsame.2.2.2⟩

end Search

end TreeQuery.Combination
