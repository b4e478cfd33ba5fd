import TreeQuery.Proofs.Combination.Round

/-!
# The best combination

Of the combinations that passed, `best?` is the latest among those of the greatest size
(`best?_eq_some_iff`).
-/

namespace TreeQuery.Combination.Search

variable {s : Search} {b c : Combination} {cs : List Combination}

def better (best : Option Combination) (c : Combination) : Option Combination :=
  match best with
  | some b => if b.size ≤ c.size then some c else some b
  | none => some c

/-- None is greater, and none of those behind it is as great. -/
def LatestGreatest (b : Combination) (cs : List Combination) : Prop :=
  ∃ before after, cs = before ++ b :: after ∧ (∀ c ∈ before, c.size ≤ b.size) ∧
    ∀ c ∈ after, c.size < b.size

theorem not_latestGreatest_nil : ¬ LatestGreatest b [] := by
  rintro ⟨before, after, he, -⟩
  simp at he

theorem latestGreatest_concat : LatestGreatest b (cs ++ [c]) ↔
    (b = c ∧ ∀ d ∈ cs, d.size ≤ c.size) ∨ (LatestGreatest b cs ∧ c.size < b.size) := by
  constructor
  · rintro ⟨before, after, he, hbefore, hafter⟩
    rcases List.eq_nil_or_concat' after with rfl | ⟨after, d, rfl⟩
    · obtain ⟨rfl, hc⟩ := List.append_inj' he rfl
      cases hc
      exact .inl ⟨rfl, hbefore⟩
    · rw [← List.cons_append, ← List.append_assoc] at he
      obtain ⟨rfl, hc⟩ := List.append_inj' he rfl
      cases hc
      refine .inr ⟨⟨before, after, rfl, hbefore, fun d hd => ?_⟩, hafter c (by simp)⟩
      exact hafter d (List.mem_append_left _ hd)
  · rintro (⟨rfl, hle⟩ | ⟨⟨before, after, rfl, hbefore, hafter⟩, hlt⟩)
    · exact ⟨cs, [], rfl, hle, nofun⟩
    · refine ⟨before, after ++ [c], by simp, hbefore, fun d hd => ?_⟩
      rcases List.mem_append.1 hd with hd | hd
      · exact hafter d hd
      · rwa [List.mem_singleton.1 hd]

theorem LatestGreatest.mem (h : LatestGreatest b cs) : b ∈ cs := by
  obtain ⟨before, after, rfl, -⟩ := h
  simp

theorem LatestGreatest.size_le (h : LatestGreatest b cs) : ∀ c ∈ cs, c.size ≤ b.size := by
  obtain ⟨before, after, rfl, hbefore, hafter⟩ := h
  intro c hc
  rcases List.mem_append.1 hc with hc | hc
  · exact hbefore c hc
  · rcases List.mem_cons.1 hc with rfl | hc
    · exact Nat.le_refl _
    · exact (hafter c hc).le

theorem foldl_better_eq_none_iff : cs.foldl better none = none ↔ cs = [] := by
  rcases List.eq_nil_or_concat' cs with rfl | ⟨cs, c, rfl⟩
  · simp
  · rw [List.foldl_concat]
    cases cs.foldl better none with
    | none => simp [better]
    | some d =>
      dsimp only [better]
      split <;> simp

theorem foldl_better_eq_some_iff : cs.foldl better none = some b ↔ LatestGreatest b cs := by
  induction cs using List.reverseRecOn generalizing b with
  | nil => simp [not_latestGreatest_nil]
  | append_singleton cs c ih =>
    rw [List.foldl_concat, latestGreatest_concat, ← ih]
    cases hbest : cs.foldl better none with
    | none =>
      obtain rfl := foldl_better_eq_none_iff.1 hbest
      simp [better, eq_comm]
    | some d =>
      have hd := ih.1 hbest
      have hgreatest : (∀ e ∈ cs, e.size ≤ c.size) ↔ d.size ≤ c.size :=
        ⟨fun h => h d hd.mem, fun h e he => (hd.size_le e he).trans h⟩
      rw [hgreatest, Option.some.injEq]
      dsimp only [better]
      split <;> grind

theorem best?_eq_none_iff : s.best? = none ↔ s.accepted = [] := foldl_better_eq_none_iff

theorem best?_eq_some_iff : s.best? = some b ↔ LatestGreatest b s.accepted :=
  foldl_better_eq_some_iff

theorem best?_eq_some (h : s.best? = some b) :
    b ∈ s.accepted ∧ ∀ c ∈ s.accepted, c.size ≤ b.size :=
  ⟨(best?_eq_some_iff.1 h).mem, (best?_eq_some_iff.1 h).size_le⟩

end TreeQuery.Combination.Search
