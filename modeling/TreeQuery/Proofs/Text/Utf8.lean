import TreeQuery.Text.Utf8

/-!
# Boundaries

A character boundary is the width of a beginning of the text, and two boundaries in order split the
text into three parts.
-/

namespace TreeQuery.Text

variable {a b c d cs : List Char} {m n : Nat}

theorem width_eq_zero : width cs = 0 ↔ cs = [] := by
  cases cs with
  | nil => simp
  | cons c cs =>
    have := c.utf8Size_pos
    simp only [width_cons, reduceCtorEq, iff_false]
    omega

theorem cut?_append (a b : List Char) : cut? (width a) (a ++ b) = some (a, b) :=
  (cut?_eq_some_iff _ _ _ _).2 ⟨rfl, rfl⟩

theorem slice?_append (a b c : List Char) :
    slice? (width a) (width a + width b) (a ++ (b ++ c)) = some b := by
  simp [slice?, cut?_append]

theorem slice?_front (h : cs = a ++ b) : slice? 0 (width a) cs = some a := by
  have hslice := slice?_append [] a b
  rwa [List.nil_append, ← h, width_nil, Nat.zero_add] at hslice

theorem slice?_behind (h : cs = a ++ b) : slice? (width a) (width cs) cs = some b := by
  have hslice := slice?_append a b []
  rwa [List.append_nil, ← width_append, ← h] at hslice

/-- A slice is what stands between two parts of the text, each of the right width. -/
theorem slice?_eq_some_iff : slice? m n cs = some b ↔
    ∃ a c, cs = a ++ (b ++ c) ∧ width a = m ∧ m + width b = n := by
  constructor
  · intro h
    rw [slice?] at h
    split at h
    · next hle =>
      obtain ⟨⟨a, rest⟩, ha, h⟩ := Option.bind_eq_some_iff.1 h
      obtain ⟨⟨b', c⟩, hb, he⟩ := Option.map_eq_some_iff.1 h
      obtain rfl : b' = b := he
      obtain ⟨rfl, rfl⟩ := (cut?_eq_some_iff _ _ _ _).1 ha
      obtain ⟨rfl, hwidth⟩ := (cut?_eq_some_iff _ _ _ _).1 hb
      exact ⟨a, c, rfl, rfl, by omega⟩
    · cases h
  · rintro ⟨a, c, rfl, rfl, rfl⟩
    exact slice?_append a b c

theorem isBoundary_iff : isBoundary n cs = true ↔ ∃ a b, cs = a ++ b ∧ width a = n := by
  simp [isBoundary, Option.isSome_iff_exists, cut?_eq_some_iff]

theorem isBoundary_append (a b : List Char) : isBoundary (width a) (a ++ b) = true :=
  isBoundary_iff.2 ⟨a, b, rfl, rfl⟩

theorem le_width_of_isBoundary (h : isBoundary n cs = true) : n ≤ width cs := by
  obtain ⟨a, b, rfl, rfl⟩ := isBoundary_iff.1 h
  simp

theorem exists_append_of_width_le (h : a ++ b = c ++ d) (hw : width a ≤ width c) :
    ∃ mid, c = a ++ mid ∧ b = mid ++ d := by
  rcases List.append_eq_append_iff.1 h with ⟨mid, rfl, rfl⟩ | ⟨mid, rfl, rfl⟩
  · exact ⟨mid, rfl, rfl⟩
  · have : mid = [] := width_eq_zero.1 (by simp at hw; omega)
    subst this
    exact ⟨[], by simp, by simp⟩

theorem exists_of_isBoundary_append (h : isBoundary n (a ++ b) = true) (hn : width a ≤ n) :
    ∃ mid rest, b = mid ++ rest ∧ width (a ++ mid) = n := by
  obtain ⟨c, d, hcd, rfl⟩ := isBoundary_iff.1 h
  obtain ⟨mid, rfl, rfl⟩ := exists_append_of_width_le hcd hn
  exact ⟨mid, d, rfl, rfl⟩

end TreeQuery.Text
