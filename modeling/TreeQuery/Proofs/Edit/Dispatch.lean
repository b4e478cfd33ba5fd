import TreeQuery.Edit.Dispatch
import TreeQuery.Match.Judge

/-!
# A dispatch admits every node that fits

`Dispatch.admits_of_judge`: where a pattern fits a node, whatever was captured before, the
dispatch of the pattern admits the tag of the node. A pass that skips the other nodes therefore
misses nothing. The converse does not hold: a dispatch looks at tags alone.
-/

namespace TreeQuery.Dispatch

variable {name tag : String}

-- ---------------------------------------------------------------------------
-- Sets of tags
-- ---------------------------------------------------------------------------

theorem mem_insert {xs : List String} : tag ∈ insert name xs ↔ tag = name ∨ tag ∈ xs := by
  induction xs with
  | nil => simp [insert]
  | cons x xs ih =>
    unfold insert
    split
    · simp
    · split
      · next h => simp [h]
      · simp [ih, or_left_comm]

theorem mem_union {xs ys : List String} : tag ∈ union xs ys ↔ tag ∈ xs ∨ tag ∈ ys := by
  induction ys generalizing xs with
  | nil => simp [union]
  | cons y ys ih =>
    rw [union, List.foldl_cons, ← union, ih, mem_insert, List.mem_cons, or_assoc, or_left_comm]

@[simp] theorem admits_any : admits .any tag = true := rfl

@[simp] theorem admits_tags {names : List String} :
    (tags names).admits tag = true ↔ tag ∈ names := by
  simp [admits]

theorem admits_join {d e : Dispatch} :
    (join d e).admits tag = true ↔ d.admits tag = true ∨ e.admits tag = true := by
  cases d <;> cases e <;> simp [join, mem_union]

theorem admits_meet {d e : Dispatch} :
    (meet d e).admits tag = true ↔ d.admits tag = true ∧ e.admits tag = true := by
  cases d <;> cases e <;> simp [meet]

-- ---------------------------------------------------------------------------
-- Patterns
-- ---------------------------------------------------------------------------

theorem admits_of_fits {l : Literal} {s : Site} (hs : s.tree.tag? = some tag)
    (h : l.fits (some s) = true) : (ofPattern (.literal l)).admits tag = true := by
  obtain ⟨above, t⟩ := s
  cases t with
  | leaf a sp => simp [Tree.tag?] at hs
  | node name cs sp =>
    obtain rfl : name = tag := by simpa [Tree.tag?] using hs
    cases l with
    | sym name' =>
      have : name = name' := by simpa [Literal.fits] using h
      simp [ofPattern, this]
    | value v =>
      cases v with
      | leaf b sp' => simp [Literal.fits, Tree.same] at h
      | node name' ds sp' =>
        have : name' = name := by
          simp only [Literal.fits, Tree.same, Bool.and_eq_true, beq_iff_eq] at h
          exact h.1.symm
        simp [ofPattern, this]
    | _ => simp [Literal.fits, Target.isAbsent, Tree.isNil] at h

theorem isAbsent_of_tag {s : Site} (hs : s.tree.tag? = some tag) :
    Target.isAbsent (some s) = false := by
  obtain ⟨above, t⟩ := s
  cases t with
  | leaf a sp => simp [Tree.tag?] at hs
  | node name cs sp => rfl

mutual
theorem admits_of_judge : ∀ (p : Pattern) {s : Site} {captures after : List Site},
    s.tree.tag? = some tag → p.judge (some s) captures = some after →
    (ofPattern p).admits tag = true
  | .wildcard, _, _, _, _, _ => rfl
  | .nonempty, _, _, _, _, _ => rfl
  | .negation _, _, _, _, _, _ => rfl
  | .child _, _, _, _, _, _ => rfl
  | .backref _, _, _, _, _, _ => rfl
  | .literal l, s, captures, after, hs, h =>
    admits_of_fits hs (Pattern.keep_eq_some_iff.1 h).1
  | .sequence ps, s, captures, after, hs, h => by
    simp only [Pattern.judge] at h
    split at h
    · exact admits_of_judgeForm ps hs h
    · cases h
  | .union ps, s, captures, after, hs, h => admits_of_judgeSome ps hs h
  | .every ps, s, captures, after, hs, h => admits_of_judgeEvery ps hs h
  | .capture p, s, captures, after, hs, h => by
    obtain ⟨inner, hi, -⟩ := Option.map_eq_some_iff.1 h
    exact admits_of_judge p hs hi
  | .optional p, s, captures, after, hs, h => by
    simp only [Pattern.judge, isAbsent_of_tag hs, Bool.false_eq_true, ↓reduceIte] at h
    exact admits_of_judge p hs h
theorem admits_of_judgeForm : ∀ (ps : List Pattern) {s : Site} {captures after : List Site},
    s.tree.tag? = some tag → Pattern.judgeForm ps s captures = some after →
    (ofHead ps).admits tag = true
  | [], _, _, _, _, _ => rfl
  | p :: _, s, captures, after, hs, h => by
    obtain ⟨inner, hi, -⟩ := Option.bind_eq_some_iff.1 h
    exact admits_of_judge p hs hi
theorem admits_of_judgeSome : ∀ (ps : List Pattern) {s : Site} {captures after : List Site},
    s.tree.tag? = some tag → Pattern.judgeSome ps (some s) captures = some after →
    (ofUnion ps).admits tag = true
  | [], _, _, _, _, h => by cases h
  | p :: ps, s, captures, after, hs, h => by
    rw [ofUnion, admits_join]
    simp only [Pattern.judgeSome] at h
    split at h
    · next inner hi => exact .inl (admits_of_judge p hs hi)
    · exact .inr (admits_of_judgeSome ps hs h)
theorem admits_of_judgeEvery : ∀ (ps : List Pattern) {s : Site} {captures after : List Site},
    s.tree.tag? = some tag → Pattern.judgeEvery ps (some s) captures = some after →
    (ofEvery ps).admits tag = true
  | [], _, _, _, _, _ => rfl
  | p :: ps, s, captures, after, hs, h => by
    rw [ofEvery, admits_meet]
    obtain ⟨inner, hi, hr⟩ := Option.bind_eq_some_iff.1 h
    exact ⟨admits_of_judge p hs hi, admits_of_judgeEvery ps hs hr⟩
end

end TreeQuery.Dispatch
