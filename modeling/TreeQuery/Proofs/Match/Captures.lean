import TreeQuery.Match.Search

/-!
# How much a fit captures

A fit adds captures behind those that were there: at most one for each capture mark of the pattern,
and exactly one if no mark can be passed by and none stands before something that may be absent
(`gains_of_judge`). So the number of captures of an occurrence is bounded by what is known of the
pattern alone (`Query.captures_of_match`).
-/

namespace TreeQuery.Pattern

variable {p : Pattern} {target : Target} {captures after inner : List Site} {m n : Nat}
  {d e : Bool}

-- ---------------------------------------------------------------------------
-- Patterns that may fit where nothing is
-- ---------------------------------------------------------------------------

mutual
/-- The pattern may fit a missing child, as far as its outer form tells. -/
def mayBeAbsent : Pattern → Bool
  | .literal .nil | .optional _ | .negation _ => true
  | .union ps => someMayBeAbsent ps
  | .every ps => allMayBeAbsent ps
  | .capture p => mayBeAbsent p
  | .wildcard | .nonempty | .literal _ | .sequence _ | .child _ | .backref _ => false
def someMayBeAbsent : List Pattern → Bool
  | [] => false
  | p :: ps => mayBeAbsent p || someMayBeAbsent ps
def allMayBeAbsent : List Pattern → Bool
  | [] => true
  | p :: ps => mayBeAbsent p && allMayBeAbsent ps
end

mutual
theorem judge_none : ∀ (p : Pattern) (captures : List Site), p.mayBeAbsent = false →
    p.judge none captures = none
  | .wildcard, _, _ | .nonempty, _, _ | .sequence _, _, _ | .child _, _, _ => by rfl
  | .backref _, _, _ => by
    rw [judge, isRepeat]
    · rfl
    · exact nofun
  | .literal l, _, h => by
    cases l with
    | nil => cases h
    | _ => rfl
  | .union ps, captures, h => judgeSome_none ps captures h
  | .every ps, captures, h => judgeEvery_none ps captures h
  | .capture p, captures, h => by
    rw [judge, judge_none p captures h]
    rfl
theorem judgeSome_none : ∀ (ps : List Pattern) (captures : List Site),
    someMayBeAbsent ps = false → judgeSome ps none captures = none
  | [], _, _ => rfl
  | p :: ps, captures, h => by
    obtain ⟨hp, hps⟩ := Bool.or_eq_false_iff.1 h
    rw [judgeSome, judge_none p captures hp]
    exact judgeSome_none ps captures hps
theorem judgeEvery_none : ∀ (ps : List Pattern) (captures : List Site),
    allMayBeAbsent ps = false → judgeEvery ps none captures = none
  | [], _, h => by cases h
  | p :: ps, captures, h => by
    rw [judgeEvery]
    rcases Bool.and_eq_false_iff.1 h with hp | hps
    · rw [judge_none p captures hp]
      rfl
    · cases p.judge none captures with
      | none => rfl
      | some inner => exact judgeEvery_none ps inner hps
end

-- ---------------------------------------------------------------------------
-- How many captures a fit adds
-- ---------------------------------------------------------------------------

mutual
/-- No capture mark stands below a union, a negation or an option, where it can be passed by, and
none before a pattern that may fit a missing child. -/
def isDefinite : Pattern → Bool
  | .wildcard | .nonempty | .literal _ | .backref _ => true
  | .sequence ps | .every ps => allDefinite ps
  | .union ps => capturesList ps == 0
  | .negation p | .optional p => p.captures == 0
  | .child p => isDefinite p
  | .capture p => !p.mayBeAbsent && isDefinite p
def allDefinite : List Pattern → Bool
  | [] => true
  | p :: ps => isDefinite p && allDefinite ps
end

/-- The captures are kept, and at most so many are added behind them; if `exact`, just so many. -/
structure Gains (n : Nat) (exact : Bool) (captures after : List Site) : Prop where
  isPrefix : captures <+: after
  length_le : after.length ≤ captures.length + n
  length_eq : exact = true → after.length = captures.length + n

namespace Gains

theorem refl (captures : List Site) : Gains 0 true captures captures :=
  ⟨List.prefix_refl _, Nat.le_refl _, fun _ => rfl⟩

theorem trans (h : Gains m d captures inner) (h' : Gains n e inner after) :
    Gains (m + n) (d && e) captures after := by
  refine ⟨h.isPrefix.trans h'.isPrefix, ?_, fun hde => ?_⟩
  · have := h.length_le
    have := h'.length_le
    omega
  · obtain ⟨hd, he⟩ := Bool.and_eq_true_iff.1 hde
    have := h.length_eq hd
    have := h'.length_eq he
    omega

theorem weaken (h : Gains m d captures after) (hmn : m ≤ n) (he : e = true → n = 0) :
    Gains n e captures after := by
  have hle := h.length_le
  refine ⟨h.isPrefix, by omega, fun hexact => ?_⟩
  have := h.isPrefix.length_le
  have := he hexact
  omega

theorem capture (h : Gains n d captures inner) (target : Target)
    (he : e = true → target ≠ none ∧ d = true) :
    Gains (n + 1) e captures (captures ++ target.toList ++ inner.drop captures.length) := by
  have hinner := h.isPrefix.length_le
  have hle := h.length_le
  have hlength : (captures ++ target.toList ++ inner.drop captures.length).length =
      target.toList.length + inner.length := by
    simp only [List.length_append, List.length_drop]
    omega
  refine ⟨?_, ?_, fun hexact => ?_⟩
  · rw [List.append_assoc]
    exact List.prefix_append _ _
  · have : target.toList.length ≤ 1 := by cases target <;> simp
    omega
  · obtain ⟨htarget, hd⟩ := he hexact
    obtain ⟨s, rfl⟩ := Option.ne_none_iff_exists'.1 htarget
    have := h.length_eq hd
    rw [hlength, Option.toList_some, List.length_singleton]
    omega

end Gains

mutual
theorem gains_of_judge : ∀ (p : Pattern) {target : Target} {captures after : List Site},
    p.judge target captures = some after → Gains p.captures p.isDefinite captures after
  | .wildcard, _, _, _, h | .nonempty, _, _, _, h | .literal _, _, _, _, h
  | .backref _, _, _, _, h => (keep_eq_some_iff.1 h).2 ▸ .refl _
  | .negation p, _, captures, _, h =>
    (keep_eq_some_iff.1 h).2 ▸ (Gains.refl captures).weaken (Nat.zero_le _) beq_iff_eq.1
  | .sequence ps, none, _, _, h => by cases h
  | .sequence ps, some s, captures, after, h => by
    rw [judge] at h
    split at h
    · exact gains_of_judgeForm ps h
    · cases h
  | .union ps, _, _, _, h => gains_of_judgeSome ps h
  | .every ps, _, _, _, h => gains_of_judgeEvery ps h
  | .capture p, target, captures, after, h => by
    obtain ⟨inner, hi, rfl⟩ := Option.map_eq_some_iff.1 h
    refine (gains_of_judge p hi).capture target fun hexact => ?_
    obtain ⟨habsent, hd⟩ := Bool.and_eq_true_iff.1 hexact
    refine ⟨?_, hd⟩
    rintro rfl
    rw [judge_none p captures (by simpa using habsent)] at hi
    cases hi
  | .optional p, target, captures, after, h => by
    rw [judge] at h
    split at h
    · cases h
      exact (Gains.refl captures).weaken (Nat.zero_le _) beq_iff_eq.1
    · exact (gains_of_judge p h).weaken (Nat.le_refl _) beq_iff_eq.1
  | .child p, none, _, _, h => by cases h
  | .child p, some s, captures, after, h => by
    obtain ⟨c, -, hc⟩ := List.exists_of_findSome?_eq_some h
    exact gains_of_judge p hc
theorem gains_of_judgeForm : ∀ (ps : List Pattern) {s : Site} {captures after : List Site},
    judgeForm ps s captures = some after →
    Gains (capturesList ps) (allDefinite ps) captures after
  | [], _, _, _, h => by
    cases h
    exact .refl _
  | p :: ps, s, captures, after, h => by
    obtain ⟨inner, hi, hr⟩ := Option.bind_eq_some_iff.1 h
    exact (gains_of_judge p hi).trans (gains_of_judgeChildren ps hr)
theorem gains_of_judgeChildren : ∀ (ps : List Pattern) {cs captures after : List Site},
    judgeChildren ps cs captures = some after →
    Gains (capturesList ps) (allDefinite ps) captures after
  | [], _, _, _, h => by
    cases h
    exact .refl _
  | p :: ps, cs, captures, after, h => by
    by_cases hp : p = .nonempty
    · subst hp
      rw [judgeChildren] at h
      split at h
      · cases h
      · exact (Gains.refl captures).trans (gains_of_judgeChildren ps h)
    · rw [judgeChildren] at h
      · obtain ⟨inner, hi, hr⟩ := Option.bind_eq_some_iff.1 h
        exact (gains_of_judge p hi).trans (gains_of_judgeChildren ps hr)
      · exact hp
theorem gains_of_judgeSome : ∀ (ps : List Pattern) {target : Target}
    {captures after : List Site}, judgeSome ps target captures = some after →
    Gains (capturesList ps) (capturesList ps == 0) captures after
  | [], _, _, _, h => by cases h
  | p :: ps, target, captures, after, h => by
    rw [judgeSome] at h
    split at h
    · next inner hi =>
      cases h
      exact (gains_of_judge p hi).weaken (Nat.le_add_right _ _) beq_iff_eq.1
    · exact (gains_of_judgeSome ps h).weaken (Nat.le_add_left _ _) beq_iff_eq.1
theorem gains_of_judgeEvery : ∀ (ps : List Pattern) {target : Target}
    {captures after : List Site}, judgeEvery ps target captures = some after →
    Gains (capturesList ps) (allDefinite ps) captures after
  | [], _, _, _, h => by
    cases h
    exact .refl _
  | p :: ps, target, captures, after, h => by
    obtain ⟨inner, hi, hr⟩ := Option.bind_eq_some_iff.1 h
    exact (gains_of_judge p hi).trans (gains_of_judgeEvery ps hr)
end

end TreeQuery.Pattern

namespace TreeQuery.Query

/-- A fit on a node yields no captures if the pattern has no capture marks, and otherwise at most
one for each mark. It yields exactly one for each if no mark stands below a union, a negation or an
option, and none before a pattern that may fit a missing child. -/
theorem captures_of_match (q : Query) (t : Tree) (h : (q.matchTree t).isMatch = true) :
    (q.captures = 0 → q.matchTree t = .matched) ∧
    (q.captures ≠ 0 → ∃ sites, q.matchTree t = .captures sites ∧ sites.length ≤ q.captures) ∧
    (q.root.isDefinite = true → (q.matchTree t).sites.length = q.captures) := by
  unfold matchTree matchSite at h ⊢
  cases hj : q.root.judge (some (Site.root t)) [] with
  | none =>
    rw [hj] at h
    cases h
  | some sites =>
    have hgains := Pattern.gains_of_judge q.root hj
    dsimp only
    refine ⟨fun hzero => if_pos hzero, fun hpos => ⟨sites, if_neg hpos, ?_⟩, fun hdefinite => ?_⟩
    · simpa [captures] using hgains.length_le
    · have hlength : sites.length = q.captures := by
        simpa [captures] using hgains.length_eq hdefinite
      split
      · next hzero => exact hzero.symm
      · exact hlength

theorem captures_of_match_two :
    let q : Query := .ofPattern <| .sequence [.capture (.literal (.sym "f")),
      .union [.literal .nil, .wildcard], .capture (.child .wildcard), .optional .wildcard]
    let t : Tree := .node "f" [.leaf (.sym "a") none, .node "g" [.node "h" [] none] none] none
    (q.matchTree t).isMatch = true ∧ q.root.isDefinite = true ∧
      (q.captures = 0 → q.matchTree t = .matched) ∧
      (∃ sites, q.matchTree t = .captures sites ∧ sites.length ≤ q.captures) ∧
      (q.matchTree t).sites.length = q.captures := by
  intro q t
  have hmatch : (q.matchTree t).isMatch = true := by decide
  have hdefinite : q.root.isDefinite = true := by decide
  obtain ⟨hnone, hsome, hexact⟩ := captures_of_match q t hmatch
  exact ⟨hmatch, hdefinite, hnone, hsome (by decide), hexact hdefinite⟩

end TreeQuery.Query
