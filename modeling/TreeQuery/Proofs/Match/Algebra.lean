import Mathlib.Data.List.Forall2
import TreeQuery.Proofs.Match.Attempt

/-!
# The algebra of patterns without capture marks

A pattern without capture marks leaves the captures as they are. So a union of such patterns is the
disjunction of their verdicts, `[...]` is the conjunction, and what holds of these holds of groups:
the order and the number of the members do not matter, groups of one kind are flattened, and a
negation moves to the members (`Law`). None of this is noticed within a larger pattern, which may
have capture marks elsewhere (`law_unseen`).
-/

namespace TreeQuery.Pattern

variable {p q : Pattern} {ps qs rs : List Pattern} {target : Target} {captures : List Site}

theorem captures_sequence : (sequence ps).captures = capturesList ps := by
  rw [Pattern.captures]

theorem captures_union : (union ps).captures = capturesList ps := by
  rw [Pattern.captures]

theorem captures_every : (every ps).captures = capturesList ps := by
  rw [Pattern.captures]

theorem captures_group (b : Bracket) : (group b ps).captures = capturesList ps := by
  cases b
  · exact captures_sequence
  · exact captures_every
  · exact captures_union

theorem capturesList_eq_zero_iff : capturesList ps = 0 ↔ ∀ p ∈ ps, p.captures = 0 := by
  induction ps with
  | nil => simp [capturesList]
  | cons p ps ih => simp [capturesList, ih]

theorem captures_negation : (negation p).captures = p.captures := by
  rw [Pattern.captures]

-- ---------------------------------------------------------------------------
-- Verdicts
-- ---------------------------------------------------------------------------

def fits (p : Pattern) (target : Target) (captures : List Site) : Bool :=
  (p.judge target captures).isSome

theorem judge_eq_keep (h : p.captures = 0) :
    p.judge target captures = keep (p.fits target captures) captures := by
  unfold fits
  cases hjudge : p.judge target captures with
  | none => rfl
  | some after =>
    have hgains := gains_of_judge p hjudge
    have hle := hgains.length_le
    rw [h] at hle
    rw [hgains.isPrefix.eq_of_length_le hle]
    rfl

theorem fits_negation : (negation p).fits target captures = !p.fits target captures := by
  unfold fits
  rw [judge]
  cases p.judge target captures <;> rfl

theorem judgeSome_eq_keep (h : ∀ p ∈ ps, p.captures = 0) :
    judgeSome ps target captures = keep (ps.any (·.fits target captures)) captures := by
  induction ps with
  | nil => rfl
  | cons p ps ih =>
    obtain ⟨hp, hps⟩ := List.forall_mem_cons.1 h
    rw [judgeSome_cons, judge_eq_keep hp, ih hps, List.any_cons]
    cases p.fits target captures <;> rfl

theorem judgeEvery_eq_keep (h : ∀ p ∈ ps, p.captures = 0) :
    judgeEvery ps target captures = keep (ps.all (·.fits target captures)) captures := by
  induction ps with
  | nil => rfl
  | cons p ps ih =>
    obtain ⟨hp, hps⟩ := List.forall_mem_cons.1 h
    rw [judgeEvery, judge_eq_keep hp, List.all_cons]
    cases p.fits target captures with
    | false => rfl
    | true => exact ih hps

theorem fits_union (h : (union ps).captures = 0) :
    (union ps).fits target captures = ps.any (·.fits target captures) := by
  rw [captures_union, capturesList_eq_zero_iff] at h
  rw [fits, judge, judgeSome_eq_keep h]
  cases ps.any (·.fits target captures) <;> rfl

theorem fits_every (h : (every ps).captures = 0) :
    (every ps).fits target captures = ps.all (·.fits target captures) := by
  rw [captures_every, capturesList_eq_zero_iff] at h
  rw [fits, judge, judgeEvery_eq_keep h]
  cases ps.all (·.fits target captures) <;> rfl

-- ---------------------------------------------------------------------------
-- Laws
-- ---------------------------------------------------------------------------

/-- Groups and negations, and what may stand in their place. -/
inductive Law : Pattern → Pattern → Prop
  | unionMembers {ps qs : List Pattern} : (∀ p, p ∈ ps ↔ p ∈ qs) → Law (.union ps) (.union qs)
  | everyMembers {ps qs : List Pattern} : (∀ p, p ∈ ps ↔ p ∈ qs) → Law (.every ps) (.every qs)
  | unionNested (ps qs rs : List Pattern) :
      Law (.union (ps ++ .union qs :: rs)) (.union (ps ++ qs ++ rs))
  | everyNested (ps qs rs : List Pattern) :
      Law (.every (ps ++ .every qs :: rs)) (.every (ps ++ qs ++ rs))
  | negatedUnion (ps : List Pattern) : Law (.negation (.union ps)) (.every (ps.map .negation))
  | negatedEvery (ps : List Pattern) : Law (.negation (.every ps)) (.union (ps.map .negation))

namespace Law

theorem captures_eq_zero (h : Law p q) (hp : p.captures = 0) : q.captures = 0 := by
  cases h with
  | unionMembers hmem | everyMembers hmem =>
    simp only [captures_union, captures_every, capturesList_eq_zero_iff] at hp ⊢
    exact fun p hmember => hp p ((hmem p).2 hmember)
  | unionNested ps qs rs | everyNested ps qs rs =>
    simp only [captures_union, captures_every, capturesList_eq_zero_iff, List.forall_mem_append,
      List.forall_mem_cons] at hp ⊢
    exact ⟨⟨hp.1, hp.2.1⟩, hp.2.2⟩
  | negatedUnion ps | negatedEvery ps =>
    simp only [captures_union, captures_every, captures_negation, capturesList_eq_zero_iff,
      List.forall_mem_map] at hp ⊢
    exact hp

theorem fits_eq (h : Law p q) (hp : p.captures = 0) :
    p.fits target captures = q.fits target captures := by
  have hq := h.captures_eq_zero hp
  cases h with
  | unionMembers hmem =>
    rw [fits_union hp, fits_union hq, Bool.eq_iff_iff, List.any_eq_true, List.any_eq_true]
    simp only [hmem]
  | everyMembers hmem =>
    rw [fits_every hp, fits_every hq, Bool.eq_iff_iff, List.all_eq_true, List.all_eq_true]
    simp only [hmem]
  | unionNested ps qs rs =>
    have hinner : (union qs).captures = 0 := by
      rw [captures_union, capturesList_eq_zero_iff] at hp
      exact hp _ (by simp)
    rw [fits_union hp, fits_union hq]
    simp [fits_union hinner]
  | everyNested ps qs rs =>
    have hinner : (every qs).captures = 0 := by
      rw [captures_every, capturesList_eq_zero_iff] at hp
      exact hp _ (by simp)
    rw [fits_every hp, fits_every hq]
    simp [fits_every hinner]
  | negatedUnion ps =>
    rw [captures_negation] at hp
    simp [fits_negation, fits_union hp, fits_every hq, List.not_any_eq_all_not, List.all_map,
      Function.comp_def]
  | negatedEvery ps =>
    rw [captures_negation] at hp
    simp [fits_negation, fits_every hp, fits_union hq, List.not_all_eq_any_not, List.any_map,
      Function.comp_def]

theorem judge_eq (h : Law p q) (hp : p.captures = 0) :
    p.judge target captures = q.judge target captures := by
  rw [judge_eq_keep hp, judge_eq_keep (h.captures_eq_zero hp), h.fits_eq hp]

end Law

-- ---------------------------------------------------------------------------
-- Larger patterns
-- ---------------------------------------------------------------------------

inductive Context where
  | hole
  | marker (m : Marker) (inside : Context)
  | member (b : Bracket) (before : List Pattern) (inside : Context) (behind : List Pattern)

def Context.fill : Context → Pattern → Pattern
  | .hole, p => p
  | .marker m inside, p => m.apply (inside.fill p)
  | .member b before inside behind, p => group b (before ++ inside.fill p :: behind)

/-- Either may stand for the other anywhere. A form looks at whether a member is `...`, which among
its children is not judged. -/
structure Interchangeable (p q : Pattern) : Prop where
  judge_eq : ∀ target captures, p.judge target captures = q.judge target captures
  captures_eq : p.captures = q.captures
  nonempty_iff : p = .nonempty ↔ q = .nonempty

theorem Law.interchangeable (h : Law p q) (hp : p.captures = 0) : Interchangeable p q := by
  refine ⟨fun _ _ => h.judge_eq hp, ?_, ?_⟩
  · rw [hp, h.captures_eq_zero hp]
  · cases h <;> simp

namespace Interchangeable

theorem refl (p : Pattern) : Interchangeable p p := ⟨fun _ _ => rfl, rfl, Iff.rfl⟩

theorem judgeChildren_eq (h : List.Forall₂ Interchangeable ps qs) (cs captures : List Site) :
    judgeChildren ps cs captures = judgeChildren qs cs captures := by
  induction h generalizing cs captures with
  | nil => rfl
  | @cons p q ps qs hp _ ih =>
    by_cases hellipsis : p = .nonempty
    · have hq := hp.nonempty_iff.1 hellipsis
      subst hellipsis hq
      rw [judgeChildren, judgeChildren, ih]
    · have hq := mt hp.nonempty_iff.2 hellipsis
      rw [judgeChildren, judgeChildren, hp.judge_eq]
      · simp only [ih]
      · exact hq
      · exact hellipsis

theorem judgeForm_eq (h : List.Forall₂ Interchangeable ps qs) (s : Site) (captures : List Site) :
    judgeForm ps s captures = judgeForm qs s captures := by
  cases h with
  | nil => rfl
  | cons hp hps =>
    rw [judgeForm, judgeForm, hp.judge_eq]
    simp only [judgeChildren_eq hps]

theorem judgeSome_eq (h : List.Forall₂ Interchangeable ps qs) (target : Target)
    (captures : List Site) : judgeSome ps target captures = judgeSome qs target captures := by
  induction h with
  | nil => rfl
  | cons hp _ ih => rw [judgeSome_cons, judgeSome_cons, hp.judge_eq, ih]

theorem judgeEvery_eq (h : List.Forall₂ Interchangeable ps qs) (target : Target)
    (captures : List Site) : judgeEvery ps target captures = judgeEvery qs target captures := by
  induction h generalizing captures with
  | nil => rfl
  | cons hp _ ih =>
    rw [judgeEvery, judgeEvery, hp.judge_eq]
    simp only [ih]

theorem capturesList_eq (h : List.Forall₂ Interchangeable ps qs) :
    capturesList ps = capturesList qs := by
  induction h with
  | nil => rfl
  | cons hp _ ih => rw [capturesList, capturesList, hp.captures_eq, ih]

theorem group (b : Bracket) (h : List.Forall₂ Interchangeable ps qs) :
    Interchangeable (group b ps) (group b qs) := by
  refine ⟨fun target captures => ?_, ?_, ?_⟩
  · cases b with
    | round =>
      show judge (.sequence ps) target captures = judge (.sequence qs) target captures
      cases target with
      | none => rfl
      | some s => rw [judge, judge, judgeForm_eq h]
    | square => exact judgeEvery_eq h target captures
    | curly => exact judgeSome_eq h target captures
  · rw [captures_group, captures_group, capturesList_eq h]
  · cases b <;> simp [Pattern.group]

theorem marker (m : Marker) (h : Interchangeable p q) :
    Interchangeable (m.apply p) (m.apply q) := by
  have hjudge : ∀ target, judge p target = judge q target :=
    fun target => funext (h.judge_eq target)
  refine ⟨fun target captures => ?_, ?_, ?_⟩
  · cases m with
    | child =>
      cases target with
      | none => rfl
      | some s => simp only [Marker.apply, judge, hjudge]
    | _ => simp only [Marker.apply, judge, hjudge]
  · cases m <;> simp only [Marker.apply, Pattern.captures, h.captures_eq]
  · cases m <;> simp [Marker.apply]

theorem fill (h : Interchangeable p q) (c : Context) : Interchangeable (c.fill p) (c.fill q) := by
  induction c with
  | hole => exact h
  | marker m inside ih => exact ih.marker m
  | member b before inside behind ih =>
    have hsame : ∀ ps, List.Forall₂ Interchangeable ps ps := fun ps =>
      List.forall₂_same.2 fun p _ => refl p
    exact group b (List.rel_append (hsame before) (.cons ih (hsame behind)))

theorem attempt_eq (h : Interchangeable p q) (target : Target) (captures : List Site) :
    p.attempt target captures = q.attempt target captures := by
  rw [restores_attempt, restores_attempt, h.judge_eq]

theorem matchSite_eq (h : Interchangeable p q) (source source' : List Char) (s : Site) :
    Query.matchSite ⟨source, p⟩ s = Query.matchSite ⟨source', q⟩ s := by
  unfold Query.matchSite Query.captures
  rw [h.judge_eq, h.captures_eq]

end Interchangeable

/-- A pattern without capture marks leaves the captures as they are, whether it fits or not. For
such patterns the laws hold wherever they are applied: a larger pattern that differs in one of them
has the same verdict on every target and leaves the same captures. -/
theorem law_unseen :
    (∀ p : Pattern, p.captures = 0 → ∀ target captures,
      (p.attempt target captures).2 = captures) ∧
    ∀ p q : Pattern, Law p q → p.captures = 0 → ∀ c : Context,
      (∀ target captures, (c.fill p).judge target captures = (c.fill q).judge target captures ∧
        (c.fill p).attempt target captures = (c.fill q).attempt target captures) ∧
      ∀ source source' t,
        Query.matchTree ⟨source, c.fill p⟩ t = Query.matchTree ⟨source', c.fill q⟩ t := by
  refine ⟨fun p hp target captures => ?_, fun p q h hp c => ?_⟩
  · rw [restores_attempt, judge_eq_keep hp]
    cases p.fits target captures <;> rfl
  · have hfill := (h.interchangeable hp).fill c
    exact ⟨fun target captures =>
        ⟨hfill.judge_eq target captures, hfill.attempt_eq target captures⟩,
      fun source source' t => hfill.matchSite_eq source source' (.root t)⟩

theorem law_unseen_capturing :
    let b : Pattern := .literal (.sym "b")
    let p : Pattern := .negation (.union [.backref 1, b])
    let q : Pattern := .every [.negation (.backref 1), .negation b]
    let c : Context := .member .round [.literal (.sym "f"), .capture .wildcard] .hole []
    let a : Tree := .leaf (.sym "a") none
    let t : Tree := .node "f" [a, .leaf (.sym "c") none] none
    p.captures = 0 ∧ Law p q ∧ (p.attempt none [.root a]).2 = [.root a] ∧
      (c.fill p).judge (some (.root t)) [] = some [⟨[0], a⟩] ∧
      (c.fill q).judge (some (.root t)) [] = some [⟨[0], a⟩] ∧
      Query.matchTree ⟨[], c.fill p⟩ t = Query.matchTree ⟨[], c.fill q⟩ t := by
  intro b p q c a t
  have hplain : p.captures = 0 := rfl
  have hlaw : Law p q := .negatedUnion _
  have hjudge : (c.fill p).judge (some (.root t)) [] = some [⟨[0], a⟩] := rfl
  obtain ⟨hkeeps, hunseen⟩ := law_unseen
  obtain ⟨hsame, houtcome⟩ := hunseen p q hlaw hplain c
  exact ⟨hplain, hlaw, hkeeps p hplain none [.root a], hjudge,
    (hsame (some (.root t)) []).1 ▸ hjudge, houtcome [] [] t⟩

end TreeQuery.Pattern
