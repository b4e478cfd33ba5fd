import Mathlib.Data.List.Forall2
import TreeQuery.Match.Search
import TreeQuery.Proofs.Tree.Spans

/-!
# What matching takes notice of

Of a site matching sees the tree, without its spans, and the sites of its children. So if what it is
given is related by any relation that keeps these (`Likeness`), the verdict is the same, and what it
captures is related in turn (`alike_judge`).
-/

namespace TreeQuery

namespace Tree

variable {t u : Tree}

theorem same_congr (h : t.bare = u.bare) (v : Tree) : t.same v = u.same v := by
  rw [← same_bare, h, same_bare]

theorem same_congr_right (h : t.bare = u.bare) (v : Tree) : v.same t = v.same u := by
  rw [← same_bare, h, same_bare]

theorem bare_eq_cases (h : t.bare = u.bare) :
    (∃ a span span', t = .leaf a span ∧ u = .leaf a span') ∨
    ∃ tag cs ds span span', t = .node tag cs span ∧ u = .node tag ds span' ∧
      bareList cs = bareList ds := by
  cases t with
  | leaf a span =>
    cases u with
    | leaf b span' =>
      cases h
      exact .inl ⟨a, span, span', rfl, rfl⟩
    | node => cases h
  | node tag cs span =>
    cases u with
    | leaf => cases h
    | node tag' ds span' =>
      obtain ⟨rfl, hchildren, -⟩ := Tree.node.inj h
      exact .inr ⟨tag, cs, ds, span, span', rfl, rfl, hchildren⟩

end Tree

variable {s u : Site} {target target' : Target}

theorem Target.isAbsent_congr (h : s.tree.bare = u.tree.bare) :
    isAbsent (some s) = isAbsent (some u) := by
  unfold isAbsent
  obtain ⟨a, span, span', ht, hu⟩ | ⟨tag, cs, ds, span, span', ht, hu, -⟩ := Tree.bare_eq_cases h
  all_goals
    dsimp only
    rw [ht, hu]
  · cases a <;> rfl
  · rfl

theorem Target.isInhabited_congr (h : s.tree.bare = u.tree.bare) :
    isInhabited (some s) = isInhabited (some u) := by
  unfold isInhabited
  obtain ⟨a, span, span', ht, hu⟩ | ⟨tag, cs, ds, span, span', ht, hu, hcs⟩ :=
    Tree.bare_eq_cases h
  all_goals
    dsimp only
    rw [ht, hu]
  · rfl
  · cases cs <;> cases ds <;> first | rfl | cases hcs

theorem Literal.fits_congr (l : Literal) (h : s.tree.bare = u.tree.bare) :
    l.fits (some s) = l.fits (some u) := by
  cases l with
  | value v => exact Tree.same_congr h v
  | nil => exact Target.isAbsent_congr h
  | _ =>
    obtain ⟨above, t⟩ := s
    obtain ⟨above', t'⟩ := u
    obtain ⟨a, span, span', rfl, rfl⟩ | ⟨tag, cs, ds, span, span', rfl, rfl, -⟩ :=
      Tree.bare_eq_cases h <;> rfl

/-- Related sites hold the same tree, perhaps with other spans, and so do their children, which are
related in turn. -/
structure Likeness (R : Site → Site → Prop) : Prop where
  bare : ∀ {s u}, R s u → s.tree.bare = u.tree.bare
  children : ∀ {s u}, R s u → List.Forall₂ R s.children u.children

-- ---------------------------------------------------------------------------
-- Related results
-- ---------------------------------------------------------------------------

abbrev Alike (R : Site → Site → Prop) : Option (List Site) → Option (List Site) → Prop :=
  Option.Rel (List.Forall₂ R)

namespace Alike

variable {R : Site → Site → Prop} {a b : Option (List Site)} {captures captures' : List Site}
  {target target' : Target}

theorem keep (condition : Bool) (h : List.Forall₂ R captures captures') :
    Alike R (Pattern.keep condition captures) (Pattern.keep condition captures') := by
  cases condition with
  | true => exact .some h
  | false => exact .none

theorem test (hR : Likeness R) (condition : Target → Bool)
    (hcondition : ∀ {s u : Site}, s.tree.bare = u.tree.bare →
      condition (some s) = condition (some u))
    (ht : Option.Rel R target target') (h : List.Forall₂ R captures captures') :
    Alike R (Pattern.keep (condition target) captures)
      (Pattern.keep (condition target') captures') := by
  cases ht with
  | none => exact keep _ h
  | some hs =>
    rw [hcondition (hR.bare hs)]
    exact keep _ h

theorem isNone_eq (h : Alike R a b) : a.isNone = b.isNone := by
  cases h <;> rfl

theorem bind {f g : List Site → Option (List Site)} (h : Alike R a b)
    (hfg : ∀ {cs cs'}, List.Forall₂ R cs cs' → Alike R (f cs) (g cs')) :
    Alike R (a.bind f) (b.bind g) := by
  cases h with
  | none => exact .none
  | some h => exact hfg h

theorem orElse {c d : Option (List Site)} (h : Alike R a b) (h' : Alike R c d) :
    Alike R (a.or c) (b.or d) := by
  cases h with
  | none => exact h'
  | some h => exact .some h

theorem findSome? {f g : Site → Option (List Site)} {cs ds : List Site}
    (h : List.Forall₂ R cs ds) (hfg : ∀ {s u}, R s u → Alike R (f s) (g u)) :
    Alike R (cs.findSome? f) (ds.findSome? g) := by
  induction h with
  | nil => exact .none
  | @cons s u cs ds hs _ ih =>
    rw [List.findSome?_cons, List.findSome?_cons]
    have h := hfg hs
    generalize f s = a at h
    generalize g u = b at h
    cases h with
    | none => exact ih
    | some h => exact .some h

theorem head? {cs ds : List Site} (h : List.Forall₂ R cs ds) : Option.Rel R cs.head? ds.head? := by
  cases h with
  | nil => exact .none
  | cons hs _ => exact .some hs

theorem tail {cs ds : List Site} (h : List.Forall₂ R cs ds) : List.Forall₂ R cs.tail ds.tail := by
  cases h with
  | nil => exact .nil
  | cons _ h => exact h

end Alike

namespace Pattern

variable {R : Site → Site → Prop} {captures captures' : List Site}

theorem eq_map_of_forall₂ {f : Site → Site} {cs ds : List Site}
    (h : List.Forall₂ (fun s u => u = f s) cs ds) : ds = cs.map f := by
  induction h with
  | nil => rfl
  | cons h _ ih => rw [h, ih, List.map_cons]

theorem alike_capture? (h : List.Forall₂ R captures captures') (n : Nat) :
    Option.Rel R (capture? captures n) (capture? captures' n) := by
  unfold capture?
  split
  · exact .none
  · rw [← List.head?_drop, ← List.head?_drop]
    exact Alike.head? (List.forall₂_drop _ h)

theorem isRepeat_congr (hR : Likeness R) (n : Nat) (h : List.Forall₂ R captures captures')
    (ht : Option.Rel R target target') :
    isRepeat n captures target = isRepeat n captures' target' := by
  have hcapture := alike_capture? h n
  unfold isRepeat
  generalize capture? captures n = c at hcapture
  generalize capture? captures' n = c' at hcapture
  cases hcapture with
  | none => rfl
  | some hc =>
    cases ht with
    | none => rfl
    | some hs =>
      dsimp only
      rw [Tree.same_congr (hR.bare hs), Tree.same_congr_right (hR.bare hc)]

theorem isNode_congr (h : s.tree.bare = u.tree.bare) : s.tree.isNode = u.tree.isNode := by
  rw [← Tree.isNode_bare, h, Tree.isNode_bare]

mutual
/-- Related targets, with related captures before, are judged alike. -/
theorem alike_judge (hR : Likeness R) : ∀ (p : Pattern) {target target' : Target}
    {captures captures' : List Site}, Option.Rel R target target' →
    List.Forall₂ R captures captures' →
    Alike R (p.judge target captures) (p.judge target' captures')
  | .wildcard, _, _, _, _, ht, hc =>
    .test hR (fun t => !t.isAbsent) (fun h => congrArg (! ·) (Target.isAbsent_congr h)) ht hc
  | .nonempty, _, _, _, _, ht, hc =>
    .test hR Target.isInhabited Target.isInhabited_congr ht hc
  | .literal l, _, _, _, _, ht, hc => .test hR l.fits l.fits_congr ht hc
  | .backref n, _, _, _, _, ht, hc => by
    rw [judge, judge, isRepeat_congr hR n hc ht]
    exact .keep _ hc
  | .sequence _, _, _, _, _, .none, _ => .none
  | .sequence ps, some _, some _, _, _, .some hs, hc => by
    rw [judge, judge, isNode_congr (hR.bare hs)]
    split
    · exact alike_judgeForm hR ps hs hc
    · exact .none
  | .union ps, _, _, _, _, ht, hc => alike_judgeSome hR ps ht hc
  | .every ps, _, _, _, _, ht, hc => alike_judgeEvery hR ps ht hc
  | .capture p, target, target', captures, captures', ht, hc => by
    rw [judge, judge]
    have h := alike_judge hR p ht hc
    generalize judge p target captures = a at h
    generalize judge p target' captures' = b at h
    cases h with
    | none => exact .none
    | @some after after' h =>
      refine .some ?_
      rw [hc.length_eq]
      refine List.rel_append (List.rel_append hc ?_) (List.forall₂_drop _ h)
      cases ht with
      | none => exact .nil
      | some hs => exact .cons hs .nil
  | .negation p, _, _, _, _, ht, hc => by
    rw [judge, judge, (alike_judge hR p ht hc).isNone_eq]
    exact .keep _ hc
  | .optional p, target, target', _, _, ht, hc => by
    have habsent : target.isAbsent = target'.isAbsent := by
      cases ht with
      | none => rfl
      | some hs => exact Target.isAbsent_congr (hR.bare hs)
    rw [judge, judge, habsent]
    split
    · exact .some hc
    · exact alike_judge hR p ht hc
  | .child _, _, _, _, _, .none, _ => .none
  | .child p, some s, some u, _, _, .some hs, hc => by
    rw [judge, judge]
    have hnodes : List.Forall₂ R (s.children.filter (·.tree.isNode))
        (u.children.filter (·.tree.isNode)) :=
      List.rel_filter (fun _ _ hc => by simp only [isNode_congr (hR.bare hc)]) (hR.children hs)
    exact .findSome? hnodes fun hs => alike_judge hR p (.some hs) hc
theorem alike_judgeForm (hR : Likeness R) : ∀ (ps : List Pattern) {s u : Site}
    {captures captures' : List Site}, R s u → List.Forall₂ R captures captures' →
    Alike R (judgeForm ps s captures) (judgeForm ps u captures')
  | [], _, _, _, _, _, hc => .some hc
  | p :: ps, _, _, _, _, hs, hc =>
    (alike_judge hR p (.some hs) hc).bind fun hc => alike_judgeChildren hR ps (hR.children hs) hc
theorem alike_judgeChildren (hR : Likeness R) : ∀ (ps : List Pattern)
    {cs ds captures captures' : List Site}, List.Forall₂ R cs ds →
    List.Forall₂ R captures captures' →
    Alike R (judgeChildren ps cs captures) (judgeChildren ps ds captures')
  | [], _, _, _, _, _, hc => .some hc
  | p :: ps, cs, ds, captures, captures', hcs, hc => by
    by_cases hellipsis : p = .nonempty
    · subst hellipsis
      rw [judgeChildren, judgeChildren]
      cases hcs with
      | nil => exact .none
      | cons _ hcs => exact alike_judgeChildren hR ps hcs hc
    · rw [judgeChildren, judgeChildren]
      · exact (alike_judge hR p (Alike.head? hcs) hc).bind fun hc =>
          alike_judgeChildren hR ps (Alike.tail hcs) hc
      · exact hellipsis
      · exact hellipsis
theorem alike_judgeSome (hR : Likeness R) : ∀ (ps : List Pattern) {target target' : Target}
    {captures captures' : List Site}, Option.Rel R target target' →
    List.Forall₂ R captures captures' →
    Alike R (judgeSome ps target captures) (judgeSome ps target' captures')
  | [], _, _, _, _, _, _ => .none
  | p :: ps, target, target', captures, captures', ht, hc => by
    rw [judgeSome_cons, judgeSome_cons]
    exact (alike_judge hR p ht hc).orElse (alike_judgeSome hR ps ht hc)
theorem alike_judgeEvery (hR : Likeness R) : ∀ (ps : List Pattern) {target target' : Target}
    {captures captures' : List Site}, Option.Rel R target target' →
    List.Forall₂ R captures captures' →
    Alike R (judgeEvery ps target captures) (judgeEvery ps target' captures')
  | [], _, _, _, _, _, hc => .some hc
  | p :: ps, _, _, _, _, ht, hc =>
    (alike_judge hR p ht hc).bind fun hc => alike_judgeEvery hR ps ht hc
end

/-- What is captured is moved along with what is given, by a map that matching takes no notice of. -/
theorem judge_map (p : Pattern) {f : Site → Site} (hf : Likeness fun s u => u = f s) (s : Site)
    (captures : List Site) :
    p.judge (some (f s)) (captures.map f) = (p.judge (some s) captures).map (List.map f) := by
  have hcaptures : List.Forall₂ (fun s u => u = f s) captures (captures.map f) :=
    List.forall₂_map_right_iff.2 (List.forall₂_same.2 fun _ _ => rfl)
  have h := alike_judge hf p (.some (rfl : f s = f s)) hcaptures
  generalize p.judge (some s) captures = a at h
  generalize p.judge (some (f s)) (captures.map f) = b at h
  cases h with
  | none => rfl
  | some h => exact congrArg some (eq_map_of_forall₂ h)

end Pattern

end TreeQuery
