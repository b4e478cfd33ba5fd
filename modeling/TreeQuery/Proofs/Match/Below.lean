import TreeQuery.Proofs.Match.Topmost
import TreeQuery.Proofs.Sexp.Places

/-!
# Where captures come from

Matching goes from a value to its children and captures only what it comes to. So every capture is
the value that was matched or one below it (`Query.below_of_mem_sites`), and in a text that was read
it stands within the text of the occurrence (`Query.captures_below`).
-/

namespace TreeQuery

-- ---------------------------------------------------------------------------
-- Sites below a site
-- ---------------------------------------------------------------------------

theorem Tree.at?_append (t : Tree) (path rest : List Nat) :
    t.at? (path ++ rest) = (t.at? path).bind (·.at? rest) := by
  induction path generalizing t with
  | nil => rfl
  | cons i path ih =>
    rw [List.cons_append, Tree.at?, Tree.at?, Option.bind_assoc]
    exact Option.bind_congr fun c _ => ih c

namespace Site

variable {s c d : Site} {t : Tree}

/-- The first site is the second one, or the value at some path below it. -/
def Below (c s : Site) : Prop := ∃ path, c.path = s.path ++ path ∧ s.tree.at? path = some c.tree

theorem Below.refl (s : Site) : s.Below s := ⟨[], (List.append_nil _).symm, rfl⟩

theorem exists_of_mem_childrenFrom {i : Nat} {ts : List Tree} (h : c ∈ s.childrenFrom i ts) :
    ∃ j t, ts[j]? = some t ∧ c = s.child (i + j) t := by
  induction ts generalizing i with
  | nil => cases h
  | cons t ts ih =>
    rcases List.mem_cons.1 h with rfl | h
    · exact ⟨0, t, rfl, rfl⟩
    · obtain ⟨j, u, hu, rfl⟩ := ih h
      exact ⟨j + 1, u, hu, by rw [Nat.add_assoc, Nat.add_comm 1]⟩

theorem Below.child (h : c.Below s) (hd : d ∈ c.children) : d.Below s := by
  obtain ⟨path, hpath, hat⟩ := h
  obtain ⟨j, t, ht, rfl⟩ := exists_of_mem_childrenFrom hd
  refine ⟨path ++ [j], ?_, ?_⟩
  · rw [path_child, hpath, Nat.zero_add, List.append_assoc]
  · rw [Tree.at?_append, hat, Option.bind_some, Tree.at?, ht]
    rfl

theorem Below.within (h : c.Below s) (hs : s.Within t) : c.Within t := by
  obtain ⟨path, hpath, hat⟩ := h
  rw [Within, hpath, Tree.at?_append, hs, Option.bind_some, hat]

end Site

-- ---------------------------------------------------------------------------
-- Captures of a fit
-- ---------------------------------------------------------------------------

theorem likeness_of_children {P : Site → Prop} (hP : ∀ s, P s → ∀ c ∈ s.children, P c) :
    Likeness fun s u => s = u ∧ P s where
  bare := by
    rintro s _ ⟨rfl, -⟩
    rfl
  children := by
    rintro s _ ⟨rfl, hs⟩
    exact List.forall₂_same.2 fun c hc => ⟨rfl, hP s hs c hc⟩

/-- What passes on to children, and holds of the target and of the captures before, holds of the
captures after. -/
theorem Pattern.forall_mem_judge {P : Site → Prop} (hP : ∀ s, P s → ∀ c ∈ s.children, P c)
    (p : Pattern) {s : Site} {captures after : List Site} (hs : P s)
    (hcaptures : ∀ c ∈ captures, P c) (h : p.judge (some s) captures = some after) :
    ∀ c ∈ after, P c := by
  have hsame : List.Forall₂ (fun s u => s = u ∧ P s) captures captures :=
    List.forall₂_same.2 fun c hc => ⟨rfl, hcaptures c hc⟩
  have halike := alike_judge (likeness_of_children hP) p (.some ⟨rfl, hs⟩) hsame
  rw [h] at halike
  cases halike with
  | some hafter => exact fun c hc => (List.forall₂_same.1 hafter c hc).2

namespace Query

variable {q : Query} {s c : Site} {t : Tree} {o : Occurrence}

theorem below_of_mem_sites (hc : c ∈ (q.matchSite s).sites) : c.Below s := by
  unfold matchSite at hc
  cases hj : q.root.judge (some s) [] with
  | none =>
    rw [hj] at hc
    cases hc
  | some sites =>
    rw [hj] at hc
    dsimp only at hc
    split at hc
    · cases hc
    · have hchild (u : Site) (hu : u.Below s) : ∀ d ∈ u.children, d.Below s :=
        fun _ hd => hu.child hd
      exact q.root.forall_mem_judge hchild (.refl s) (by simp) hj c hc

end Query

-- ---------------------------------------------------------------------------
-- Captures in a text
-- ---------------------------------------------------------------------------

theorem Sexp.Stands.within_of_at? {source : List Char} {t u : Tree} {span : Span} {path : List Nat}
    (h : Stands source t) (hspan : t.span = some span) (hu : t.at? path = some u) :
    u.Within span.start span.stop := by
  induction path generalizing t span with
  | nil =>
    cases hu
    exact ⟨span, hspan, Nat.le_refl _, Nat.le_refl _⟩
  | cons i path ih =>
    obtain ⟨c, hc, hu⟩ := Option.bind_eq_some_iff.1 hu
    obtain ⟨outer, slice, hexact⟩ := h.exact
    cases hspan.symm.trans hexact.hasSpan
    obtain ⟨inner, hinner, hstart, hstop⟩ := hexact.within c (List.mem_of_getElem? hc)
    have hat : t.at? [i] = some c := by
      rw [Tree.at?, hc]
      rfl
    exact (ih (h.at? hat) hinner hu).mono hstart hstop

namespace Query

/-- Every capture of a fit is the node itself or a value below it. So in a text that was read the
span of a capture lies within that of the occurrence, and its text is what stands there. -/
theorem captures_below (q : Query) :
    (∀ s : Site, ∀ c ∈ (q.matchSite s).sites, c.Below s) ∧
    ∀ source t, Sexp.parseChars source = .ok t → ∀ o ∈ q.search t, ∀ c ∈ o.outcome.sites,
      c.Within t ∧ c.Below o.site ∧
      ∃ outer inner slice, o.tree.span = some outer ∧ c.tree.span = some inner ∧
        outer.start ≤ inner.start ∧ inner.stop ≤ outer.stop ∧
        inner.text? source = some slice ∧ c.tree.textIn source = slice := by
  refine ⟨fun s c hc => below_of_mem_sites hc, fun source t hparse o ho c hc => ?_⟩
  have hhit := hitAt_of_mem_search ho
  have houtcome : o.outcome = q.matchSite o.site := hhit.outcome
  have hbelow : c.Below o.site := below_of_mem_sites (houtcome ▸ hc)
  have hwithin := hbelow.within hhit.tree
  refine ⟨hwithin, hbelow, ?_⟩
  obtain ⟨path, -, hat⟩ := hbelow
  -- the occurrence stands in the text, and so does all that is below it
  have hstands := (Sexp.stands_of_parse hparse).at? hhit.tree
  obtain ⟨outer, _, houter⟩ := hstands.exact
  obtain ⟨inner, slice, hinner⟩ := (hstands.at? hat).exact
  obtain ⟨_, hspan, hstart, hstop⟩ := hstands.within_of_at? houter.hasSpan hat
  cases hspan.symm.trans hinner.hasSpan
  exact ⟨outer, inner, slice, houter.hasSpan, hspan, hstart, hstop, hinner.text,
    Tree.textIn_of_text? hspan hinner.text⟩

theorem captures_below_nested :
    let q : Query := .ofPattern <| .sequence [.capture (.literal (.sym "f")),
      .capture (.child (.sequence [.literal (.sym "g"), .capture .wildcard]))]
    let source := "(b (f (a (g é)) x))".toList
    ∃ t o c, Sexp.parseChars source = .ok t ∧ o ∈ q.search t ∧ c ∈ o.outcome.sites ∧
      o.site.path = [0] ∧ c.path = [0, 0, 0, 0] ∧ c.Within t ∧ c.Below o.site ∧
      ∃ outer inner slice, o.tree.span = some outer ∧ c.tree.span = some inner ∧
        outer.start ≤ inner.start ∧ inner.stop ≤ outer.stop ∧
        inner.text? source = some slice ∧ c.tree.textIn source = slice := by
  intro q source
  let letter : Tree := .leaf (.sym "é") (some (Span.between 12 14))
  let inner : Tree := .node "a" [.node "g" [letter] (some (Span.between 9 15))]
    (some (Span.between 6 16))
  let found : Tree := .node "f" [inner, .leaf (.sym "x") (some (Span.between 17 18))]
    (some (Span.between 3 19))
  let t : Tree := .node "b" [found] (some (Span.between 0 20))
  let sites : List Site := [⟨[0], found⟩, ⟨[0, 0], inner⟩, ⟨[0, 0, 0, 0], letter⟩]
  have hparse : Sexp.parseChars source = .ok t := rfl
  have hsearch : q.search t = [⟨⟨[0], found⟩, .captures sites, 1⟩] := rfl
  have ho : ⟨⟨[0], found⟩, .captures sites, 1⟩ ∈ q.search t := hsearch ▸ List.mem_cons_self
  have hc : ⟨[0, 0, 0, 0], letter⟩ ∈ sites := by simp [sites]
  exact ⟨t, _, _, hparse, ho, hc, rfl, rfl, (captures_below q).2 source t hparse _ ho _ hc⟩

end Query

end TreeQuery
