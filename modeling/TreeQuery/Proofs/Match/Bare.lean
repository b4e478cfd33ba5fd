import TreeQuery.Proofs.Match.Topmost
import TreeQuery.Proofs.Pattern.Arguments

/-!
# Matching without spans

What spans a tree has, and what spans the bound arguments of a pattern have, makes no difference to
matching: the outcome on the bare tree is the outcome on the tree, its captures without their spans
(`Query.matchSite_bare`), and likewise for a search (`Query.search_bare`). So trees that differ in
spans only are not told apart (`Query.spans_unseen`).
-/

namespace TreeQuery

-- ---------------------------------------------------------------------------
-- Sites and outcomes without spans
-- ---------------------------------------------------------------------------

def Site.bare (s : Site) : Site := ⟨s.above, s.tree.bare⟩

def Outcome.bare : Outcome → Outcome
  | .captures sites => .captures (sites.map Site.bare)
  | outcome => outcome

def Occurrence.bare (o : Occurrence) : Occurrence := ⟨o.site.bare, o.outcome.bare, o.index⟩

@[simp] theorem Outcome.isMatch_bare (outcome : Outcome) :
    outcome.bare.isMatch = outcome.isMatch := by
  cases outcome <;> rfl

@[simp] theorem Tree.children_bare (t : Tree) : t.bare.children = bareList t.children := by
  cases t <;> rfl

namespace Site

theorem childrenFrom_bare (s : Site) (i : Nat) (ts : List Tree) :
    s.bare.childrenFrom i (Tree.bareList ts) = (s.childrenFrom i ts).map bare := by
  induction ts generalizing i with
  | nil => rfl
  | cons t ts ih =>
    rw [Tree.bareList, childrenFrom, childrenFrom, List.map_cons, ih]
    rfl

theorem likeness_bare : Likeness fun s u => u = s.bare := by
  refine ⟨?_, ?_⟩
  · rintro s _ rfl
    exact s.tree.bare_bare.symm
  · rintro s _ rfl
    have hchildren : s.bare.children = s.children.map bare := by
      rw [children, children, ← childrenFrom_bare]
      exact congrArg (s.bare.childrenFrom 0) s.tree.children_bare
    rw [hchildren, List.forall₂_map_right_iff]
    exact List.forall₂_same.2 fun _ _ => rfl

end Site

namespace Query

variable {q bared : Query}

theorem matchSite_bare (h : bared.root = q.root.bare) (s : Site) :
    bared.matchSite s.bare = (q.matchSite s).bare := by
  have hjudge := q.root.judge_map Site.likeness_bare s []
  rw [List.map_nil] at hjudge
  unfold matchSite captures
  rw [h, Pattern.judge_bare, hjudge, Pattern.captures_bare]
  cases q.root.judge (some s) [] with
  | none => rfl
  | some sites =>
    dsimp only [Option.map_some]
    split <;> rfl

mutual
theorem hits_bare (h : bared.root = q.root.bare) : ∀ (t : Tree) (above : List Nat),
    bared.hits above t.bare = (q.hits above t).map fun hit => (hit.1.bare, hit.2.bare)
  | .leaf _ _, _ => rfl
  | .node tag cs span, above => by
    have hmatch := matchSite_bare h ⟨above, .node tag cs span⟩
    rw [Site.bare, Tree.bare] at hmatch
    rw [Tree.bare, hits, hits, hmatch, Outcome.isMatch_bare]
    split
    · rfl
    · exact hitsList_bare h cs above 0
theorem hitsList_bare (h : bared.root = q.root.bare) : ∀ (ts : List Tree) (above : List Nat)
    (i : Nat), bared.hitsList above i (Tree.bareList ts) =
      (q.hitsList above i ts).map fun hit => (hit.1.bare, hit.2.bare)
  | [], _, _ => rfl
  | t :: ts, above, i => by
    rw [Tree.bareList, hitsList, hitsList, List.map_append, hits_bare h t, hitsList_bare h ts]
end

theorem search_bare (h : bared.root = q.root.bare) (t : Tree) :
    bared.search t.bare = (q.search t).map Occurrence.bare := by
  rw [search, search, hits_bare h, numbered, numbered, List.zipIdx_map, List.map_map, List.map_map]
  rfl

/-- Trees that differ in spans only have the same outcome, with the same captures at the same
places, and a search finds the same occurrences in them, at the same places and with the same
numbers. The patterns may differ in the spans of their bound arguments; and a pattern text is read
as such patterns, or refused with the same error, if its arguments differ in spans only. -/
theorem spans_unseen :
    (∀ (q q' : Query) (t u : Tree), q.root.bare = q'.root.bare → t.bare = u.bare →
      (q.matchTree t).bare = (q'.matchTree u).bare ∧
      (q.search t).map Occurrence.bare = (q'.search u).map Occurrence.bare) ∧
    ∀ (source : List Char) (args args' : List Tree), args.map Tree.bare = args'.map Tree.bare →
      (compile source args).map bare = (compile source args').map bare := by
  refine ⟨fun q q' t u hroot ht => ⟨?_, ?_⟩, fun source args args' hargs => ?_⟩
  · calc (q.matchTree t).bare = q.bare.matchTree t.bare := (matchSite_bare rfl (.root t)).symm
      _ = q.bare.matchTree u.bare := by rw [ht]
      _ = (q'.matchTree u).bare := matchSite_bare hroot (.root u)
  · calc (q.search t).map Occurrence.bare = q.bare.search t.bare := (search_bare rfl t).symm
      _ = q.bare.search u.bare := by rw [ht]
      _ = (q'.search u).map Occurrence.bare := search_bare hroot u
  · rw [← compile_bare, hargs, compile_bare]

theorem spans_unseen_repeated :
    let form (inner outer : Option Span) : Tree := .node "g" [.leaf (.int 1) inner] outer
    let root (a : Tree) : Pattern :=
      .sequence [.literal (.sym "f"), .capture .wildcard, .every [.backref 1, .literal (.value a)]]
    let q : Query := ⟨[], root (form (some (.point 9)) none)⟩
    let q' : Query := .ofPattern (root (form none (some (.point 2))))
    let t : Tree := .node "f" [form (some (.between 6 7)) (some (.between 3 8)),
      form (some (.between 12 13)) (some (.between 9 14))] (some (.between 0 15))
    let u : Tree := .node "f" [form none none, form none (some (.point 0))] none
    let place : Site := ⟨[0], form none none⟩
    q.root.bare = q'.root.bare ∧ t.bare = u.bare ∧
      (q.matchTree t).bare = .captures [place] ∧ (q'.matchTree u).bare = .captures [place] ∧
      (q'.search u).map Occurrence.bare = [⟨.root t.bare, .captures [place], 1⟩] ∧
      (compile "(f %1)".toList [form none none]).map bare =
        (compile "(f %1)".toList [form (some (.point 4)) none]).map bare := by
  intro form root q q' t u place
  have hroot : q.root.bare = q'.root.bare := rfl
  have ht : t.bare = u.bare := rfl
  have hmatch : (q.matchTree t).bare = .captures [place] := rfl
  have hsearch : (q.search t).map Occurrence.bare = [⟨.root t.bare, .captures [place], 1⟩] := rfl
  obtain ⟨hsame, hfound⟩ := spans_unseen.1 q q' t u hroot ht
  exact ⟨hroot, ht, hmatch, hsame ▸ hmatch, hfound ▸ hsearch,
    spans_unseen.2 _ [form none none] [form (some (.point 4)) none] rfl⟩

end Query

end TreeQuery
