import Mathlib.Data.List.Lex
import TreeQuery.Proofs.Match.Likeness

/-!
# A search finds the topmost nodes that fit

A node has the same outcome wherever it stands, its captures apart from their places
(`matchSite_eq`). So it can be said of a path alone whether what stands there fits, and a search
finds the paths where something fits and nothing above does, in pre-order (`search_topmost`).
-/

namespace TreeQuery

-- ---------------------------------------------------------------------------
-- Sites further down
-- ---------------------------------------------------------------------------

namespace Site

def under (above : List Nat) (s : Site) : Site := ⟨s.above ++ above, s.tree⟩

theorem childrenFrom_under (above : List Nat) (s : Site) (i : Nat) (ts : List Tree) :
    (s.under above).childrenFrom i ts = (s.childrenFrom i ts).map (under above) := by
  induction ts generalizing i with
  | nil => rfl
  | cons t ts ih =>
    rw [childrenFrom, childrenFrom, List.map_cons, ih]
    rfl

theorem likeness_under (above : List Nat) : Likeness fun s u => u = s.under above := by
  refine ⟨?_, ?_⟩
  · rintro s _ rfl
    rfl
  · rintro s _ rfl
    rw [children, children, childrenFrom_under, List.forall₂_map_right_iff]
    exact List.forall₂_same.2 fun _ _ => rfl

end Site

def Outcome.under (above : List Nat) : Outcome → Outcome
  | .captures sites => .captures (sites.map (Site.under above))
  | outcome => outcome

@[simp] theorem Outcome.isMatch_under (above : List Nat) (outcome : Outcome) :
    (outcome.under above).isMatch = outcome.isMatch := by
  cases outcome <;> rfl

theorem Pattern.judge_under (p : Pattern) (above : List Nat) (s : Site) :
    p.judge (some (s.under above)) [] = (p.judge (some s) []).map (List.map (Site.under above)) :=
  p.judge_map (Site.likeness_under above) s []

namespace Query

variable {q : Query} {t : Tree} {above path : List Nat} {h : Site × Outcome} {i : Nat}

theorem matchSite_eq (q : Query) (above : List Nat) (t : Tree) :
    q.matchSite ⟨above, t⟩ = (q.matchTree t).under above := by
  have hjudge := q.root.judge_under above (Site.root t)
  have hsite : (Site.root t).under above = ⟨above, t⟩ := rfl
  rw [hsite] at hjudge
  unfold matchTree matchSite
  rw [hjudge]
  cases q.root.judge (some (Site.root t)) [] with
  | none => rfl
  | some sites =>
    dsimp only [Option.map_some]
    split <;> rfl

-- ---------------------------------------------------------------------------
-- Topmost paths
-- ---------------------------------------------------------------------------

/-- A node that fits on its own stands at the path. -/
def FitsAt (q : Query) (t : Tree) (path : List Nat) : Prop :=
  ∃ node, t.at? path = some node ∧ node.isNode = true ∧ (q.matchTree node).isMatch = true

/-- A node that fits stands at the path, and no node that contains it fits. -/
def Topmost (q : Query) (t : Tree) (path : List Nat) : Prop :=
  q.FitsAt t path ∧ ∀ outer, outer <+: path → outer ≠ path → ¬ q.FitsAt t outer

theorem not_fitsAt_leaf {a : Scalar} {span : Option Span} : ¬ q.FitsAt (.leaf a span) path := by
  rintro ⟨node, hat, hnode, -⟩
  cases path with
  | nil =>
    cases hat
    cases hnode
  | cons => cases hat

variable {tag : String} {cs : List Tree} {span : Option Span}

theorem fitsAt_node_nil : q.FitsAt (.node tag cs span) [] ↔
    (q.matchTree (.node tag cs span)).isMatch = true := by
  simp [FitsAt, Tree.at?, Tree.isNode]

theorem fitsAt_node_cons : q.FitsAt (.node tag cs span) (i :: path) ↔
    ∃ c, cs[i]? = some c ∧ q.FitsAt c path := by
  simp only [FitsAt, Tree.at?, Tree.children, Option.bind_eq_some_iff]
  constructor
  · rintro ⟨node, ⟨c, hc, hat⟩, hnode⟩
    exact ⟨c, hc, node, hat, hnode⟩
  · rintro ⟨c, hc, node, hat, hnode⟩
    exact ⟨node, ⟨c, hc, hat⟩, hnode⟩

theorem topmost_node_nil : q.Topmost (.node tag cs span) [] ↔
    (q.matchTree (.node tag cs span)).isMatch = true := by
  rw [← fitsAt_node_nil]
  refine ⟨And.left, fun h => ⟨h, fun outer hprefix hne => ?_⟩⟩
  exact absurd (List.prefix_nil.1 hprefix) hne

theorem topmost_node_cons : q.Topmost (.node tag cs span) (i :: path) ↔
    (q.matchTree (.node tag cs span)).isMatch = false ∧
      ∃ c, cs[i]? = some c ∧ q.Topmost c path := by
  constructor
  · rintro ⟨hfits, houter⟩
    obtain ⟨c, hc, hfits⟩ := fitsAt_node_cons.1 hfits
    refine ⟨?_, c, hc, hfits, fun outer hprefix hne hat => ?_⟩
    · have := houter [] List.nil_prefix (List.cons_ne_nil _ _).symm
      simpa [fitsAt_node_nil] using this
    · refine houter (i :: outer) (List.cons_prefix_cons.2 ⟨rfl, hprefix⟩) (by simpa using hne) ?_
      exact fitsAt_node_cons.2 ⟨c, hc, hat⟩
  · rintro ⟨hroot, c, hc, hfits, houter⟩
    refine ⟨fitsAt_node_cons.2 ⟨c, hc, hfits⟩, fun outer hprefix hne hat => ?_⟩
    obtain rfl | ⟨outer, rfl, hinner⟩ := List.prefix_cons_iff.1 hprefix
    · rw [fitsAt_node_nil, hroot] at hat
      cases hat
    · obtain ⟨c', hc', hat⟩ := fitsAt_node_cons.1 hat
      cases hc.symm.trans hc'
      exact houter outer hinner (by simpa using hne) hat

-- ---------------------------------------------------------------------------
-- The walk finds the topmost paths
-- ---------------------------------------------------------------------------

structure HitAt (q : Query) (t : Tree) (above path : List Nat) (h : Site × Outcome) : Prop where
  topmost : q.Topmost t path
  tree : t.at? path = some h.1.tree
  above : h.1.above = path.reverse ++ above
  outcome : h.2 = q.matchSite h.1

theorem isMatch_matchSite (q : Query) (above : List Nat) (t : Tree) :
    (q.matchSite ⟨above, t⟩).isMatch = (q.matchTree t).isMatch := by
  rw [matchSite_eq, Outcome.isMatch_under]

theorem hitAt_nil (htree : t.isNode = true) : q.HitAt t above [] h ↔
    (q.matchTree t).isMatch = true ∧ h = (⟨above, t⟩, q.matchSite ⟨above, t⟩) := by
  cases t with
  | leaf => cases htree
  | node tag cs span =>
    obtain ⟨⟨above', t⟩, outcome⟩ := h
    constructor
    · rintro ⟨htop, htree, habove, houtcome⟩
      dsimp only at habove houtcome
      cases htree
      subst habove houtcome
      exact ⟨topmost_node_nil.1 htop, rfl⟩
    · rintro ⟨hmatch, h⟩
      cases h
      exact ⟨topmost_node_nil.2 hmatch, rfl, rfl, rfl⟩

theorem hitAt_cons : q.HitAt (.node tag cs span) above (i :: path) h ↔
    (q.matchTree (.node tag cs span)).isMatch = false ∧
      ∃ c, cs[i]? = some c ∧ q.HitAt c (i :: above) path h := by
  have habove : (i :: path).reverse ++ above = path.reverse ++ i :: above := by simp
  constructor
  · rintro ⟨htop, htree, hplace, houtcome⟩
    obtain ⟨hroot, c, hc, htop⟩ := topmost_node_cons.1 htop
    refine ⟨hroot, c, hc, htop, ?_, hplace.trans habove, houtcome⟩
    rwa [Tree.at?, Tree.children, hc, Option.bind_some] at htree
  · rintro ⟨hroot, c, hc, htop, htree, hplace, houtcome⟩
    refine ⟨topmost_node_cons.2 ⟨hroot, c, hc, htop⟩, ?_, hplace.trans habove.symm, houtcome⟩
    rwa [Tree.at?, Tree.children, hc, Option.bind_some]

mutual
theorem mem_hits : ∀ {t : Tree} {above : List Nat},
    h ∈ q.hits above t ↔ ∃ path, q.HitAt t above path h
  | .leaf .., _ => by
    refine ⟨nofun, fun ⟨path, hat⟩ => ?_⟩
    exact absurd hat.topmost.1 not_fitsAt_leaf
  | .node tag cs span, above => by
    rw [hits, isMatch_matchSite]
    split
    next hroot =>
      rw [List.mem_singleton]
      constructor
      · exact fun h => ⟨[], (hitAt_nil rfl).2 ⟨hroot, h⟩⟩
      · rintro ⟨path, hat⟩
        cases path with
        | nil => exact ((hitAt_nil rfl).1 hat).2
        | cons i path => exact absurd hroot (Bool.eq_false_iff.1 (hitAt_cons.1 hat).1)
    next hroot =>
      rw [mem_hitsList]
      constructor
      · rintro ⟨j, c, path, hc, hat⟩
        rw [Nat.zero_add] at hat
        exact ⟨j :: path, hitAt_cons.2 ⟨Bool.eq_false_iff.2 hroot, c, hc, hat⟩⟩
      · rintro ⟨path, hat⟩
        cases path with
        | nil => exact absurd ((hitAt_nil rfl).1 hat).1 hroot
        | cons j path =>
          obtain ⟨-, c, hc, hat⟩ := hitAt_cons.1 hat
          exact ⟨j, c, path, hc, by rwa [Nat.zero_add]⟩
theorem mem_hitsList : ∀ {ts : List Tree} {above : List Nat} {i : Nat},
    h ∈ q.hitsList above i ts ↔
      ∃ j t path, ts[j]? = some t ∧ q.HitAt t ((i + j) :: above) path h
  | [], _, _ => by simp [hitsList]
  | t :: ts, above, i => by
    rw [hitsList, List.mem_append, mem_hits, mem_hitsList]
    constructor
    · rintro (⟨path, hat⟩ | ⟨j, u, path, hu, hat⟩)
      · exact ⟨0, t, path, rfl, hat⟩
      · exact ⟨j + 1, u, path, hu, by rwa [← Nat.add_assoc, Nat.add_right_comm]⟩
    · rintro ⟨j, u, path, hu, hat⟩
      cases j with
      | zero =>
        cases hu
        exact .inl ⟨path, hat⟩
      | succ j =>
        exact .inr ⟨j, u, path, hu, by rwa [← Nat.add_assoc, Nat.add_right_comm] at hat⟩
end

-- ---------------------------------------------------------------------------
-- In pre-order
-- ---------------------------------------------------------------------------

/-- The first of two hits comes first in pre-order, and the second is not below it. -/
def Precedes (h k : Site × Outcome) : Prop :=
  List.Lex (· < ·) h.1.path k.1.path ∧ ¬ h.1.path <+: k.1.path

theorem HitAt.precedes {j k : Nat} {t u : Tree} {path path' : List Nat} {h h' : Site × Outcome}
    (hlt : j < k) (hh : q.HitAt t (j :: above) path h) (hk : q.HitAt u (k :: above) path' h') :
    Precedes h h' := by
  have hpath : h.1.path = above.reverse ++ j :: path := by simp [Site.path, hh.above]
  have hpath' : h'.1.path = above.reverse ++ k :: path' := by simp [Site.path, hk.above]
  rw [Precedes, hpath, hpath', List.prefix_append_right_inj, List.cons_prefix_cons]
  exact ⟨.append_left _ (.rel hlt) _, fun hpre => hlt.ne hpre.1⟩

mutual
theorem precedes_hits : ∀ (t : Tree) (above : List Nat), (q.hits above t).Pairwise Precedes
  | .leaf .., _ => .nil
  | .node tag cs span, above => by
    rw [hits]
    split
    · exact List.pairwise_singleton _ _
    · exact precedes_hitsList cs above 0
theorem precedes_hitsList : ∀ (ts : List Tree) (above : List Nat) (i : Nat),
    (q.hitsList above i ts).Pairwise Precedes
  | [], _, _ => .nil
  | t :: ts, above, i => by
    rw [hitsList]
    refine List.pairwise_append.2 ⟨precedes_hits t _, precedes_hitsList ts above (i + 1), ?_⟩
    intro h hh k hk
    obtain ⟨path, hat⟩ := mem_hits.1 hh
    obtain ⟨j, u, path', -, hat'⟩ := mem_hitsList.1 hk
    exact hat.precedes (by omega) hat'
end

-- ---------------------------------------------------------------------------
-- The two searches
-- ---------------------------------------------------------------------------

theorem getElem?_search (q : Query) (t : Tree) (i : Nat) :
    (q.search t)[i]? = ((q.hits [] t)[i]?).map fun h => ⟨h.1, h.2, i + 1⟩ := by
  rw [search, numbered, List.getElem?_map, List.getElem?_zipIdx, Option.map_map]
  simp only [Function.comp_def, Nat.zero_add]

mutual
theorem findFrom_eq : ∀ (t : Tree) (above : List Nat),
    q.findFrom above t = (q.hits above t).head?.map fun h => ⟨h.1, h.2, 1⟩
  | .leaf .., _ => rfl
  | .node tag cs span, above => by
    rw [findFrom, hits]
    split
    · rfl
    · exact findFromList_eq cs above 0
theorem findFromList_eq : ∀ (ts : List Tree) (above : List Nat) (i : Nat),
    q.findFromList above i ts = (q.hitsList above i ts).head?.map fun h => ⟨h.1, h.2, 1⟩
  | [], _, _ => rfl
  | t :: ts, above, i => by
    rw [findFromList, hitsList, findFrom_eq t, findFromList_eq ts, List.head?_append]
    cases (q.hits (i :: above) t).head? <;> rfl
end

theorem map_path_search (q : Query) (t : Tree) :
    (q.search t).map (·.site.path) = (q.hits [] t).map (·.1.path) := by
  refine List.ext_getElem? fun i => ?_
  rw [List.getElem?_map, List.getElem?_map, getElem?_search, Option.map_map]
  rfl

theorem HitAt.path_eq (hat : q.HitAt t [] path h) : h.1.path = path := by
  rw [Site.path, hat.above, List.append_nil, List.reverse_reverse]

theorem hitAt_of_mem_search {o : Occurrence} (ho : o ∈ q.search t) :
    q.HitAt t [] o.site.path (o.site, o.outcome) := by
  obtain ⟨i, ho⟩ := List.mem_iff_getElem?.1 ho
  rw [getElem?_search, Option.map_eq_some_iff] at ho
  obtain ⟨h, hh, rfl⟩ := ho
  obtain ⟨path, hat⟩ := mem_hits.1 (List.mem_of_getElem? hh)
  exact hat.path_eq.symm ▸ hat

theorem exists_hitAt_iff : (∃ h, q.HitAt t [] path h) ↔ q.Topmost t path := by
  constructor
  · rintro ⟨h, hat⟩
    exact hat.topmost
  · intro htop
    obtain ⟨node, hnode, -⟩ := htop.1
    let site : Site := ⟨path.reverse, node⟩
    exact ⟨(site, q.matchSite site), htop, hnode, (List.append_nil _).symm, rfl⟩

/-- A search finds the paths of the topmost nodes that fit, in strict pre-order and none below
another. The occurrences are numbered from one, each with the outcome that its node has on its own,
the captures counted from the whole tree; and `findFirst` finds the first of them. -/
theorem search_topmost (q : Query) (t : Tree) :
    (∀ path, path ∈ (q.search t).map (·.site.path) ↔ q.Topmost t path) ∧
    ((q.search t).map (·.site.path)).Pairwise
      (fun a b => List.Lex (· < ·) a b ∧ ¬ a <+: b) ∧
    (∀ i o, (q.search t)[i]? = some o →
      o.index = i + 1 ∧ t.at? o.site.path = some o.tree ∧
        o.outcome = (q.matchTree o.tree).under o.site.above) ∧
    q.findFirst t = (q.search t).head? := by
  refine ⟨fun path => ?_, ?_, fun i o ho => ?_, ?_⟩
  · rw [map_path_search, List.mem_map, ← exists_hitAt_iff]
    constructor
    · rintro ⟨h, hh, rfl⟩
      obtain ⟨path, hat⟩ := mem_hits.1 hh
      exact ⟨h, hat.path_eq.symm ▸ hat⟩
    · rintro ⟨h, hat⟩
      exact ⟨h, mem_hits.2 ⟨path, hat⟩, hat.path_eq⟩
  · rw [map_path_search, List.pairwise_map]
    exact precedes_hits t []
  · rw [getElem?_search, Option.map_eq_some_iff] at ho
    obtain ⟨h, hh, rfl⟩ := ho
    obtain ⟨path, hat⟩ := mem_hits.1 (List.mem_of_getElem? hh)
    refine ⟨rfl, ?_, ?_⟩
    · exact hat.path_eq.symm ▸ hat.tree
    · exact hat.outcome.trans (matchSite_eq q _ _)
  · rw [findFirst, findFrom_eq, List.head?_eq_getElem?, List.head?_eq_getElem?, getElem?_search]

example :
    let array (cs : List Tree) : Tree := .node "array" cs none
    let t : Tree := .node "begin" [array [array []], .node "int" [] none, array []] none
    ((Query.ofPattern (.literal (.sym "array"))).search t).map (fun o => (o.site.path, o.index)) =
      [([0], 1), ([2], 2)] := by
  decide

end Query

end TreeQuery
