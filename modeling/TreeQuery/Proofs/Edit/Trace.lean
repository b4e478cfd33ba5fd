import TreeQuery.Proofs.Edit.Pass
import TreeQuery.Proofs.Edit.Patch
import TreeQuery.Proofs.Match.Trace

/-!
# The attempts of a search and of a pass

A search tries the nodes that no occurrence stands above, in pre-order (`filter_nodes`), and a pass
tries those of them that its dispatch admits (`events_walk`).
-/

namespace TreeQuery

namespace Tree

mutual
def nodes (above : List Nat) : Tree → List Site
  | .leaf .. => []
  | .node tag cs span => ⟨above, .node tag cs span⟩ :: nodesList above 0 cs
def nodesList (above : List Nat) : Nat → List Tree → List Site
  | _, [] => []
  | i, t :: ts => nodes (i :: above) t ++ nodesList above (i + 1) ts
end

variable {s : Site}

mutual
theorem above_of_mem_nodes : ∀ (t : Tree) (above : List Nat), s ∈ t.nodes above → above <:+ s.above
  | .leaf _ _, _, h => by cases h
  | .node tag cs span, above, h => by
    rw [nodes, List.mem_cons] at h
    rcases h with rfl | h
    · exact List.suffix_refl above
    · obtain ⟨j, -, hj⟩ := above_of_mem_nodesList cs above 0 h
      exact (List.suffix_cons j above).trans hj
theorem above_of_mem_nodesList : ∀ (ts : List Tree) (above : List Nat) (i : Nat),
    s ∈ nodesList above i ts → ∃ j, i ≤ j ∧ (j :: above) <:+ s.above
  | [], _, _, h => by cases h
  | t :: ts, above, i, h => by
    rw [nodesList, List.mem_append] at h
    rcases h with h | h
    · exact ⟨i, Nat.le_refl i, above_of_mem_nodes t (i :: above) h⟩
    · obtain ⟨j, hij, hj⟩ := above_of_mem_nodesList ts above (i + 1) h
      exact ⟨j, Nat.le_of_succ_le hij, hj⟩
end

end Tree

namespace Site

variable {s o : Site} {others others' : List Site} {above : List Nat} {i : Nat}

/-- None of the others stands above the site. -/
def ClearOf (others : List Site) (s : Site) : Prop :=
  ∀ o ∈ others, o.path <+: s.path → o.path = s.path

instance (others : List Site) (s : Site) : Decidable (s.ClearOf others) :=
  inferInstanceAs (Decidable (∀ o ∈ others, o.path <+: s.path → o.path = s.path))

theorem clearOf_append : s.ClearOf (others ++ others') ↔ s.ClearOf others ∧ s.ClearOf others' :=
  List.forall_mem_append

theorem prefix_path_iff : o.path <+: s.path ↔ o.above <:+ s.above := List.reverse_prefix

theorem clearOf_of_suffix (hs : (i :: above) <:+ s.above)
    (hothers : ∀ o ∈ others, ∃ j, j ≠ i ∧ (j :: above) <:+ o.above) : s.ClearOf others := by
  intro o ho hprefix
  obtain ⟨j, hne, hj⟩ := hothers o ho
  exact absurd (Query.eq_of_suffix (hj.trans (prefix_path_iff.1 hprefix)) hs) hne

end Site

namespace Query

open Pattern

variable (q : Query)

-- ---------------------------------------------------------------------------
-- The nodes that a search tries
-- ---------------------------------------------------------------------------

mutual
def triedFrom (above : List Nat) : Tree → List Site
  | .leaf .. => []
  | .node tag cs span =>
    let s : Site := ⟨above, .node tag cs span⟩
    s :: if (q.matchSite s).isMatch then [] else triedList above 0 cs
def triedList (above : List Nat) : Nat → List Tree → List Site
  | _, [] => []
  | i, t :: ts => triedFrom (i :: above) t ++ triedList above (i + 1) ts
end

mutual
theorem searchTrace_eq : ∀ (t : Tree) (above : List Nat),
    q.searchTrace above t = (q.triedFrom above t).flatMap q.traceSite
  | .leaf _ _, _ => rfl
  | .node tag cs span, above => by
    rw [searchTrace, triedFrom, List.flatMap_cons]
    split
    · rfl
    · rw [searchTraceList_eq cs above 0]
theorem searchTraceList_eq : ∀ (ts : List Tree) (above : List Nat) (i : Nat),
    q.searchTraceList above i ts = (q.triedList above i ts).flatMap q.traceSite
  | [], _, _ => rfl
  | t :: ts, above, i => by
    rw [searchTraceList, triedList, List.flatMap_append, searchTrace_eq t, searchTraceList_eq ts]
end

mutual
theorem filter_nodes : ∀ (t : Tree) (above : List Nat),
    (t.nodes above).filter (·.ClearOf ((q.hits above t).map (·.1))) = q.triedFrom above t
  | .leaf _ _, _ => rfl
  | .node tag cs span, above => by
    rw [Tree.nodes, hits, triedFrom]
    let s : Site := ⟨above, .node tag cs span⟩
    split
    next hmatch =>
      have hself : s.ClearOf [s] := by simp [Site.ClearOf]
      have hbelow : (Tree.nodesList above 0 cs).filter (·.ClearOf [s]) = [] := by
        rw [List.filter_eq_nil_iff]
        intro c hc hclear
        obtain ⟨j, -, hj⟩ := Tree.above_of_mem_nodesList cs above 0 hc
        have hsame : s.path = c.path := of_decide_eq_true hclear s (List.mem_singleton_self s)
          (Site.prefix_path_iff.2 ((List.suffix_cons j above).trans hj))
        have habove : above = c.above := List.reverse_inj.1 hsame
        exact not_cons_suffix (habove ▸ hj)
      rw [List.filter_cons_of_pos]
      · exact congrArg (s :: ·) hbelow
      · exact decide_eq_true hself
    next hmatch =>
      have hself : s.ClearOf ((q.hitsList above 0 cs).map (·.1)) := by
        intro o ho hprefix
        obtain ⟨h, hh, rfl⟩ := List.mem_map.1 ho
        obtain ⟨j, -, hj⟩ := q.above_of_mem_hitsList cs above 0 hh
        exact absurd (hj.trans (Site.prefix_path_iff.1 hprefix)) not_cons_suffix
      rw [List.filter_cons_of_pos, filter_nodesList cs above 0]
      exact decide_eq_true hself
theorem filter_nodesList : ∀ (ts : List Tree) (above : List Nat) (i : Nat),
    (Tree.nodesList above i ts).filter (·.ClearOf ((q.hitsList above i ts).map (·.1))) =
      q.triedList above i ts
  | [], _, _ => rfl
  | t :: ts, above, i => by
    rw [Tree.nodesList, hitsList, triedList, List.filter_append, List.map_append]
    rw [← filter_nodes t, ← filter_nodesList ts above (i + 1)]
    congr 1
    · refine List.filter_congr fun s hs => decide_eq_decide.2 ?_
      refine Site.clearOf_append.trans (and_iff_left ?_)
      refine Site.clearOf_of_suffix (Tree.above_of_mem_nodes t _ hs) fun o ho => ?_
      obtain ⟨h, hh, rfl⟩ := List.mem_map.1 ho
      obtain ⟨j, hij, hj⟩ := q.above_of_mem_hitsList ts above (i + 1) hh
      exact ⟨j, Nat.ne_of_gt hij, hj⟩
    · refine List.filter_congr fun s hs => decide_eq_decide.2 ?_
      obtain ⟨j, hij, hj⟩ := Tree.above_of_mem_nodesList ts above (i + 1) hs
      refine Site.clearOf_append.trans (and_iff_right ?_)
      refine Site.clearOf_of_suffix hj fun o ho => ?_
      obtain ⟨h, hh, rfl⟩ := List.mem_map.1 ho
      exact ⟨i, Nat.ne_of_lt hij, q.above_of_mem_hits t (i :: above) hh⟩
end

-- ---------------------------------------------------------------------------
-- The nodes that a pass tries
-- ---------------------------------------------------------------------------

def admits (s : Site) : Bool := s.tree.tag?.any q.dispatch.admits

theorem events_visit (p : Pass) (s : Site) (outcome : Outcome) (edit : Editor) :
    (p.visit s outcome edit).1.events = p.events := by
  unfold Pass.visit
  dsimp only
  split <;> rfl

mutual
theorem events_walk (edit : Editor) : ∀ (t : Tree) (above : List Nat) (p : Pass),
    (Pass.walk q q.dispatch edit above t p).2 = none →
      (Pass.walk q q.dispatch edit above t p).1.events =
        p.events ++ ((q.triedFrom above t).filter q.admits).flatMap q.traceSite
  | .leaf _ _, _, p, _ => (List.append_nil p.events).symm
  | .node tag cs span, above, p, h => by
    let s : Site := ⟨above, .node tag cs span⟩
    by_cases hadmits : q.dispatch.admits tag = true
    · have hs : q.admits s = true := hadmits
      by_cases hmatch : (q.matchSite s).isMatch = true
      · simp only [Pass.walk, triedFrom, hadmits, hmatch, ↓reduceIte, events_visit, s]
        rw [List.filter_cons_of_pos hs]
        exact congrArg (p.events ++ ·) (List.append_nil _).symm
      · simp only [Pass.walk, triedFrom, hadmits, hmatch, Bool.false_eq_true, ↓reduceIte, s] at h ⊢
        rw [events_walkList edit cs above 0 _ h, List.filter_cons_of_pos hs, List.flatMap_cons,
          List.append_assoc]
    · have hs : ¬ q.admits s = true := hadmits
      have hmatch : ¬ (q.matchSite s).isMatch = true := fun hm => hadmits (q.dispatch_admits rfl hm)
      simp only [Pass.walk, triedFrom, hadmits, hmatch, Bool.false_eq_true, ↓reduceIte, s] at h ⊢
      rw [events_walkList edit cs above 0 p h, List.filter_cons_of_neg hs]
theorem events_walkList (edit : Editor) : ∀ (ts : List Tree) (above : List Nat) (i : Nat)
    (p : Pass), (Pass.walkList q q.dispatch edit above i ts p).2 = none →
      (Pass.walkList q q.dispatch edit above i ts p).1.events =
        p.events ++ ((q.triedList above i ts).filter q.admits).flatMap q.traceSite
  | [], _, _, p, _ => (List.append_nil p.events).symm
  | t :: ts, above, i, p, h => by
    have hfirst := events_walk edit t (i :: above) p
    rw [Pass.walkList] at h ⊢
    generalize Pass.walk q q.dispatch edit (i :: above) t p = result at h hfirst
    obtain ⟨p', fault⟩ := result
    cases fault with
    | some e => cases h
    | none =>
      rw [triedList, List.filter_append, List.flatMap_append, ← List.append_assoc, ← hfirst rfl]
      exact events_walkList edit ts above (i + 1) p' h
end

-- ---------------------------------------------------------------------------
-- Recorded attempts
-- ---------------------------------------------------------------------------

/-- The nodes that no occurrence stands above, in pre-order. -/
def reached (q : Query) (t : Tree) : List Site :=
  (t.nodes []).filter (·.ClearOf ((q.search t).map (·.site)))

theorem reached_eq (q : Query) (t : Tree) : q.reached t = q.triedFrom [] t := by
  have hsites : (q.search t).map (·.site) = (q.hits [] t).map (·.1) := by
    refine List.ext_getElem? fun i => ?_
    rw [List.getElem?_map, List.getElem?_map, getElem?_search, Option.map_map]
    rfl
  rw [reached, hsites, filter_nodes]

theorem attempts_flatMap (q : Query) (sites : List Site) :
    attempts (sites.flatMap q.traceSite) = sites.map q.attemptOn := by
  induction sites with
  | nil => rfl
  | cons s sites ih =>
    rw [List.flatMap_cons, attempts, List.filterMap_append, ← attempts, ← attempts,
      q.attempts_traceSite, ih]
    rfl

/-- The events of a match come from its evaluation. They are balanced, at the depth of the attempts
that are under way and each with its verdict, and the outermost attempt ends with the verdict of the
match. Recorded attempts are, for a search, the nodes that no occurrence stands above, in pre-order;
for a pass whose editor accepts every occurrence, those of them that the dispatch admits. -/
theorem events_balanced (q : Query) (t : Tree) :
    (∀ s, q.root.observe 0 (some s) [] = (q.root.judge (some s) [], q.traceSite s) ∧
      Balanced [] (q.traceSite s) ∧
      ∃ inner, q.traceSite s = .enter 0 q.root (some s) :: inner ++
          [.exit 0 q.root (some s) (q.matchSite s).isMatch] ∧
        ∀ e ∈ inner, 0 < e.depth) ∧
    attempts (q.searchTrace [] t) = (q.reached t).map q.attemptOn ∧
    ∀ edit : Editor, (∀ o ∈ q.search t, ∃ edits, edit o = .ok edits) →
      attempts (q.pass t edit).1.events = ((q.reached t).filter q.admits).map q.attemptOn := by
  refine ⟨fun s => ⟨observe_eq _ _ _ _, q.balanced_traceSite s, q.exists_traceSite s⟩, ?_, ?_⟩
  · rw [searchTrace_eq, attempts_flatMap, reached_eq]
  · intro edit hedit
    have hfault : (q.pass t edit).2 = none :=
      (Pass.pass_agrees q t edit).fault.trans (Pass.ask_of_forall_ok hedit)
    have hevents := q.events_walk edit t [] Pass.start hfault
    rw [pass, hevents, reached_eq]
    exact q.attempts_flatMap _

theorem events_balanced_numbers :
    let q : Query := .ofPattern (.union [.literal (.sym "int"), .literal (.sym "float")])
    let form (tag : String) (cs : List Tree) : Tree := .node tag cs none
    let t : Tree := form "begin" [form "int" [], form "array" [form "float" [], form "str" []]]
    let edit : Editor := fun _ => .ok []
    (∀ o ∈ q.search t, ∃ edits, edit o = .ok edits) ∧
      Balanced [] (q.traceSite (.root t)) ∧
      attempts (q.searchTrace [] t) =
        [("begin", false), ("int", true), ("array", false), ("float", true), ("str", false)] ∧
      attempts (q.pass t edit).1.events = [("int", true), ("float", true)] := by
  intro q form t edit
  have hedit : ∀ o ∈ q.search t, ∃ edits, edit o = .ok edits := fun _ _ => ⟨[], rfl⟩
  obtain ⟨hmatch, hsearch, hpass⟩ := events_balanced q t
  exact ⟨hedit, (hmatch (.root t)).2.1, hsearch.trans (by decide +kernel),
    (hpass edit hedit).trans (by decide +kernel)⟩

end Query

end TreeQuery
