import TreeQuery.Proofs.Edit.Splice
import TreeQuery.Proofs.Match.Topmost

/-!
# Replacing parts of a tree

`Tree.patch` replaces the topmost nodes at given places of a tree, `Tree.cuts` are the edits that
do the same to its text. Hits of a query stand at places of their own, none below another, so
what is looked up by place is looked up by hit (`Query.cuts_eq_hits`).
-/

namespace TreeQuery

namespace Tree

mutual
/-- The tree with other trees at the places, given as in a site, where there are such. -/
def patch (new : List Nat → Option Tree) (above : List Nat) : Tree → Tree
  | .leaf a span => .leaf a span
  | .node tag cs span => (new above).getD (.node tag (patchList new above 0 cs) span)
def patchList (new : List Nat → Option Tree) (above : List Nat) : Nat → List Tree → List Tree
  | _, [] => []
  | i, t :: ts => patch new (i :: above) t :: patchList new above (i + 1) ts
end

theorem length_patchList (new : List Nat → Option Tree) (above : List Nat) (i : Nat)
    (ts : List Tree) : (patchList new above i ts).length = ts.length := by
  induction ts generalizing i with
  | nil => rfl
  | cons t ts ih => simp [patchList, ih]

theorem isNode_patch {new : List Nat → Option Tree} (hnew : ∀ p u, new p = some u → u.isNode = true)
    (above : List Nat) (t : Tree) : (t.patch new above).isNode = t.isNode := by
  cases t with
  | leaf => rfl
  | node tag cs span =>
    rw [patch]
    cases hu : new above with
    | none => rfl
    | some u => exact hnew above u hu

theorem forall_isNode_patchList {new : List Nat → Option Tree}
    (hnew : ∀ p u, new p = some u → u.isNode = true) (above : List Nat) (i : Nat)
    {ts : List Tree} (hts : ∀ t ∈ ts, t.isNode = true) :
    ∀ t ∈ patchList new above i ts, t.isNode = true := by
  induction ts generalizing i with
  | nil => nofun
  | cons t ts ih =>
    obtain ⟨ht, hts⟩ := List.forall_mem_cons.1 hts
    rw [patchList]
    exact List.forall_mem_cons.2 ⟨by rwa [isNode_patch hnew], ih (i + 1) hts⟩

mutual
/-- The replacements of the topmost nodes for which there is a text. -/
def cuts (new : List Nat → Option (List Char)) (above : List Nat) : Tree → List Edit
  | .leaf .. => []
  | .node _ cs span =>
    match new above with
    | some text => span.toList.map (Edit.replace · text)
    | none => cutsList new above 0 cs
def cutsList (new : List Nat → Option (List Char)) (above : List Nat) :
    Nat → List Tree → List Edit
  | _, [] => []
  | i, t :: ts => cuts new (i :: above) t ++ cutsList new above (i + 1) ts
end

variable {new : List Nat → Option (List Char)}

mutual
theorem cuts_eq_nil : ∀ (t : Tree) (above : List Nat), (∀ p, above <:+ p → new p = none) →
    cuts new above t = []
  | .leaf _ _, _, _ => rfl
  | .node _ cs _, above, h => by
    rw [cuts, h above (List.suffix_refl above)]
    exact cutsList_eq_nil cs above 0 fun p j hp => h p ((List.suffix_cons j above).trans hp)
theorem cutsList_eq_nil : ∀ (ts : List Tree) (above : List Nat) (i : Nat),
    (∀ p j, (j :: above) <:+ p → new p = none) → cutsList new above i ts = []
  | [], _, _, _ => rfl
  | t :: ts, above, i, h => by
    rw [cutsList, cuts_eq_nil t (i :: above) fun p hp => h p i hp,
      cutsList_eq_nil ts above (i + 1) h]
    rfl
end

end Tree

namespace Query

-- ---------------------------------------------------------------------------
-- The places of hits
-- ---------------------------------------------------------------------------

variable (q : Query) {h : Site × Outcome} {above : List Nat} {i : Nat}

theorem above_of_mem_hits (t : Tree) (above : List Nat) (hm : h ∈ q.hits above t) :
    above <:+ h.1.above := by
  obtain ⟨path, hat⟩ := mem_hits.1 hm
  exact ⟨path.reverse, hat.above.symm⟩

theorem above_of_mem_hitsList (ts : List Tree) (above : List Nat) (i : Nat)
    (hm : h ∈ q.hitsList above i ts) : ∃ j, i ≤ j ∧ (j :: above) <:+ h.1.above := by
  obtain ⟨j, t, path, -, hat⟩ := mem_hitsList.1 hm
  exact ⟨i + j, Nat.le_add_right i j, path.reverse, hat.above.symm⟩

theorem not_cons_suffix : ¬ (i :: above) <:+ above := fun hs => Nat.not_succ_le_self _ hs.length_le

theorem eq_of_suffix {i j : Nat} {p : List Nat} (hi : (i :: above) <:+ p)
    (hj : (j :: above) <:+ p) : i = j := by
  have h := List.suffix_of_suffix_length_le hi hj (Nat.le_refl _)
  have := h.eq_of_length rfl
  simpa using this

theorem pairwise_hits (t : Tree) (above : List Nat) :
    (q.hits above t).Pairwise (fun a b => a.1.above ≠ b.1.above) := by
  refine (precedes_hits t above).imp fun hprecedes heq => hprecedes.2 ?_
  rw [Site.path, heq]
  exact List.prefix_refl _

-- ---------------------------------------------------------------------------
-- Cuts at hits
-- ---------------------------------------------------------------------------

def cutHit (new : List Nat → Option (List Char)) (h : Site × Outcome) : List Edit :=
  match new h.1.above with
  | some text => h.1.tree.span.toList.map (Edit.replace · text)
  | none => []

variable {new : List Nat → Option (List Char)}

mutual
theorem cuts_eq_hits : ∀ (t : Tree) (above : List Nat),
    (∀ p, above <:+ p → new p ≠ none → ∃ h ∈ q.hits above t, h.1.above = p) →
    t.cuts new above = (q.hits above t).flatMap (cutHit new)
  | .leaf _ _, _, _ => rfl
  | .node tag cs span, above, hnew => by
    rw [hits] at hnew ⊢
    split at hnew
    · next hm =>
      have hbelow : ∀ p j, (j :: above) <:+ p → new p = none := by
        intro p j hp
        by_contra hne
        obtain ⟨h, hh, rfl⟩ := hnew p ((List.suffix_cons j above).trans hp) hne
        rw [List.mem_singleton.1 hh] at hp
        exact not_cons_suffix hp
      rw [if_pos hm, List.flatMap_singleton, Tree.cuts, cutHit]
      cases hn : new above with
      | some text => rfl
      | none => exact Tree.cutsList_eq_nil cs above 0 hbelow
    · next hm =>
      have hnone : new above = none := by
        by_contra hne
        obtain ⟨h, hh, he⟩ := hnew above (List.suffix_refl above) hne
        obtain ⟨j, -, hj⟩ := q.above_of_mem_hitsList cs above 0 hh
        exact not_cons_suffix (he ▸ hj)
      rw [if_neg hm, Tree.cuts, hnone]
      exact cutsList_eq_hits cs above 0 fun p j _ hp hne =>
        hnew p ((List.suffix_cons j above).trans hp) hne
theorem cutsList_eq_hits : ∀ (ts : List Tree) (above : List Nat) (i : Nat),
    (∀ p j, i ≤ j → (j :: above) <:+ p → new p ≠ none →
      ∃ h ∈ q.hitsList above i ts, h.1.above = p) →
    Tree.cutsList new above i ts = (q.hitsList above i ts).flatMap (cutHit new)
  | [], _, _, _ => rfl
  | t :: ts, above, i, hnew => by
    rw [Tree.cutsList, hitsList, List.flatMap_append]
    rw [cuts_eq_hits t (i :: above), cutsList_eq_hits ts above (i + 1)]
    · intro p j hij hp hne
      obtain ⟨h, hh, rfl⟩ := hnew p j (by omega) hp hne
      rcases List.mem_append.1 hh with hh | hh
      · have := eq_of_suffix (q.above_of_mem_hits t (i :: above) hh) hp
        omega
      · exact ⟨h, hh, rfl⟩
    · intro p hp hne
      obtain ⟨h, hh, rfl⟩ := hnew p i (Nat.le_refl i) hp hne
      rcases List.mem_append.1 hh with hh | hh
      · exact ⟨h, hh, rfl⟩
      · obtain ⟨j, hij, hj⟩ := q.above_of_mem_hitsList ts above (i + 1) hh
        have := eq_of_suffix hp hj
        omega
end

end Query

end TreeQuery
