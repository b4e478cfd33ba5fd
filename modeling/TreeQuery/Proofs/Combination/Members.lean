import Mathlib.Data.Finset.Sort
import Mathlib.Data.List.Sort
import TreeQuery.Combination

/-!
# Combinations as finite sets

`Combination.members` is the finite set of the numbers in a combination. It is one to one and
onto, and every operation on combinations is the operation on sets of the same name.
-/

namespace TreeQuery.Combination

variable {c d : Combination}

def members (c : Combination) : Finset Nat := c.indices.toFinset

@[simp] theorem mem_members {n : Nat} : n ∈ c.members ↔ n ∈ c := List.mem_toFinset

theorem eq_of_members_eq (h : c.members = d.members) : c = d := by
  have hi : c.indices = d.indices := c.increasing.eq_of_mem_iff d.increasing fun n =>
    List.mem_toFinset.symm.trans ((Finset.ext_iff.1 h n).trans List.mem_toFinset)
  cases c
  cases d
  simpa using hi

theorem exists_members_eq (s : Finset Nat) : ∃ c : Combination, c.members = s :=
  ⟨ofList s.sort, by ext n; simp⟩

theorem card_members : c.members.card = c.size :=
  List.toFinset_card_of_nodup (c.increasing.imp Nat.ne_of_lt)

@[simp] theorem members_empty : empty.members = ∅ := rfl

@[simp] theorem members_singleton (n : Nat) : (singleton n).members = {n} := rfl

@[simp] theorem mem_singleton {m n : Nat} : m ∈ singleton n ↔ m = n := List.mem_singleton

@[simp] theorem singleton_inj {m n : Nat} : singleton m = singleton n ↔ m = n := by
  simp [singleton]

@[simp] theorem members_union : (c.union d).members = c.members ∪ d.members := by
  ext n
  simp

theorem union_comm (c d : Combination) : c.union d = d.union c :=
  eq_of_members_eq (by simp [Finset.union_comm])

theorem isSubset_iff : c.isSubset d = true ↔ c.members ⊆ d.members := by
  simp only [isSubset, List.all_eq_true, List.contains_iff_mem, Finset.subset_iff, mem_members]
  rfl

theorem size_le_of_subset (h : c.members ⊆ d.members) : c.size ≤ d.size := by
  rw [← card_members, ← card_members]
  exact Finset.card_le_card h

theorem eq_of_subset_of_size_le (h : c.members ⊆ d.members) (hs : d.size ≤ c.size) : c = d := by
  refine eq_of_members_eq (Finset.eq_of_subset_of_card_le h ?_)
  rwa [card_members, card_members]

theorem size_union_le (c d : Combination) : (c.union d).size ≤ c.size + d.size := by
  rw [← card_members, ← card_members, ← card_members, members_union]
  exact Finset.card_union_le _ _

theorem mem_foldl_union {n : Nat} {cs : List Combination} :
    n ∈ cs.foldl union c ↔ n ∈ c ∨ ∃ d ∈ cs, n ∈ d := by
  induction cs generalizing c with
  | nil => simp
  | cons d cs ih => simp [ih, or_assoc]

/-- A set of more than `k` and at most `2 * k` numbers is the union of two of its parts with `k`
numbers each. -/
theorem exists_halves {k : Nat} (hk : k ≤ c.size) (h2k : c.size ≤ 2 * k) :
    ∃ a b : Combination, a.size = k ∧ b.size = k ∧ a.members ⊆ c.members ∧
      b.members ⊆ c.members ∧ a.union b = c := by
  rw [← card_members] at hk h2k
  obtain ⟨A, hA, hAk⟩ := Finset.exists_subset_card_eq hk
  have hrest : (c.members \ A).card ≤ k := by
    rw [Finset.card_sdiff_of_subset hA]
    omega
  obtain ⟨B, hAB, hB, hBk⟩ := Finset.exists_subsuperset_card_eq Finset.sdiff_subset hrest hk
  obtain ⟨a, rfl⟩ := exists_members_eq A
  obtain ⟨b, rfl⟩ := exists_members_eq B
  refine ⟨a, b, card_members ▸ hAk, card_members ▸ hBk, hA, hB, eq_of_members_eq ?_⟩
  rw [members_union]
  refine Finset.Subset.antisymm (Finset.union_subset hA hB) fun n hn => ?_
  by_cases hna : n ∈ a.members
  · exact Finset.mem_union_left _ hna
  · exact Finset.mem_union_right _ (hAB (Finset.mem_sdiff.2 ⟨hn, hna⟩))

end TreeQuery.Combination
