import TreeQuery.Number.Integer

/-!
# Combinations

A combination is a finite set of occurrence numbers, kept in increasing order. Two combinations
with the same members are equal.
-/

namespace TreeQuery

/-- Puts a number into an increasing list that does not hold it yet. -/
def insertIndex (n : Nat) : List Nat → List Nat
  | [] => [n]
  | m :: ms => if n < m then n :: m :: ms else if n = m then m :: ms else m :: insertIndex n ms

theorem mem_insertIndex {a n : Nat} {l : List Nat} : a ∈ insertIndex n l ↔ a = n ∨ a ∈ l := by
  induction l with
  | nil => simp [insertIndex]
  | cons m ms ih =>
    unfold insertIndex
    split
    · simp
    · split
      · next h => simp [h]
      · simp [ih, or_left_comm]

theorem pairwise_insertIndex {n : Nat} {l : List Nat} (h : l.Pairwise (· < ·)) :
    (insertIndex n l).Pairwise (· < ·) := by
  induction l with
  | nil => simp [insertIndex]
  | cons m ms ih =>
    have hm := List.pairwise_cons.1 h
    unfold insertIndex
    split
    · next hn =>
      refine List.pairwise_cons.2 ⟨fun a ha => ?_, h⟩
      rcases List.mem_cons.1 ha with rfl | ha
      · exact hn
      · exact Nat.lt_trans hn (hm.1 a ha)
    · split
      · exact h
      · refine List.pairwise_cons.2 ⟨fun a ha => ?_, ih hm.2⟩
        rcases mem_insertIndex.1 ha with rfl | ha
        · omega
        · exact hm.1 a ha

structure Combination where
  indices : List Nat
  increasing : indices.Pairwise (· < ·)
deriving DecidableEq

namespace Combination

instance : Membership Nat Combination := ⟨fun c n => n ∈ c.indices⟩

instance (n : Nat) (c : Combination) : Decidable (n ∈ c) :=
  inferInstanceAs (Decidable (n ∈ c.indices))

def empty : Combination := ⟨[], .nil⟩

def singleton (n : Nat) : Combination := ⟨[n], List.pairwise_singleton _ n⟩

def insert (n : Nat) (c : Combination) : Combination :=
  ⟨insertIndex n c.indices, pairwise_insertIndex c.increasing⟩

def ofList (ns : List Nat) : Combination := ns.foldl (fun c n => c.insert n) empty

def union (c d : Combination) : Combination := d.indices.foldl (fun e n => e.insert n) c

def isSubset (c d : Combination) : Bool := c.indices.all (d.indices.contains ·)

def size (c : Combination) : Nat := c.indices.length

/-- The numbers joined by underscores. -/
def label (c : Combination) : List Char :=
  (List.intersperse ['_'] (c.indices.map Number.decimal)).flatten

@[simp] theorem mem_insert {a n : Nat} {c : Combination} : a ∈ c.insert n ↔ a = n ∨ a ∈ c :=
  mem_insertIndex

theorem mem_foldl_insert {a : Nat} (ns : List Nat) (c : Combination) :
    a ∈ ns.foldl (fun e n => e.insert n) c ↔ a ∈ ns ∨ a ∈ c := by
  induction ns generalizing c with
  | nil => simp
  | cons n ns ih => simp [ih, or_left_comm, or_assoc]

@[simp] theorem mem_union {a : Nat} {c d : Combination} : a ∈ c.union d ↔ a ∈ c ∨ a ∈ d :=
  (mem_foldl_insert d.indices c).trans or_comm

@[simp] theorem mem_ofList {a : Nat} {ns : List Nat} : a ∈ ofList ns ↔ a ∈ ns :=
  (mem_foldl_insert ns empty).trans
    (or_iff_left (fun h => nomatch (show a ∈ ([] : List Nat) from h)))

end Combination

end TreeQuery
