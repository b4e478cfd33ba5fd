import TreeQuery.Tree

/-!
# Sites

A site is a value of a tree together with the child positions that lead to it from the root, so
that equal values at two places stay apart. The positions are kept from the value upwards, where
the next one is added; `path` has them from the root.
-/

namespace TreeQuery

namespace Tree

def at? : Tree → List Nat → Option Tree
  | t, [] => some t
  | t, i :: path => t.children[i]?.bind (at? · path)

end Tree

structure Site where
  above : List Nat
  tree : Tree

namespace Site

def root (t : Tree) : Site := ⟨[], t⟩

def path (s : Site) : List Nat := s.above.reverse

def child (s : Site) (i : Nat) (t : Tree) : Site := ⟨i :: s.above, t⟩

@[simp] theorem path_root (t : Tree) : (root t).path = [] := rfl

@[simp] theorem path_child (s : Site) (i : Nat) (t : Tree) :
    (s.child i t).path = s.path ++ [i] := by
  simp [path, child]

def childrenFrom (s : Site) : Nat → List Tree → List Site
  | _, [] => []
  | i, t :: ts => s.child i t :: s.childrenFrom (i + 1) ts

def children (s : Site) : List Site := s.childrenFrom 0 s.tree.children

/-- The site belongs to the tree with this root. -/
def Within (s : Site) (root : Tree) : Prop := root.at? s.path = some s.tree

end Site

end TreeQuery
