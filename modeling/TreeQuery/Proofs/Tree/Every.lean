import TreeQuery.Tree

/-!
# Conditions on the scalars and tags of a tree

`Every` says that a condition holds of all scalars and another of all tags. Trees that compare as
equal satisfy the same ones, if comparable scalars do.
-/

namespace TreeQuery.Tree

mutual
/-- All scalars and all tags satisfy their conditions. -/
def Every (scalar : Scalar → Prop) (tag : String → Prop) : Tree → Prop
  | .leaf a _ => scalar a
  | .node s cs _ => tag s ∧ EveryList scalar tag cs
def EveryList (scalar : Scalar → Prop) (tag : String → Prop) : List Tree → Prop
  | [] => True
  | t :: ts => Every scalar tag t ∧ EveryList scalar tag ts
end

section
variable {p p' q : Scalar → Prop} {r r' s : String → Prop}

mutual
theorem Every.and (hscalar : ∀ a, p a → p' a → q a) (htag : ∀ a, r a → r' a → s a) :
    ∀ {t : Tree}, t.Every p r → t.Every p' r' → t.Every q s
  | .leaf a _, h, h' => hscalar a h h'
  | .node tag _ _, h, h' => ⟨htag tag h.1 h'.1, EveryList.and hscalar htag h.2 h'.2⟩
theorem EveryList.and (hscalar : ∀ a, p a → p' a → q a) (htag : ∀ a, r a → r' a → s a) :
    ∀ {ts : List Tree}, EveryList p r ts → EveryList p' r' ts → EveryList q s ts
  | [], _, _ => trivial
  | _ :: _, h, h' => ⟨Every.and hscalar htag h.1 h'.1, EveryList.and hscalar htag h.2 h'.2⟩
end

theorem Every.imp {t : Tree} (h : t.Every p r) (hscalar : ∀ a, p a → q a)
    (htag : ∀ a, r a → s a) : t.Every q s :=
  h.and (fun a ha _ => hscalar a ha) (fun a ha _ => htag a ha) h

mutual
theorem every_of_same (hscalar : ∀ a b : Scalar, a.same b = true → p a → p b) :
    ∀ {t u : Tree}, t.same u = true → t.Every p r → u.Every p r
  | .leaf a _, .leaf b _, hsame, h => hscalar a b hsame h
  | .node _ _ _, .node _ _ _, hsame, h => by
    rw [same, Bool.and_eq_true, beq_iff_eq] at hsame
    exact ⟨hsame.1 ▸ h.1, everyList_of_same hscalar hsame.2 h.2⟩
theorem everyList_of_same (hscalar : ∀ a b : Scalar, a.same b = true → p a → p b) :
    ∀ {ts us : List Tree}, sameList ts us = true → EveryList p r ts → EveryList p r us
  | [], [], _, _ => trivial
  | _ :: _, _ :: _, hsame, h => by
    rw [sameList, Bool.and_eq_true] at hsame
    exact ⟨every_of_same hscalar hsame.1 h.1, everyList_of_same hscalar hsame.2 h.2⟩
end

end

end TreeQuery.Tree
