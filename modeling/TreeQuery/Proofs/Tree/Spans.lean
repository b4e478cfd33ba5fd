import TreeQuery.Tree
import TreeQuery.Tree.Site

/-!
# Trees and their spans

Comparison looks through spans: `same` says of two trees what it says of their `bare` forms.
`shift` moves every span of a tree, `Spanned` says that no value of it is without one.
-/

namespace TreeQuery

namespace Span

def shift (n : Nat) (s : Span) : Span := ⟨s.start + n, s.stop + n, by have := s.le; omega⟩

theorem shift_between (n pos k : Nat) :
    (between pos (pos + k)).shift n = between (pos + n) (pos + n + k) := by
  simp only [shift, between, Span.mk.injEq]
  omega

theorem shift_between_offsets (n a b : Nat) :
    (between a b).shift n = between (a + n) (b + n) := by
  simp only [shift, between, Span.mk.injEq]
  omega

end Span

namespace Tree

mutual
def shift (n : Nat) : Tree → Tree
  | .leaf a span => .leaf a (span.map (·.shift n))
  | .node tag cs span => .node tag (shiftList n cs) (span.map (·.shift n))
def shiftList (n : Nat) : List Tree → List Tree
  | [] => []
  | t :: ts => shift n t :: shiftList n ts
end

theorem span_shift (n : Nat) (t : Tree) : (t.shift n).span = t.span.map (·.shift n) := by
  cases t <;> rfl

theorem shiftList_eq_map (n : Nat) (ts : List Tree) : shiftList n ts = ts.map (shift n) := by
  induction ts with
  | nil => rfl
  | cons t ts ih => rw [shiftList, ih, List.map_cons]

mutual
def Spanned : Tree → Prop
  | .leaf _ span => span ≠ none
  | .node _ cs span => span ≠ none ∧ SpannedList cs
def SpannedList : List Tree → Prop
  | [] => True
  | t :: ts => Spanned t ∧ SpannedList ts
end

mutual
@[simp] theorem bare_shift (n : Nat) : ∀ t : Tree, (t.shift n).bare = t.bare
  | .leaf _ _ => rfl
  | .node _ cs _ => by simp [shift, bare, bareList_shiftList n cs]
@[simp] theorem bareList_shiftList (n : Nat) : ∀ ts : List Tree,
    bareList (shiftList n ts) = bareList ts
  | [] => rfl
  | t :: ts => by simp [shiftList, bareList, bare_shift n t, bareList_shiftList n ts]
end

mutual
theorem same_bare : ∀ t u : Tree, t.bare.same u.bare = t.same u
  | .leaf _ _, .leaf _ _ => rfl
  | .leaf _ _, .node _ _ _ => rfl
  | .node _ _ _, .leaf _ _ => rfl
  | .node _ cs _, .node _ ds _ => by simp only [bare, same, sameList_bareList cs ds]
theorem sameList_bareList : ∀ ts us : List Tree,
    sameList (bareList ts) (bareList us) = sameList ts us
  | [], [] => rfl
  | [], _ :: _ => rfl
  | _ :: _, [] => rfl
  | t :: ts, u :: us => by simp only [bareList, sameList, same_bare t u, sameList_bareList ts us]
end

variable {t u : Tree} {ts us : List Tree}

/-- A tree that is comparable, as one without NaN is, is the same as every tree that differs from
it in spans only. -/
theorem same_of_bare_eq (h : t.bare = u.bare) (ht : t.same t = true) : t.same u = true := by
  rwa [← same_bare, ← h, same_bare]

theorem Spanned.span (h : t.Spanned) : t.span ≠ none := by
  cases t with
  | leaf => exact h
  | node => exact h.1

theorem Spanned.children (h : t.Spanned) : SpannedList t.children := by
  cases t with
  | leaf => exact trivial
  | node => exact h.2

theorem spanned_of_mem (h : SpannedList ts) (ht : t ∈ ts) : t.Spanned := by
  induction ts with
  | nil => cases ht
  | cons u us ih =>
    rcases List.mem_cons.1 ht with rfl | ht
    · exact h.1
    · exact ih h.2 ht

theorem span_of_mem (h : SpannedList ts) (ht : t ∈ ts) : t.span ≠ none :=
  (spanned_of_mem h ht).span

theorem Spanned.at? {path : List Nat} (h : t.Spanned) (hu : t.at? path = some u) : u.Spanned := by
  induction path generalizing t with
  | nil =>
    cases hu
    exact h
  | cons i path ih =>
    obtain ⟨c, hc, hu⟩ := Option.bind_eq_some_iff.1 hu
    exact ih (spanned_of_mem h.children (List.mem_of_getElem? hc)) hu

theorem textIn_of_text? {span : Span} {source text : List Char} (hspan : t.span = some span)
    (htext : span.text? source = some text) : t.textIn source = text := by
  simp [Tree.textIn, hspan, htext]

theorem length_bareList (ts : List Tree) : (bareList ts).length = ts.length := by
  induction ts with
  | nil => rfl
  | cons t ts ih => simp [bareList, ih]

theorem isNode_bare (t : Tree) : t.bare.isNode = t.isNode := by
  cases t <;> rfl

theorem forall_isNode_bareList : (∀ t ∈ bareList ts, t.isNode = true) ↔
    ∀ t ∈ ts, t.isNode = true := by
  induction ts with
  | nil => simp [bareList]
  | cons t ts ih => simp [bareList, ih, isNode_bare]

end Tree

end TreeQuery
