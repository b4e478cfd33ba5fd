import TreeQuery.Match.Search
import TreeQuery.Proofs.Pattern.Rendering
import TreeQuery.Proofs.Tree.Every

/-!
# Queries by example

The rendering of a tree can be read as a pattern: a node becomes a sequence with its tag first, a
leaf a literal. If tags and symbols are written as the tokens they should be, the rendering compiles
to that pattern, and the pattern fits the tree and whatever only has further children
(`compile_example`).
-/

namespace TreeQuery

open Pattern (Spells SpellsAll)
open Pattern.Token (IsName operators markedLines)

namespace Pattern

/-- The pattern that a tag becomes; a line is a wildcard. -/
def ofTag (tag : String) : Pattern :=
  if tag = "_" then .wildcard else .literal (.sym tag)

def ofScalar : Scalar → Literal
  | .int n => .int n
  | .float x => .float x
  | .str text => .str text
  | .sym name => .sym name
  | .nil => .nil

mutual
def ofTree : Tree → Pattern
  | .leaf a _ => .literal (ofScalar a)
  | .node tag cs _ => .sequence (ofTag tag :: ofTrees cs)
def ofTrees : List Tree → List Pattern
  | [] => []
  | t :: ts => ofTree t :: ofTrees ts
end

mutual
theorem captures_ofTree : ∀ t : Tree, (ofTree t).captures = 0
  | .leaf .. => rfl
  | .node tag cs _ => by
    have htag : (ofTag tag).captures = 0 := by
      unfold ofTag
      split <;> rfl
    rw [ofTree, captures, capturesList, htag, capturesList_ofTrees cs]
theorem capturesList_ofTrees : ∀ ts : List Tree, capturesList (ofTrees ts) = 0
  | [] => rfl
  | t :: ts => by rw [ofTrees, capturesList, captures_ofTree t, capturesList_ofTrees ts]
end

end Pattern

-- ---------------------------------------------------------------------------
-- What the example fits
-- ---------------------------------------------------------------------------

namespace Tree

mutual
/-- The other tree has the same leaves and nodes, and perhaps further children at the end of any of
the nodes; spans play no part. -/
def GrowsTo : Tree → Tree → Prop
  | .leaf a _, .leaf b _ => a = b
  | .node s as _, .node t bs _ => s = t ∧ GrowToList as bs
  | _, _ => False
def GrowToList : List Tree → List Tree → Prop
  | [], _ => True
  | a :: as, b :: bs => GrowsTo a b ∧ GrowToList as bs
  | _ :: _, [] => False
end

mutual
theorem growsTo_refl : ∀ t : Tree, t.GrowsTo t
  | .leaf .. => rfl
  | .node _ cs _ => ⟨rfl, by simpa using growToList_append cs []⟩
theorem growToList_append : ∀ ts more : List Tree, GrowToList ts (ts ++ more)
  | [], _ => trivial
  | t :: ts, more => ⟨growsTo_refl t, growToList_append ts more⟩
end

end Tree

namespace Pattern

variable {tag : String} {a : Scalar} {t u : Tree} {ts us : List Tree} {above : List Nat}
  {captured : List Site}

theorem judge_ofScalar (a : Scalar) (span : Option Span) :
    (Pattern.literal (ofScalar a)).judge (some ⟨above, .leaf a span⟩) captured = some captured := by
  rw [judge, keep_eq_some_iff]
  cases a <;> simp [ofScalar, Literal.fits, Literal.fitsScalar, Target.isAbsent, Tree.isNil]

theorem judge_ofTag (tag : String) (cs : List Tree) (span : Option Span) :
    (ofTag tag).judge (some ⟨above, .node tag cs span⟩) captured = some captured := by
  unfold ofTag
  split <;> rw [judge, keep_eq_some_iff] <;>
    simp [Literal.fits, Target.isAbsent, Tree.isNil]

mutual
theorem judge_ofTree : ∀ {t u : Tree} {above : List Nat}, t.GrowsTo u →
    (ofTree t).judge (some ⟨above, u⟩) captured = some captured
  | .leaf a _, .leaf b span, above, h => by
    obtain rfl : a = b := h
    exact judge_ofScalar a span
  | .node s as _, .node t bs span, above, h => by
    obtain ⟨rfl, hchildren⟩ := h
    rw [ofTree, judge]
    simp only [Tree.isNode, if_true]
    rw [judgeForm, judge_ofTag, Option.bind_some]
    exact judgeChildren_ofTrees ⟨above, .node s bs span⟩ 0 hchildren
theorem judgeChildren_ofTrees (s : Site) : ∀ {ts us : List Tree} (i : Nat),
    Tree.GrowToList ts us →
    judgeChildren (ofTrees ts) (s.childrenFrom i us) captured = some captured
  | [], _, _, _ => by rw [ofTrees, judgeChildren]
  | t :: ts, u :: us, i, h => by
    have hmember : ofTree t ≠ .nonempty := by cases t <;> exact nofun
    have hfirst : (ofTree t).judge (some (s.child i u)) captured = some captured :=
      judge_ofTree h.1
    rw [ofTrees, Site.childrenFrom, judgeChildren, List.head?_cons, hfirst, Option.bind_some,
      List.tail_cons]
    · exact judgeChildren_ofTrees s (i + 1) h.2
    · exact hmember
end

-- ---------------------------------------------------------------------------
-- The rendering compiles to the example
-- ---------------------------------------------------------------------------

structure IsExampleTag (tag : String) : Prop where
  spelled : tag.toList ∈ operators ∨ IsName tag.toList
  ne_nil : tag ≠ "nil"
  digit : (tag.toList.head?.map Char.isDigit).getD false = false
  unmarked : tag.toList ∉ markedLines

def IsExampleScalar : Scalar → Prop
  | .float _ => False
  | .sym name => name.toList ∈ operators ∨ IsName name.toList
  | .int _ | .str _ | .nil => True

theorem spells_ofTag (last : Bool) (h : IsExampleTag tag) :
    ∃ ks, Spells last tag.toList (ofTag tag) ks := by
  unfold ofTag
  split
  · next hline =>
    subst hline
    exact ⟨_, .atom Token.piece_wildcard .wildcard nofun⟩
  · next hline =>
    have hrender : (Literal.sym tag).render = tag.toList := by
      have hnil : tag.toList ≠ "nil".toList := fun he => h.ne_nil (String.toList_inj.1 he)
      have hname : tag.toList ≠ ['_'] := fun he => hline (String.toList_inj.1 he)
      have hcolon : Literal.needsColon tag.toList = false := by
        simp only [Literal.needsColon, hnil, hname, h.digit, decide_false, Bool.or_self]
      rw [Literal.render, hcolon, if_neg Bool.false_ne_true]
    rw [← hrender]
    rcases h.spelled with hop | hname
    · exact spells_operator hop
    · exact spells_name hname h.unmarked

theorem spells_ofScalar (last : Bool) (h : IsExampleScalar a) :
    ∃ ks, Spells last a.render (.literal (ofScalar a)) ks := by
  have hfloat : ReadBack fun _ => False := nofun
  cases a with
  | int n => exact spells_literal (l := .int n) hfloat trivial
  | float x => exact h.elim
  | str text => exact spells_literal (l := .str text) hfloat trivial
  | sym name =>
    rcases h with hop | hname
    · exact ⟨_, .atom (Token.piece_colon_operator hop) (atom_symbol name) nofun⟩
    · exact ⟨_, .atom (Token.piece_colon hname) (atom_symbol name) nofun⟩
  | nil => exact spells_literal (l := .nil) hfloat trivial

theorem render_node (tag : String) (cs : List Tree) (span : Option Span) :
    (Tree.node tag cs span).render =
      bracketed .round (tag.toList :: cs.map Tree.render) := by
  suffices h : ∀ text : List Char,
      text ++ Tree.renderList cs = (List.intersperse [' '] (text :: cs.map Tree.render)).flatten by
    rw [Tree.render, bracketed, ← h]
    rfl
  induction cs with
  | nil => simp [Tree.renderList]
  | cons c cs ih =>
    intro text
    simp [Tree.renderList, ← ih]

mutual
theorem spells_ofTree : ∀ {t : Tree} (last : Bool), t.Every IsExampleScalar IsExampleTag →
    ∃ ks, Spells last t.render (ofTree t) ks
  | .leaf a _, last, h => spells_ofScalar last h
  | .node tag [] span, last, h => by
    obtain ⟨ks, htag⟩ := spells_ofTag true h.1
    rw [render_node]
    exact ⟨_, (SpellsAll.singleton htag).group .round⟩
  | .node tag (c :: cs) span, last, h => by
    obtain ⟨ks, htag⟩ := spells_ofTag false h.1
    obtain ⟨ks', hchildren⟩ := spellsAll_ofTrees h.2
    have hne : (c :: cs).map Tree.render ≠ [] := List.cons_ne_nil _ _
    rw [render_node]
    exact ⟨_, (htag.cons hne hchildren).group .round⟩
theorem spellsAll_ofTrees : ∀ {ts : List Tree},
    Tree.EveryList IsExampleScalar IsExampleTag ts →
    ∃ ks, SpellsAll (ts.map Tree.render) (ofTrees ts) ks
  | [], _ => ⟨_, .nil⟩
  | [t], h => by
    obtain ⟨ks, ht⟩ := spells_ofTree true h.1
    exact ⟨_, .singleton ht⟩
  | t :: u :: ts, h => by
    obtain ⟨ks, ht⟩ := spells_ofTree false h.1
    obtain ⟨ks', hts⟩ := spellsAll_ofTrees h.2
    have hne : (u :: ts).map Tree.render ≠ [] := List.cons_ne_nil _ _
    exact ⟨_, ht.cons hne hts⟩
end

end Pattern

/-- The rendering of a tree without floats, whose tags are operators or names that are not read as
something else and whose symbols are operators or names, compiles to a query without captures. It
fits the tree, and every tree that has further children behind those of some nodes. -/
theorem Query.compile_example (t : Tree)
    (h : t.Every Pattern.IsExampleScalar Pattern.IsExampleTag) :
    ∃ q, Query.compile t.render [] = .ok q ∧ q.captures = 0 ∧ q.matchTree t = .matched ∧
      ∀ u, t.GrowsTo u → q.matchTree u = .matched := by
  obtain ⟨ks, hspells⟩ := Pattern.spells_ofTree true h
  have hcaptures : (Pattern.ofTree t).captures = 0 := Pattern.captures_ofTree t
  have hgrown : ∀ u, t.GrowsTo u →
      Query.matchTree ⟨t.render, Pattern.ofTree t⟩ u = .matched := fun u hu => by
    rw [matchTree, matchSite, Site.root, Pattern.judge_ofTree hu]
    exact if_pos hcaptures
  exact ⟨_, hspells.compile, hcaptures, hgrown t (Tree.growsTo_refl t), hgrown⟩

def Tree.signs (inner outer : List Tree) : Tree :=
  .node "-" ([.leaf (.int (-5)) none, .leaf .nil none, .leaf (.str "say \"nil\"") none,
    .leaf (.sym "nil") none, .leaf (.sym "12") none, .leaf (.sym "==") none,
    .node "_" [.leaf (.sym "_!") none] none, .node "nil?" inner none] ++ outer) none

theorem Query.compile_example_signs :
    ∃ q, Query.compile (Tree.signs [] []).render [] = .ok q ∧ q.captures = 0 ∧
      q.matchTree (.signs [.leaf .nil none] [.node "f" [] none, .leaf (.int 1) none]) =
        .matched := by
  have hnil : IsName "nil".toList := .plain (by decide) (List.all_eq_true.1 rfl)
  have hdigits : IsName "12".toList := .plain (by decide) (List.all_eq_true.1 rfl)
  have hline : IsName "_".toList := .plain (by decide) (List.all_eq_true.1 rfl)
  have hasked : IsName "nil?".toList := .marked (w := "nil".toList) (by decide)
    (List.all_eq_true.1 rfl) rfl
  have hcalled : IsName "_!".toList := .marked (w := ['_']) (by decide) (List.all_eq_true.1 rfl) rfl
  have h : (Tree.signs [] []).Every Pattern.IsExampleScalar Pattern.IsExampleTag :=
    ⟨⟨.inl (by decide), by decide, rfl, by decide⟩, trivial, trivial, trivial, .inr hnil,
      .inr hdigits, .inl (by decide),
      ⟨⟨.inr hline, by decide, rfl, by decide⟩, .inr hcalled, trivial⟩,
      ⟨⟨.inr hasked, by decide, rfl, by decide⟩, trivial⟩, trivial⟩
  obtain ⟨q, hq, hcaptures, -, hgrown⟩ := Query.compile_example _ h
  have hgrows : (Tree.signs [] []).GrowsTo
      (.signs [.leaf .nil none] [.node "f" [] none, .leaf (.int 1) none]) :=
    ⟨rfl, rfl, rfl, rfl, rfl, rfl, rfl, ⟨rfl, rfl, trivial⟩, ⟨rfl, trivial⟩, trivial⟩
  exact ⟨q, hq, hcaptures, hgrown _ hgrows⟩

end TreeQuery
