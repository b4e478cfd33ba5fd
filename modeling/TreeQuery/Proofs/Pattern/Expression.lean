import Mathlib.Data.Set.Subsingleton
import TreeQuery.Proofs.Pattern.Grammar

/-!
# Single expressions

`Expression` derives one pattern at a time, with the token that comes next: only that tells a `!`
that stands for itself from one that negates. The rows of `Derives` are rows of expressions
(`members_iff`), so the parser accepts exactly the expressions, and no tokens are two of them
(`parses_expressions`).
-/

namespace TreeQuery.Pattern.Parser

open Token (Kind)

inductive Closes : Option Kind → Prop
  | none : Closes none
  | closing (b : Bracket) : Closes (some (.closing b))

mutual
/-- The tokens of one expression, and the token behind them. -/
inductive Expression (args : List Tree) : List Kind → Option Kind → Pattern → Prop
  | atom {k next p} : Atom args k p → Expression args [k] next p
  | bang {next} : Closes next → Expression args [.marker .negation] next (.literal (.sym "!"))
  | backref {n next} : 0 < n.toInt →
      Expression args [.backslash, .int n] next (.backref n.toInt.toNat)
  | marker {ks next p} (m : Marker) : Expression args ks next p →
      Expression args (.marker m :: ks) next (m.apply p)
  | group {ks next ps} (b : Bracket) : Members args ks (some (.closing b)) ps →
      Expression args (.opening b :: (ks ++ [.closing b])) next (Pattern.group b ps)
inductive Members (args : List Tree) : List Kind → Option Kind → List Pattern → Prop
  | nil {next} : Members args [] next []
  | cons {ks ks' next p ps} : Expression args ks (ks'.head?.or next) p → Members args ks' next ps →
      Members args (ks ++ ks') next (p :: ps)
end

variable {args : List Tree} {b : Bracket} {ks ks' : List Kind} {next : Option Kind} {p q : Pattern}
  {ps : List Pattern} {ts : List Token}

-- ---------------------------------------------------------------------------
-- Rows of expressions
-- ---------------------------------------------------------------------------

theorem Derives.eq_nil_of_closes (h : Derives args ks ps) (hnext : Closes (ks.head?.or next)) :
    ks = [] := by
  cases ks with
  | nil => rfl
  | cons k ks =>
    cases hnext with
    | closing b =>
      cases h with
      | atom hatom => cases hatom

mutual
theorem Expression.derives : ∀ {ks : List Kind} {next : Option Kind} {p : Pattern},
    Expression args ks next p → ∀ {ks' : List Kind} {ps : List Pattern},
    (Closes next → ks' = []) → Derives args ks' ps → Derives args (ks ++ ks') (p :: ps)
  | _, _, _, .atom hatom, _, _, _, hrow => .atom hatom hrow
  | _, _, _, .bang hbang, _, _, hnext, hrow => by
    obtain rfl := hnext hbang
    cases hrow
    exact .bang
  | _, _, _, .backref hn, _, _, _, hrow => .backref hn hrow
  | _, _, _, .marker m h, _, _, hnext, hrow => .marker m (h.derives hnext hrow)
  | _, _, _, .group b hmembers, _, _, _, hrow => by
    have hgroup := Derives.group b hmembers.derives hrow
    simpa using hgroup
theorem Members.derives : ∀ {ks : List Kind} {next : Option Kind} {ps : List Pattern},
    Members args ks next ps → Derives args ks ps
  | _, _, _, .nil => .nil
  | _, _, _, .cons h hrow => h.derives hrow.derives.eq_nil_of_closes hrow.derives
end

theorem Expression.members (h : Expression args ks next p) : Members args ks next [p] := by
  have hrow : Members args (ks ++ []) next [p] := .cons h .nil
  rwa [List.append_nil] at hrow

theorem Derives.members (h : Derives args ks ps) (hnext : Closes next) :
    Members args ks next ps := by
  induction h generalizing next with
  | nil => exact .nil
  | atom hatom _ ih => exact .cons (.atom hatom) (ih hnext)
  | bang => exact (Expression.bang hnext).members
  | backref hn _ ih => exact .cons (.backref hn) (ih hnext)
  | marker m _ ih =>
    -- the marker binds to the first expression of the row behind it
    cases ih hnext with
    | cons h hrow => exact .cons (.marker m h) hrow
  | @group inner members ks ps b _ _ ihinner ih =>
    have hrow := Members.cons (.group b (ihinner (.closing b))) (ih hnext)
    simpa using hrow

example : Expression [] [.opening .curly, .marker .negation, .word ['a'], .marker .negation,
    .closing .curly] none (.union [.negation (.literal (.sym "a")), .literal (.sym "!")]) :=
  .group .curly (.cons (.marker .negation (.atom (.word ['a'])))
    (Expression.bang (.closing .curly)).members)

end TreeQuery.Pattern.Parser
