import TreeQuery.Pattern.Parser

/-!
# From tokens to patterns by descent

The same patterns and errors by recursion on what the tokens stand for: an expression takes its
tokens from the front of the list, and a group its members up to the closing bracket. An expression
that is asked for where there are no tokens is an error of its own.
-/

namespace TreeQuery.Pattern

/-- What was read from the front of a token list, at least one token, and what is left. -/
structure Parsed (α : Type) (ts : List Token) where
  value : α
  rest : List Token
  suffix : rest <:+ ts
  shorter : rest.length < ts.length

namespace Parsed

def one (p : α) (t : Token) (ts : List Token) : Parsed α (t :: ts) :=
  ⟨p, ts, List.suffix_cons t ts, Nat.lt_succ_self _⟩

def behind (t : Token) (f : α → β) (r : Parsed α ts) : Parsed β (t :: ts) :=
  ⟨f r.value, r.rest, r.suffix.trans (List.suffix_cons t ts), Nat.lt_succ_of_lt r.shorter⟩

def cons (r : Parsed α ts) (s : Parsed (List α) r.rest) : Parsed (List α) ts :=
  ⟨r.value :: s.value, s.rest, s.suffix.trans r.suffix, Nat.lt_trans s.shorter r.shorter⟩

end Parsed

namespace Descent

open TreeQuery.Pattern.Parser (startsExpression ofWord finish)

def backref (t : Token) : (ts : List Token) → Except Error (Parsed Pattern (t :: ts))
  | ⟨.int n, offset⟩ :: rest =>
    if 0 < n.toInt then .ok (.behind t id (.one (.backref n.toInt.toNat) ⟨.int n, offset⟩ rest))
    else .error ⟨.captureNumber, t.offset⟩
  | _ => .error ⟨.captureNumber, t.offset⟩

mutual
/-- `stop` is the length of the text. -/
def expression (args : List Tree) (stop : Nat) :
    (ts : List Token) → Except Error (Parsed Pattern ts)
  | [] => .error ⟨.unexpectedEnd, stop⟩
  | t :: ts =>
    let value (p : Pattern) : Except Error (Parsed Pattern (t :: ts)) := .ok (.one p t ts)
    match t.kind with
    | .opening b => (members args stop b t.offset ts).map (.behind t (Pattern.group b))
    | .closing b => .error ⟨.strayCloser b, t.offset⟩
    | .marker m =>
      if startsExpression ts then (expression args stop ts).map (.behind t m.apply)
      else if m = .negation then value (.literal (.sym "!"))
      else .error ⟨.noOperand m, t.offset⟩
    | .backslash => backref t ts
    | .wildcard => value .wildcard
    | .ellipsis => value .nonempty
    | .int n => value (.literal (.int n))
    | .float x => value (.literal (.float x))
    | .str text => value (.literal (.str (String.ofList text)))
    | .symbol name => value (.literal (.sym (String.ofList name)))
    | .word name => value (.literal (ofWord name))
    | .argument n =>
      match if n = 0 then none else args[n - 1]? with
      | some a => value (.literal (.value a))
      | none => .error ⟨.unboundArgument n args.length, t.offset⟩
termination_by ts => (ts.length, 0)
def members (args : List Tree) (stop : Nat) (b : Bracket) (start : Nat) :
    (ts : List Token) → Except Error (Parsed (List Pattern) ts)
  | [] => .error ⟨.unterminated b, start⟩
  | ⟨.closing found, offset⟩ :: ts =>
    if b = found then .ok (.one [] ⟨.closing found, offset⟩ ts)
    else .error ⟨.wrongCloser b start found, offset⟩
  | t :: ts =>
    match expression args stop (t :: ts) with
    | .error e => .error e
    | .ok p => (members args stop b start p.rest).map p.cons
termination_by ts => (ts.length, 1)
decreasing_by
  · exact .right _ Nat.zero_lt_one
  · exact .left _ _ p.shorter
end

def parse (args : List Tree) (stop : Nat) : List Token → Except Error Pattern
  | [] => .error ⟨.empty, 0⟩
  | t :: ts => (expression args stop (t :: ts)).bind fun p => finish p.value p.rest

end Descent

end TreeQuery.Pattern
