import TreeQuery.Pattern.Token

/-!
# From tokens to patterns

The parser goes through the tokens once. It keeps the markers and groups that still wait for an
expression or a closing bracket, innermost first.
-/

namespace TreeQuery.Pattern

/-- A marker or a group whose operand or closing bracket is still to come; members are in
reverse. -/
inductive Pending where
  | marker (m : Marker)
  | group (b : Bracket) (start : Nat) (members : List Pattern)

namespace Parser

/-- Gives a complete expression to what waits for it: the whole pattern if nothing does, else
what still waits. -/
def supply (p : Pattern) : List Pending → Pattern ⊕ List Pending
  | [] => .inl p
  | .marker m :: rest => supply (m.apply p) rest
  | .group b start members :: rest => .inr (.group b start (p :: members) :: rest)

def startsExpression : List Token → Bool
  | [] => false
  | ⟨.closing _, _⟩ :: _ => false
  | _ => true

def unfinished : List Pending → Error
  | [] => ⟨.empty, 0⟩
  | .marker _ :: rest => unfinished rest
  | .group b start _ :: _ => ⟨.unterminated b, start⟩

def ofWord (name : List Char) : Literal :=
  if name = "nil".toList then .nil else .sym (String.ofList name)

def step (args : List Tree) (t : Token) (rest : List Token) (pending : List Pending) :
    Except Error (List Pending ⊕ Pattern × List Pending) :=
  let value (p : Pattern) : Except Error (List Pending ⊕ Pattern × List Pending) :=
    .ok (.inr (p, pending))
  match t.kind with
  | .opening b => .ok (.inl (.group b t.offset [] :: pending))
  | .closing b =>
    match pending with
    | .group opened start members :: outer =>
      if opened = b then .ok (.inr (.group b members.reverse, outer))
      else .error ⟨.wrongCloser opened start b, t.offset⟩
    | _ => .error ⟨.strayCloser b, t.offset⟩
  | .marker m =>
    if startsExpression rest then .ok (.inl (.marker m :: pending))
    else if m = .negation then value (.literal (.sym "!"))
    else .error ⟨.noOperand m, t.offset⟩
  | .backslash => .error ⟨.captureNumber, t.offset⟩
  | .wildcard => value .wildcard
  | .ellipsis => value .nonempty
  | .int n => value (.literal (.int n))
  | .float x => value (.literal (.float x))
  | .str text => value (.literal (.str (String.ofList text)))
  | .symbol name => value (.literal (.sym (String.ofList name)))
  | .word name => value (.literal (ofWord name))
  | .argument n =>
    match if n = 0 then none else args[n - 1]? with
    | some a => value (.literal (.value a))
    | none => .error ⟨.unboundArgument n args.length, t.offset⟩

def finish (p : Pattern) : List Token → Except Error Pattern
  | [] => .ok p
  | t :: _ => .error ⟨.trailing, t.offset⟩

def parseFrom (args : List Tree) : List Token → List Pending → Except Error Pattern
  | [], pending => .error (unfinished pending)
  | ⟨.backslash, offset⟩ :: ⟨.int n, _⟩ :: rest, pending =>
    if 0 < n.toInt then
      match supply (.backref n.toInt.toNat) pending with
      | .inl p => finish p rest
      | .inr pending' => parseFrom args rest pending'
    else .error ⟨.captureNumber, offset⟩
  | t :: rest, pending =>
    match step args t rest pending with
    | .error e => .error e
    | .ok (.inl pending') => parseFrom args rest pending'
    | .ok (.inr (p, outer)) =>
      match supply p outer with
      | .inl p => finish p rest
      | .inr pending' => parseFrom args rest pending'

def parse (args : List Tree) (tokens : List Token) : Except Error Pattern :=
  parseFrom args tokens []

end Parser

end TreeQuery.Pattern
