import Reckon.Proofs.Token.Feed
import Reckon.Proofs.Tree.Basic
/-! Well-formed infix expressions: operands with operators between them, an operand being a number or
such an expression in parentheses. -/
namespace Reckon

structure Literal where
  lexeme : String
  value : Decimal
  reads : Yard.readLiteral lexeme = .ok value

mutual

inductive Operand where
  | number (n : Literal)
  | group (first : Operand) (links : Links)

inductive Links where
  | done
  | link (o : Operator) (x : Operand) (rest : Links)

end

structure Chain where
  first : Operand
  links : Links

mutual

def Operand.tokens : Operand → List Token
  | .number n => [⟨.number, n.lexeme⟩]
  | .group first links =>
    ⟨.openParen, "("⟩ :: (first.tokens ++ (links.tokens ++ [⟨.closeParen, ")"⟩]))

def Links.tokens : Links → List Token
  | .done => []
  | .link o x rest => ⟨.operator, o.symbol⟩ :: (x.tokens ++ rest.tokens)

end

def Chain.tokens (c : Chain) : List Token := c.first.tokens ++ c.links.tokens

def Chain.Spelt (c : Chain) (ts : List Token) : Prop := ts.filterMap Token.sense? = c.tokens

def Links.operators : Links → List Operator
  | .done => []
  | .link o _ rest => o :: rest.operators

mutual

def Operand.groups : Operand → List (List Operator)
  | .number _ => []
  | .group first links => links.operators :: (first.groups ++ links.groups)

def Links.groups : Links → List (List Operator)
  | .done => []
  | .link _ x rest => x.groups ++ rest.groups

end

def Chain.groups (c : Chain) : List (List Operator) :=
  c.links.operators :: (c.first.groups ++ c.links.groups)

end Reckon
