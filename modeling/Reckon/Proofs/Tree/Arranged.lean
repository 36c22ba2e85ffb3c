import Reckon.Proofs.Tree.Basic
/-! Expression trees written in a row: where the parentheses have to stand, and where they may. -/
namespace Reckon

inductive Piece (α : Type) where
  | leaf (a : α)
  | operator (o : Operator)
  | opening
  | closing
  deriving DecidableEq, Repr

def Piece.map {α β : Type} (f : α → β) : Piece α → Piece β
  | leaf a => leaf (f a)
  | operator o => operator o
  | opening => opening
  | closing => closing

namespace Operator

/- How tightly an operand without parentheses has to bind on either side. On the side to which equal
operators group, as tightly as the operator; on the other side more tightly. -/

def leftLevel (o : Operator) : Nat := if o.groupsRight then o.precedence + 1 else o.precedence

def rightLevel (o : Operator) : Nat := if o.groupsRight then o.precedence else o.precedence + 1

end Operator

namespace Tree
variable {α β : Type}

/- The rows of a tree that stands where only operators of at least this precedence may stand without
parentheses. Parentheses may be put around any part, any number of times. -/

inductive Arranged : Nat → Tree α → List (Piece α) → Prop where
  | leaf (level : Nat) (a : α) : Arranged level (leaf a) [.leaf a]
  | node {level : Nat} {o : Operator} {left right : Tree α} {before after : List (Piece α)}
      (binds : level ≤ o.precedence) (atLeft : Arranged o.leftLevel left before)
      (atRight : Arranged o.rightLevel right after) :
      Arranged level (node o left right) (before ++ .operator o :: after)
  | group {t : Tree α} {inside : List (Piece α)} (level : Nat) (within : Arranged 0 t inside) :
      Arranged level t (.opening :: (inside ++ [.closing]))

theorem arrangedMap (f : α → β) {level : Nat} {t : Tree α} {pieces : List (Piece α)}
    (arranged : Arranged level t pieces) : Arranged level (t.map f) (pieces.map (Piece.map f)) := by
  induction arranged with
  | leaf level a => exact .leaf level (f a)
  | node binds atLeft atRight ihLeft ihRight =>
    rw [List.map_append]
    exact .node binds ihLeft ihRight
  | group level within ih =>
    rw [List.map_cons, List.map_append]
    exact .group level ih

end Tree
end Reckon
