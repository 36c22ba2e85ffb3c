import Reckon.Postfix
/-! Expression trees and their postfix order. A postfix sequence is the order of at most one tree. -/
namespace Reckon

inductive Tree (α : Type) where
  | leaf (a : α)
  | node (o : Operator) (left right : Tree α)
  deriving DecidableEq, Repr

namespace Tree
variable {α β γ ε : Type}

def map (f : α → β) : Tree α → Tree β
  | leaf a => leaf (f a)
  | node o left right => node o (left.map f) (right.map f)

def traverse (f : α → Except ε β) : Tree α → Except ε (Tree β)
  | leaf a => do
    return leaf (← f a)
  | node o left right => do
    let left ← left.traverse f
    let right ← right.traverse f
    return node o left right

theorem mapMap (f : α → β) (g : β → γ) (t : Tree α) : (t.map f).map g = t.map (g ∘ f) := by
  induction t with
  | leaf a => rfl
  | node o left right ihLeft ihRight => simp only [map, ihLeft, ihRight]

theorem traverseMap {f : α → Except ε β} {g : α → β} (always : ∀ a, f a = .ok (g a)) (t : Tree α) :
    t.traverse f = .ok (t.map g) := by
  induction t with
  | leaf a =>
    rw [traverse, always]
    rfl
  | node o left right ihLeft ihRight =>
    rw [traverse, ihLeft, ihRight]
    rfl

def postorder : Tree Decimal → List Element
  | leaf value => [.operand value]
  | node o left right => left.postorder ++ right.postorder ++ [.operator o.symbol]

def readBack : List (Tree Decimal) → Element → Option (List (Tree Decimal))
  | trees, .operand value => some (leaf value :: trees)
  | right :: left :: trees, .operator symbol =>
    (Operator.ofSymbol? symbol).map (fun o => node o left right :: trees)
  | _, .operator _ => none

theorem readBackPostorder (t : Tree Decimal) (trees : List (Tree Decimal)) (rest : List Element) :
    (t.postorder ++ rest).foldlM readBack trees = rest.foldlM readBack (t :: trees) := by
  induction t generalizing trees rest with
  | leaf value => rfl
  | node o left right ihLeft ihRight =>
    simp only [postorder, List.append_assoc, ihLeft, ihRight]
    simp [readBack, Operator.ofSymbolSymbol]

theorem postorderInjective {t u : Tree Decimal} (same : t.postorder = u.postorder) : t = u := by
  have first := readBackPostorder t [] []
  have second := readBackPostorder u [] []
  rw [same, second] at first
  simpa using first.symm

def operandCount (elements : List Element) : Nat :=
  elements.countP fun | .operand _ => true | .operator _ => false

def operatorCount (elements : List Element) : Nat :=
  elements.countP fun | .operand _ => false | .operator _ => true

theorem operandsOfPostorder (t : Tree Decimal) :
    operandCount t.postorder = operatorCount t.postorder + 1 := by
  induction t with
  | leaf value => rfl
  | node o left right ihLeft ihRight =>
    simp only [operandCount, operatorCount, postorder, List.countP_append, List.countP_cons,
      List.countP_nil] at ihLeft ihRight ⊢
    simp
    omega

end Tree
end Reckon
