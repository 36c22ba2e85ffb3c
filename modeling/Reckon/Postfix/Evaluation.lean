import Reckon.Postfix.Power
import Reckon.Postfix
/-! The value of a postfix sequence, by a stack of operands. -/
namespace Reckon
open Decimal

def usualExponentLimit : Nat := 100000

namespace Operator

def apply (p : Precision) (limit : Option Int) (o : Operator) (left right : Decimal) :
    Except Fault Decimal :=
  match o with
  | plus => orFault (add p right left)
  | minus => orFault (sub p left right)
  | times => orFault (mul p right left)
  | divide => do
    if ← orFault (equal? right zero) then throw (.refusal (.divisionByZero left right))
    orFault (div p left right)
  | power => Decimal.power p limit left right

end Operator

def applySymbol (p : Precision) (limit : Option Int) (symbol : String) (left right : Decimal) :
    Except Fault Decimal :=
  match Operator.ofSymbol? symbol with
  | none => .error (.refusal (.unhandledOperator symbol))
  | some o =>
    match o.apply p limit left right with
    | .error (.signal .overflow) | .error (.signal .invalidOperation) =>
      .error (.refusal (.outOfRange symbol left right))
    | outcome => outcome

def evaluateStep (p : Precision) (limit : Option Int) :
    List Decimal → Element → Except Fault (List Decimal)
  | stack, .operand value => .ok (value :: stack)
  | right :: left :: stack, .operator symbol =>
    (applySymbol p limit symbol left right).map (· :: stack)
  | stack, .operator symbol => .error (.refusal (.missingOperands symbol stack.length))

def evaluatePostfix (p : Precision) (limit : Option Int) (elements : List Element) :
    Except Fault Decimal := do
  match ← elements.foldlM (evaluateStep p limit) [] with
  | [value] => return value
  | stack => throw (.refusal (.unreduced stack.reverse))

end Reckon
