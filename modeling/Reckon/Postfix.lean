import Reckon.Refusal
import Reckon.Operator
/-! Expressions in postfix order: operands and operator symbols, each symbol after its two operands. -/
namespace Reckon

inductive Element where
  | operand (value : Decimal)
  | operator (symbol : String)
  deriving DecidableEq, Repr

def Element.text : Element → String
  | operand value => value.text
  | operator symbol => symbol

def Element.shown : Element → String
  | operand value => "Decimal(" ++ Text.quoted value.text ++ ")"
  | operator symbol => Text.quoted symbol

end Reckon
