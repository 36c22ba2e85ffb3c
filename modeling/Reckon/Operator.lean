/-! The five operators: how they are written, how tightly they bind, and the words for them. -/
namespace Reckon

inductive Operator where
  | plus
  | minus
  | times
  | divide
  | power
  deriving DecidableEq, Repr

namespace Operator

def all : List Operator := [plus, minus, times, divide, power]

def symbol : Operator → String
  | plus => "+"
  | minus => "-"
  | times => "*"
  | divide => "/"
  | power => "^"

def ofSymbol? (s : String) : Option Operator := all.find? (fun o => o.symbol = s)

theorem ofSymbolSymbol (o : Operator) : ofSymbol? o.symbol = some o := by cases o <;> decide

theorem symbolOfSymbol {s : String} {o : Operator} (h : ofSymbol? s = some o) : o.symbol = s := by
  simpa using List.find?_some h

def precedence : Operator → Nat
  | plus | minus => 0
  | times | divide => 1
  | power => 2

def groupsRight (o : Operator) : Bool := o == power

def words : List (String × Operator) :=
  [("plus", plus), ("add", plus), ("added", plus),
   ("minus", minus), ("subtract", minus), ("subtracted", minus),
   ("divide", divide), ("divided", divide),
   ("times", times), ("multiplied", times)]

def ofWord? (s : String) : Option Operator := words.lookup s

end Operator
end Reckon
