import Reckon.Postfix
import Reckon.Token.Scan
import Reckon.Decimal.Numeral
/-! Putting infix tokens into postfix order. Operators wait on a stack until what follows shows that
their right operand is complete. -/
namespace Reckon

/-- When an operator comes in, `chained` sends out all that wait in the group if the last of them binds more
tightly, and otherwise none; `textbook` each that binds at least as tightly, for a power more tightly. -/
inductive Rule where
  | chained
  | textbook
  deriving DecidableEq, Repr

inductive Slot where
  | opening
  | operator (o : Operator)
  deriving DecidableEq, Repr

def Slot.text : Slot → String
  | opening => "("
  | operator o => o.symbol

structure Yard where
  rule : Rule
  stack : List Slot
  output : Array Element
  deriving DecidableEq, Repr

namespace Yard

def empty (rule : Rule) : Yard := ⟨rule, [], #[]⟩

def popGroup : List Slot → Array Element → List Slot × Array Element
  | .operator o :: stack, out => popGroup stack (out.push (.operator o.symbol))
  | stack, out => (stack, out)

def yields (top incoming : Operator) : Bool :=
  incoming.precedence < top.precedence ||
    (top.precedence == incoming.precedence && !incoming.groupsRight)

def popYielding (incoming : Operator) : List Slot → Array Element → List Slot × Array Element
  | .operator top :: stack, out =>
    if yields top incoming then popYielding incoming stack (out.push (.operator top.symbol))
    else (.operator top :: stack, out)
  | stack, out => (stack, out)

def popChained (incoming : Operator) : List Slot → Array Element → List Slot × Array Element
  | .operator top :: stack, out =>
    if incoming.precedence < top.precedence then popGroup (.operator top :: stack) out
    else (.operator top :: stack, out)
  | stack, out => (stack, out)

def pop : Rule → Operator → List Slot → Array Element → List Slot × Array Element
  | .chained => popChained
  | .textbook => popYielding

def pushOperator (y : Yard) (symbol : String) : Yard × Option Refusal :=
  match Operator.ofSymbol? symbol with
  | none => (y, some (.unrankedOperator symbol))
  | some o =>
    let (stack, out) := pop y.rule o y.stack y.output
    (⟨y.rule, .operator o :: stack, out⟩, none)

def closeGroup (y : Yard) : Yard × Option Refusal :=
  match popGroup y.stack y.output with
  | ([], out) => (⟨y.rule, [], out⟩, some (.unmatchedClose (out.toList.map Element.text)))
  | (_ :: stack, out) => (⟨y.rule, stack, out⟩, none)

def readLiteral (lexeme : String) : Except Refusal Decimal :=
  match Decimal.ofNumeral? lexeme with
  | some d => .ok d
  | none => .error (.badLiteral lexeme)

def receive (y : Yard) (t : Token) : Yard × Option Refusal :=
  match t.kind with
  | .number =>
    match readLiteral t.lexeme with
    | .ok d => (⟨y.rule, y.stack, y.output.push (.operand d)⟩, none)
    | .error r => (y, some r)
  | .openParen => (⟨y.rule, .opening :: y.stack, y.output⟩, none)
  | .closeParen => y.closeGroup
  | .operator => y.pushOperator t.lexeme
  | .word => (y, none)

def finish (y : Yard) : Yard × Option Refusal :=
  match popGroup y.stack y.output with
  | ([], out) => (⟨y.rule, [], out⟩, none)
  | (_ :: stack, out) =>
    (⟨y.rule, stack, out⟩, some (.unclosedOpen (stack.count .opening + 1)))

end Yard

def Halt.refusal : Halt Refusal → Refusal
  | unrecognized c n => .unrecognized c n
  | refused r => r

def Yard.ofText (rule : Rule) (text : String) : Except Refusal (List Element) :=
  let scanned := (Cursor.ofText text).scan receive (empty rule)
  match scanned.halt with
  | some halt => .error halt.refusal
  | none =>
    match scanned.receiver.finish with
    | (y, none) => .ok y.output.toList
    | (_, some r) => .error r

end Reckon
