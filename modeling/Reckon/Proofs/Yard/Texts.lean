import Reckon.Proofs.Yard.Ledger
/-! A yard that keeps what waits as text. It looks an operator up whenever it compares it, and a text that is no
operator's is refused then, also one that waits. None ever is: it answers all calls as a yard that keeps operators. -/
namespace Reckon
open Yard (Call yields readLiteral)

structure TextYard where
  rule : Rule
  stack : List String
  output : Array Element
  deriving DecidableEq, Repr

abbrev TextYard.Popped := (List String × Array Element) × Option Refusal

namespace TextYard

def empty (rule : Rule) : TextYard := ⟨rule, [], #[]⟩

def notOpening (s : String) : Bool := s != Slot.opening.text

def drain (stack : List String) (out : Array Element) : List String × Array Element :=
  (stack.dropWhile notOpening, out ++ ((stack.takeWhile notOpening).map .operator).toArray)

def top? : List String → Except Refusal (Option Operator)
  | [] => .ok none
  | s :: _ =>
    if notOpening s then
      match Operator.ofSymbol? s with
      | some o => .ok (some o)
      | none => .error (.unrankedOperator s)
    else .ok none

def popYielding (incoming : Operator) : List String → Array Element → Popped
  | [], out => (([], out), none)
  | s :: stack, out =>
    match top? (s :: stack) with
    | .error r => ((s :: stack, out), some r)
    | .ok none => ((s :: stack, out), none)
    | .ok (some top) =>
      if yields top incoming then popYielding incoming stack (out.push (.operator s))
      else ((s :: stack, out), none)

def popChained (incoming : Operator) (stack : List String) (out : Array Element) : Popped :=
  match top? stack with
  | .error r => ((stack, out), some r)
  | .ok none => ((stack, out), none)
  | .ok (some top) =>
    if incoming.precedence < top.precedence then (drain stack out, none) else ((stack, out), none)

def pop : Rule → Operator → List String → Array Element → Popped
  | .chained => popChained
  | .textbook => popYielding

def pushOperator (y : TextYard) (symbol : String) : TextYard × Option Refusal :=
  match Operator.ofSymbol? symbol with
  | none => (y, some (.unrankedOperator symbol))
  | some o =>
    match pop y.rule o y.stack y.output with
    | ((stack, out), none) => (⟨y.rule, symbol :: stack, out⟩, none)
    | ((stack, out), some r) => (⟨y.rule, stack, out⟩, some r)

def closeGroup (y : TextYard) : TextYard × Option Refusal :=
  match drain y.stack y.output with
  | ([], out) => (⟨y.rule, [], out⟩, some (.unmatchedClose (out.toList.map Element.text)))
  | (_ :: stack, out) => (⟨y.rule, stack, out⟩, none)

def receive (y : TextYard) (t : Token) : TextYard × Option Refusal :=
  match t.kind with
  | .number =>
    match readLiteral t.lexeme with
    | .ok d => (⟨y.rule, y.stack, y.output.push (.operand d)⟩, none)
    | .error r => (y, some r)
  | .openParen => (⟨y.rule, Slot.opening.text :: y.stack, y.output⟩, none)
  | .closeParen => y.closeGroup
  | .operator => y.pushOperator t.lexeme
  | .word => (y, none)

def finish (y : TextYard) : TextYard × Option Refusal :=
  match drain y.stack y.output with
  | ([], out) => (⟨y.rule, [], out⟩, none)
  | (_ :: stack, out) => (⟨y.rule, stack, out⟩, some (.unclosedOpen (stack.count Slot.opening.text + 1)))

def call (y : TextYard) : Call → TextYard × Option Refusal
  | .receive t => y.receive t
  | .finish => y.finish

def calls (y : TextYard) : List Call → TextYard × List (Call × Option Refusal)
  | [] => (y, [])
  | c :: cs =>
    let (between, refused) := y.call c
    let (last, answered) := between.calls cs
    (last, (c, refused) :: answered)

end TextYard

namespace Yard

def texts (y : Yard) : TextYard := ⟨y.rule, y.stack.map Slot.text, y.output⟩

theorem operatorText (o : Operator) : TextYard.notOpening (Slot.operator o).text = true := by cases o <;> rfl

theorem openingText : TextYard.notOpening Slot.opening.text = false := rfl

theorem drainTexts (stack : List Slot) (out : Array Element) :
    TextYard.drain (stack.map Slot.text) out = ((popGroup stack out).1.map Slot.text, (popGroup stack out).2) := by
  induction stack generalizing out with
  | nil => simp [TextYard.drain, popGroup]
  | cons slot stack ih =>
    cases slot with
    | opening => simp [TextYard.drain, popGroup, openingText]
    | operator o =>
      have rest := ih (out.push (.operator o.symbol))
      simp only [TextYard.drain, List.map_cons, List.dropWhile_cons, List.takeWhile_cons, operatorText, if_true,
        popGroup] at rest ⊢
      rw [← rest]
      simp [Slot.text]

theorem topOperator (top : Operator) (stack : List String) :
    TextYard.top? ((Slot.operator top).text :: stack) = .ok (some top) := by
  have known : Operator.ofSymbol? (Slot.operator top).text = some top := Operator.ofSymbolSymbol top
  simp only [TextYard.top?, operatorText, if_true, known]

theorem popYieldingTexts (incoming : Operator) (stack : List Slot) (out : Array Element) :
    TextYard.popYielding incoming (stack.map Slot.text) out =
      (((popYielding incoming stack out).1.map Slot.text, (popYielding incoming stack out).2), none) := by
  induction stack generalizing out with
  | nil => rfl
  | cons slot stack ih =>
    cases slot with
    | opening => rfl
    | operator top =>
      simp only [List.map_cons, TextYard.popYielding, topOperator, popYielding]
      split
      · exact ih _
      · rfl

theorem popChainedTexts (incoming : Operator) (stack : List Slot) (out : Array Element) :
    TextYard.popChained incoming (stack.map Slot.text) out =
      (((popChained incoming stack out).1.map Slot.text, (popChained incoming stack out).2), none) := by
  cases stack with
  | nil => rfl
  | cons slot stack =>
    cases slot with
    | opening => rfl
    | operator top =>
      have drained := drainTexts (.operator top :: stack) out
      simp only [List.map_cons, TextYard.popChained, topOperator, popChained] at drained ⊢
      split
      · rw [drained]
      · rfl

theorem popTexts (rule : Rule) (incoming : Operator) (stack : List Slot) (out : Array Element) :
    TextYard.pop rule incoming (stack.map Slot.text) out =
      (((pop rule incoming stack out).1.map Slot.text, (pop rule incoming stack out).2), none) := by
  cases rule with
  | chained => exact popChainedTexts incoming stack out
  | textbook => exact popYieldingTexts incoming stack out

theorem openingsTexts (stack : List Slot) :
    (stack.map Slot.text).count Slot.opening.text = stack.count .opening := by
  induction stack with
  | nil => rfl
  | cons slot stack ih =>
    cases slot with
    | opening => simp [ih]
    | operator o => cases o <;> simpa [List.count_cons, Slot.text, Operator.symbol] using ih

theorem pushTexts (y : Yard) (symbol : String) :
    y.texts.pushOperator symbol = ((y.pushOperator symbol).1.texts, (y.pushOperator symbol).2) := by
  unfold TextYard.pushOperator pushOperator
  cases known : Operator.ofSymbol? symbol with
  | none => rfl
  | some o =>
    obtain rfl := Operator.symbolOfSymbol known
    simp only [texts, popTexts]
    rfl

theorem closeTexts (y : Yard) : y.texts.closeGroup = (y.closeGroup.1.texts, y.closeGroup.2) := by
  unfold TextYard.closeGroup closeGroup
  simp only [texts, drainTexts]
  cases popGroup y.stack y.output with
  | mk left out => cases left <;> rfl

theorem finishTexts (y : Yard) : y.texts.finish = (y.finish.1.texts, y.finish.2) := by
  unfold TextYard.finish finish
  simp only [texts, drainTexts]
  cases popGroup y.stack y.output with
  | mk left out =>
    cases left with
    | nil => rfl
    | cons slot stack => simp [openingsTexts]

theorem receiveTexts (y : Yard) (t : Token) : y.texts.receive t = ((y.receive t).1.texts, (y.receive t).2) := by
  unfold TextYard.receive receive
  cases t.kind with
  | number =>
    dsimp only
    cases readLiteral t.lexeme with
    | ok d => rfl
    | error r => rfl
  | openParen => rfl
  | closeParen => exact closeTexts y
  | operator => exact pushTexts y t.lexeme
  | word => rfl

theorem callTexts (y : Yard) (c : Call) : y.texts.call c = ((y.call c).1.texts, (y.call c).2) := by
  cases c with
  | receive t => exact receiveTexts y t
  | finish => exact finishTexts y

theorem callsTexts (y : Yard) (cs : List Call) : y.texts.calls cs = ((y.calls cs).1.texts, (y.calls cs).2) := by
  induction cs generalizing y with
  | nil => rfl
  | cons c cs ih => simp only [TextYard.calls, calls, callTexts, ih]

end Yard
end Reckon
