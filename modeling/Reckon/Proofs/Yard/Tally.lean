import Reckon.Proofs.Tree.Basic
import Reckon.Proofs.Yard.Rules
/-! What a yard has taken, by count. Each number has gone out as an operand, each operator waits or has
gone out, and for each group that is open a parenthesis stands on the stack. -/
namespace Reckon
namespace Yard
open Reckon.Tree

theorem stackCut (stack : List Slot) : ∃ os base, stack = pending os ++ base ∧ Ground base := by
  induction stack with
  | nil => exact ⟨[], [], rfl, groundNil⟩
  | cons slot stack ih =>
    cases slot with
    | opening => exact ⟨[], .opening :: stack, rfl, groundOpening stack⟩
    | operator o =>
      obtain ⟨os, base, rfl, ground⟩ := ih
      exact ⟨o :: os, base, rfl, ground⟩

inductive Takes : Yard → Token → Yard → Prop where
  | number {y : Yard} {t : Token} {d : Decimal} (kind : t.kind = .number)
      (reads : readLiteral t.lexeme = .ok d) :
      Takes y t ⟨y.rule, y.stack, y.output.push (.operand d)⟩
  | opening {y : Yard} {t : Token} (kind : t.kind = .openParen) :
      Takes y t ⟨y.rule, .opening :: y.stack, y.output⟩
  | closing {rule : Rule} {os : List Operator} {below : List Slot} {out : Array Element} {t : Token}
      (kind : t.kind = .closeParen) :
      Takes ⟨rule, pending os ++ .opening :: below, out⟩ t ⟨rule, below, out ++ (signs os).toArray⟩
  | operator {rule : Rule} {os : List Operator} {base : List Slot} {out : Array Element} {t : Token}
      {o : Operator} (kind : t.kind = .operator) (known : Operator.ofSymbol? t.lexeme = some o)
      (ground : Ground base) :
      Takes ⟨rule, pending os ++ base, out⟩ t ⟨rule, pending (o :: staying rule o os) ++ base,
        out ++ (signs (leaving rule o os)).toArray⟩
  | word {y : Yard} {t : Token} (kind : t.kind = .word) : Takes y t y

theorem takenCases {y z : Yard} {t : Token} (taken : y.receive t = (z, none)) : Takes y t z := by
  obtain ⟨rule, stack, out⟩ := y
  unfold receive at taken
  cases kind : t.kind with
  | number =>
    simp only [kind] at taken
    split at taken
    · rename_i d reads
      cases taken
      exact .number kind reads
    · cases taken
  | openParen =>
    simp only [kind] at taken
    cases taken
    exact .opening kind
  | closeParen =>
    simp only [kind, closeGroup] at taken
    obtain ⟨os, base, rfl, ground⟩ := stackCut stack
    rw [popGroupPending ground] at taken
    obtain rfl | ⟨below, rfl⟩ := groundCases ground
    · cases taken
    · cases taken
      exact .closing kind
  | operator =>
    simp only [kind, pushOperator] at taken
    split at taken
    · cases taken
    · rename_i o known
      obtain ⟨os, base, rfl, ground⟩ := stackCut stack
      rw [popPending ground] at taken
      cases taken
      exact .operator kind known ground
  | word =>
    simp only [kind] at taken
    cases taken
    exact .word kind

theorem finishTaken {y z : Yard} (finished : y.finish = (z, none)) :
    ∃ os, y.stack = pending os ∧ z = ⟨y.rule, [], y.output ++ (signs os).toArray⟩ := by
  obtain ⟨rule, stack, out⟩ := y
  obtain ⟨os, base, rfl, ground⟩ := stackCut stack
  unfold finish at finished
  rw [popGroupPending ground] at finished
  obtain rfl | ⟨below, rfl⟩ := groundCases ground
  · cases finished
    exact ⟨os, List.append_nil _, rfl⟩
  · cases finished

def opens (stack : List Slot) : Nat := stack.countP (· == .opening)

def waiting (stack : List Slot) : Nat := stack.countP (· != .opening)

theorem opensPending (os : List Operator) (base : List Slot) : opens (pending os ++ base) = opens base := by
  unfold opens pending
  rw [List.countP_append, List.countP_map, List.countP_eq_zero.mpr, Nat.zero_add]
  intro o _
  simp

theorem waitingPending (os : List Operator) (base : List Slot) :
    waiting (pending os ++ base) = os.length + waiting base := by
  unfold waiting pending
  rw [List.countP_append, List.countP_map, List.countP_eq_length.mpr]
  intro o _
  simp

theorem operandsSigns (elements : List Element) (os : List Operator) :
    operandCount (elements ++ signs os) = operandCount elements := by
  have noOperand : operandCount (signs os) = 0 := by
    unfold operandCount signs
    rw [List.countP_map, List.countP_eq_zero]
    intro o _
    simp
  unfold operandCount at noOperand ⊢
  rw [List.countP_append, noOperand, Nat.add_zero]

theorem operatorsSigns (elements : List Element) (os : List Operator) :
    operatorCount (elements ++ signs os) = operatorCount elements + os.length := by
  have all : operatorCount (signs os) = os.length := by
    unfold operatorCount signs
    rw [List.countP_map, List.countP_eq_length]
    intro o _
    rfl
  unfold operatorCount at all ⊢
  rw [List.countP_append, all]

end Yard

namespace Token

def numbers (ts : List Token) : Nat := ts.countP (fun t => t.kind = .number)

def operators (ts : List Token) : Nat := ts.countP (fun t => t.kind = .operator)

def depthAfter? (depth : Nat) : List Token → Option Nat
  | [] => some depth
  | t :: ts =>
    match t.kind with
    | .openParen => depthAfter? (depth + 1) ts
    | .closeParen => if depth = 0 then none else depthAfter? (depth - 1) ts
    | .number | .operator | .word => depthAfter? depth ts

theorem depthCons (depth : Nat) (t : Token) (ts : List Token) :
    depthAfter? depth (t :: ts) = (depthAfter? depth [t]).bind (fun inner => depthAfter? inner ts) := by
  cases kind : t.kind <;> simp only [depthAfter?, kind] <;> try rfl
  split <;> rfl

end Token

namespace Yard
open Reckon.Tree Token

structure Tally (y : Yard) (ts : List Token) (z : Yard) : Prop where
  depth : depthAfter? (opens y.stack) ts = some (opens z.stack)
  operands : operandCount z.output.toList = operandCount y.output.toList + numbers ts
  operators : operatorCount z.output.toList + waiting z.stack =
    operatorCount y.output.toList + waiting y.stack + operators ts

theorem takesTally {y z : Yard} {t : Token} (taken : Takes y t z) : Tally y [t] z := by
  cases taken with
  | number kind reads =>
    constructor <;> simp [depthAfter?, numbers, operators, operandCount, operatorCount, kind]
  | opening kind =>
    constructor <;> simp [depthAfter?, numbers, operators, opens, waiting, kind]
  | @closing rule os below out t kind =>
    have more : opens (.opening :: below) = opens below + 1 := by simp [opens]
    have same : waiting (.opening :: below) = waiting below := by simp [waiting]
    constructor
    · simp [depthAfter?, kind, opensPending, more]
    · simp [operandsSigns, numbers, kind]
    · simp only [Array.toList_append, operatorsSigns, waitingPending, same]
      simp [Token.operators, kind]
      omega
  | @operator rule os base out t o kind known ground =>
    have parts := congrArg List.length (leavingStaying rule o os)
    rw [List.length_append] at parts
    constructor
    · simp [depthAfter?, kind, opensPending]
    · simp [operandsSigns, numbers, kind]
    · simp only [Array.toList_append, operatorsSigns, waitingPending, List.length_cons]
      simp [Token.operators, kind]
      omega
  | word kind =>
    constructor <;> simp [depthAfter?, numbers, Token.operators, kind]

theorem feedTally {y z : Yard} {ts : List Token} (fed : feed receive y ts = (z, none)) : Tally y ts z := by
  induction ts generalizing y with
  | nil =>
    cases fed
    exact ⟨rfl, rfl, rfl⟩
  | cons t ts ih =>
    obtain ⟨between, taken, rest⟩ := feedCons fed
    have first := takesTally (takenCases taken)
    have later := ih rest
    constructor
    · rw [depthCons, first.depth]
      exact later.depth
    · have single := first.operands
      have others := later.operands
      simp only [numbers, List.countP_cons, List.countP_nil] at single others ⊢
      omega
    · have single := first.operators
      have others := later.operators
      simp only [Token.operators, List.countP_cons, List.countP_nil] at single others ⊢
      omega

theorem orderTally {rule : Rule} {ts : List Token} {elements : List Element}
    (ordered : order rule ts = .ok elements) :
    depthAfter? 0 ts = some 0 ∧ operandCount elements = numbers ts ∧
      operatorCount elements = Token.operators ts := by
  obtain ⟨y, z, fed, finished, rfl⟩ := orderOk ordered
  obtain ⟨os, stack, rfl⟩ := finishTaken finished
  have tally := feedTally fed
  have pending := opensPending os []
  have all := waitingPending os []
  rw [List.append_nil, ← stack] at pending all
  refine ⟨?_, ?_, ?_⟩
  · exact tally.depth.trans (congrArg some pending)
  · rw [Array.toList_append, operandsSigns, tally.operands]
    exact Nat.zero_add _
  · have counts := tally.operators
    rw [all] at counts
    rw [Array.toList_append, operatorsSigns]
    simp only [empty, waiting, operatorCount, List.countP_nil] at counts ⊢
    omega

end Yard
end Reckon
