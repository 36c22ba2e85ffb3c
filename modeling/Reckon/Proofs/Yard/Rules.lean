import Reckon.Proofs.Chain
import Reckon.Proofs.Yard.Group
/-! What leaves a group when an operator comes in, under either rule, and that no well-formed
expression is refused. -/
namespace Reckon
namespace Yard

def Falls (o : Operator) (os : List Operator) : Bool :=
  os.head?.any (fun top => o.precedence < top.precedence)

def leaving : Rule → Operator → List Operator → List Operator
  | .chained, o, os => if Falls o os then os else []
  | .textbook, o, os => os.takeWhile (yields · o)

def staying : Rule → Operator → List Operator → List Operator
  | .chained, o, os => if Falls o os then [] else os
  | .textbook, o, os => os.dropWhile (yields · o)

theorem leavingStaying (rule : Rule) (o : Operator) (os : List Operator) :
    leaving rule o os ++ staying rule o os = os := by
  cases rule with
  | chained => simp only [leaving, staying]; split <;> simp
  | textbook => exact List.takeWhile_append_dropWhile

theorem fallsIff (o : Operator) (os : List Operator) :
    Falls o os = true ↔ ∃ top ∈ os.head?, o.precedence < top.precedence := by
  simp [Falls, Option.any_eq_true]

variable {base : List Slot}

theorem popYieldingPending (ground : Ground base) (o : Operator) (os : List Operator)
    (out : Array Element) :
    popYielding o (pending os ++ base) out =
      (pending (os.dropWhile (yields · o)) ++ base,
        out ++ (signs (os.takeWhile (yields · o))).toArray) := by
  induction os generalizing out with
  | nil => obtain rfl | ⟨below, rfl⟩ := groundCases ground <;> simp [pending, signs, popYielding]
  | cons top os ih =>
    simp only [pending, List.map_cons, List.cons_append, popYielding] at ih ⊢
    by_cases ready : yields top o = true
    · simp [ready, ih, signs]
    · simp [ready, signs]

theorem popChainedPending (ground : Ground base) (o : Operator) (os : List Operator)
    (out : Array Element) :
    popChained o (pending os ++ base) out =
      if Falls o os then (base, out ++ (signs os).toArray) else (pending os ++ base, out) := by
  cases os with
  | nil => obtain rfl | ⟨below, rfl⟩ := groundCases ground <;> rfl
  | cons top os =>
    rw [← popGroupPending ground]
    simp [pending, popChained, Falls]

theorem popPending (ground : Ground base) (rule : Rule) (o : Operator) (os : List Operator)
    (out : Array Element) :
    pop rule o (pending os ++ base) out =
      (pending (staying rule o os) ++ base, out ++ (signs (leaving rule o os)).toArray) := by
  cases rule with
  | chained =>
    simp only [pop, popChainedPending ground, leaving, staying]
    split <;> simp [pending, signs]
  | textbook => simp only [pop, popYieldingPending ground, leaving, staying]

theorem receiveWaiting (ground : Ground base) (rule : Rule) (o : Operator) (os : List Operator)
    (out : Array Element) :
    receive ⟨rule, pending os ++ base, out⟩ ⟨.operator, o.symbol⟩ =
      (⟨rule, pending (o :: staying rule o os) ++ base,
        out ++ (signs (leaving rule o os)).toArray⟩, none) := by
  rw [receiveOperator, popPending ground]
  rfl

theorem receiveOpen (rule : Rule) (stack : List Slot) (out : Array Element) (lexeme : String) :
    receive ⟨rule, stack, out⟩ ⟨.openParen, lexeme⟩ = (⟨rule, .opening :: stack, out⟩, none) := rfl

end Yard

open Yard

/- Whatever the rule, an operand leaves the stack as it was and sends a value out before anything
else; operators with their operands touch nothing below their group. -/

mutual

theorem Operand.feedAny (x : Operand) (rule : Rule) (stack : List Slot) (out : Array Element) :
    ∃ (value : Decimal) (more : List Element), feed receive ⟨rule, stack, out⟩ x.tokens =
      (⟨rule, stack, out ++ (.operand value :: more).toArray⟩, none) := by
  cases x with
  | number n =>
    refine ⟨n.value, [], ?_⟩
    rw [Operand.tokens, feedTaken (receiveNumber n.lexeme n.value n.reads _)]
    simp [feed]
  | group first links =>
    obtain ⟨value, more, started⟩ := first.feedAny rule (.opening :: stack) out
    obtain ⟨os, rest, linked⟩ := links.feedAny rule (groundOpening stack) []
      (out ++ (.operand value :: more).toArray)
    rw [pendingNil] at linked
    refine ⟨value, more ++ rest ++ signs os, ?_⟩
    rw [Operand.tokens, feedTaken (receiveOpen ..), feedAppend started, feedAppend linked,
      feedTaken (receiveClose ..)]
    simp [feed]

theorem Links.feedAny (links : Links) (rule : Rule) {base : List Slot} (ground : Ground base)
    (os : List Operator) (out : Array Element) :
    ∃ (os' : List Operator) (more : List Element), feed receive ⟨rule, pending os ++ base, out⟩ links.tokens =
      (⟨rule, pending os' ++ base, out ++ more.toArray⟩, none) := by
  cases links with
  | done => exact ⟨os, [], by simp [Links.tokens, feed]⟩
  | link o x rest =>
    obtain ⟨value, more, fed⟩ := x.feedAny rule
      (pending (o :: staying rule o os) ++ base)
      (out ++ (signs (leaving rule o os)).toArray)
    obtain ⟨os', others, linked⟩ := rest.feedAny rule ground (o :: staying rule o os)
      (out ++ (signs (leaving rule o os)).toArray ++ (.operand value :: more).toArray)
    refine ⟨os', signs (leaving rule o os) ++ (.operand value :: more) ++ others, ?_⟩
    rw [Links.tokens, feedTaken (receiveWaiting ground ..), feedAppend fed, linked]
    simp

end

end Reckon
