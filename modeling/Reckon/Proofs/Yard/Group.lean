import Reckon.Proofs.Token.Feed
/-! Stacks of a yard by groups: the operators that wait in the innermost group, and what lies below
them. -/
namespace Reckon.Yard

def pending (os : List Operator) : List Slot := os.map .operator

def signs (os : List Operator) : List Element := os.map (fun o => .operator o.symbol)

theorem pendingNil (base : List Slot) : pending [] ++ base = base := rfl

theorem signsAppend (os ps : List Operator) : signs (os ++ ps) = signs os ++ signs ps :=
  List.map_append ..

def Ground (base : List Slot) : Prop := ∀ o below, base ≠ .operator o :: below

theorem groundNil : Ground [] := fun _ _ h => nomatch h

theorem groundOpening (below : List Slot) : Ground (.opening :: below) := by
  intro o other h
  cases h

variable {base : List Slot}

theorem groundCases (ground : Ground base) : base = [] ∨ ∃ below, base = .opening :: below := by
  cases base with
  | nil => exact .inl rfl
  | cons slot below =>
    cases slot with
    | opening => exact .inr ⟨below, rfl⟩
    | operator o => exact absurd rfl (ground o below)

theorem popGroupGround (ground : Ground base) (out : Array Element) :
    popGroup base out = (base, out) := by
  obtain rfl | ⟨below, rfl⟩ := groundCases ground <;> rfl

theorem popGroupPending (ground : Ground base) (os : List Operator) (out : Array Element) :
    popGroup (pending os ++ base) out = (base, out ++ (signs os).toArray) := by
  induction os generalizing out with
  | nil => simpa [pending, signs] using popGroupGround ground out
  | cons o os ih =>
    simp only [pending, List.map_cons, List.cons_append, popGroup, signs] at ih ⊢
    rw [ih]
    simp

theorem receiveNumber (n : String) (d : Decimal) (reads : readLiteral n = .ok d) (y : Yard) :
    y.receive ⟨.number, n⟩ = (⟨y.rule, y.stack, y.output.push (.operand d)⟩, none) := by
  simp only [receive, reads]

theorem receiveOperator (o : Operator) (y : Yard) :
    y.receive ⟨.operator, o.symbol⟩ =
      (⟨y.rule, .operator o :: (pop y.rule o y.stack y.output).1,
        (pop y.rule o y.stack y.output).2⟩, none) := by
  simp only [receive, pushOperator, Operator.ofSymbolSymbol]

theorem receiveClose (rule : Rule) (os : List Operator) (below : List Slot) (out : Array Element)
    (lexeme : String) :
    receive ⟨rule, pending os ++ .opening :: below, out⟩ ⟨.closeParen, lexeme⟩ =
      (⟨rule, below, out ++ (signs os).toArray⟩, none) := by
  simp only [receive, closeGroup, popGroupPending (groundOpening below)]

theorem finishPending (rule : Rule) (os : List Operator) (out : Array Element) :
    finish ⟨rule, pending os, out⟩ = (⟨rule, [], out ++ (signs os).toArray⟩, none) := by
  have popped := popGroupPending groundNil os out
  rw [List.append_nil] at popped
  simp only [finish, popped]

theorem orderFinished {rule : Rule} {ts : List Token} {y z : Yard}
    (fed : feed receive (empty rule) ts = (y, none)) (finished : y.finish = (z, none)) :
    order rule ts = .ok z.output.toList := by
  simp only [order, fed, finished]

theorem orderOk {rule : Rule} {ts : List Token} {elements : List Element}
    (ordered : order rule ts = .ok elements) :
    ∃ y z, feed receive (empty rule) ts = (y, none) ∧ y.finish = (z, none) ∧
      z.output.toList = elements := by
  unfold order at ordered
  split at ordered
  · cases ordered
  · next y fed =>
    split at ordered
    · next z finished =>
      cases ordered
      exact ⟨y, z, fed, finished, rfl⟩
    · cases ordered

theorem orderSense (rule : Rule) (ts : List Token) :
    order rule ts = order rule (ts.filterMap Token.sense?) := by
  rw [order, feedSense]
  rfl

end Reckon.Yard
