import Reckon.Proofs.Decimal.Special
import Reckon.Proofs.Tree.Value
/-! What the evaluation of a postfix sequence can end in, whatever its operands are. -/
namespace Reckon
open Decimal
variable {p : Precision} {limit : Option Int} {most : Int}

theorem stepErrors {errors : Fault → Prop} {stack : List Decimal} {e : Element}
    (missing : ∀ symbol, errors (.refusal (.missingOperands symbol stack.length)))
    (applied : ∀ symbol right left below, e = .operator symbol → stack = right :: left :: below →
      Raises errors (applySymbol p limit symbol left right)) :
    Raises errors (evaluateStep p limit stack e) := by
  match stack, e with
  | stack, .operand d => exact raisesOk _
  | [], .operator symbol => exact raisesError (missing symbol)
  | [d], .operator symbol => exact raisesError (missing symbol)
  | right :: left :: below, .operator symbol => exact (applied symbol right left below rfl rfl).map _

theorem evaluateErrors {errors : Fault → Prop} {elements : List Element}
    (unreduced : ∀ remaining, errors (.refusal (.unreduced remaining)))
    (run : Raises errors (elements.foldlM (evaluateStep p limit) [])) :
    Raises errors (evaluatePostfix p limit elements) := by
  refine run.bind fun stack _ => ?_
  match stack with
  | [value] => exact raisesOk value
  | [] => exact raisesError (unreduced [])
  | _ :: _ :: _ => exact raisesError (unreduced _)

namespace Operator
variable {errors : Fault → Prop} {left right : Decimal}

theorem applyErrors (o : Operator) (signals : ∀ s : Signal, s.Refused → errors (.signal s))
    (division : errors (.refusal (.divisionByZero left right)))
    (power : o = .power → Raises errors (Decimal.power p limit left right)) :
    Raises errors (o.apply p limit left right) := by
  cases o with
  | plus => exact orFaultRaises signals addRaises
  | minus => exact orFaultRaises signals addRaises
  | times => exact orFaultRaises signals mulRaises
  | divide =>
    refine (orFaultRaises signals equalRaises).bind fun zeroDivisor nonzero => ?_
    cases zeroDivisor with
    | true => exact raisesError division
    | false => exact orFaultRaises signals (divRaises (signalOk nonzero))
  | power => exact power rfl

theorem outcomeErrors (o : Operator) (outOfRange : errors (.refusal (.outOfRange o.symbol left right)))
    (division : errors (.refusal (.divisionByZero left right)))
    (power : o = .power → Raises (fun f => (∃ s : Signal, f = .signal s ∧ s.Refused) ∨ errors f)
      (Decimal.power p limit left right)) : Raises errors (o.outcome p limit left right) := by
  have applied := o.applyErrors (fun s refused => .inl ⟨s, rfl, refused⟩) (.inr division) power
  unfold outcome
  split
  · exact raisesError outOfRange
  · exact raisesError outOfRange
  · rename_i notOverflow notInvalid
    intro f fails
    obtain ⟨s, rfl, refused⟩ | expected := applied f fails
    · cases s with
      | overflow => exact absurd fails notOverflow
      | invalidOperation => exact absurd fails notInvalid
      | divisionByZero => exact absurd rfl refused
    · exact expected

theorem outcomeUnsignalled {o : Operator} {f : Fault} (fails : o.apply p limit left right = .error f)
    (unsignalled : ∀ s, f ≠ .signal s) : o.outcome p limit left right = .error f := by
  rw [outcome, fails]
  cases f with
  | signal s => exact absurd rfl (unsignalled s)
  | _ => rfl

end Operator

def Refusal.OfEvaluation (r : Refusal) : Prop :=
  r.category ∈ [.malformedExpression, .arithmeticOverflow, .divisionByZero, .invalidExponent, .unknownOperator]

def MeetsPower (p : Precision) (limit : Option Int) (operands : Decimal → Decimal → Prop)
    (stack : List Decimal) (elements : List Element) : Prop :=
  ∃ before after base exponent below, elements = before ++ .operator "^" :: after ∧
    before.foldlM (evaluateStep p limit) stack = .ok (exponent :: base :: below) ∧ operands base exponent

variable {operands : Decimal → Decimal → Prop} {stack between : List Decimal} {e : Element}
  {elements : List Element}

theorem MeetsPower.first (meets : MeetsPower p limit operands stack [e]) (elements : List Element) :
    MeetsPower p limit operands stack (e :: elements) := by
  obtain ⟨before, after, base, exponent, below, split, reached, holds⟩ := meets
  refine ⟨before, after ++ elements, base, exponent, below, ?_, reached, holds⟩
  rw [← List.singleton_append, split, List.append_assoc, List.cons_append]

theorem MeetsPower.later (step : evaluateStep p limit stack e = .ok between)
    (meets : MeetsPower p limit operands between elements) :
    MeetsPower p limit operands stack (e :: elements) := by
  obtain ⟨before, after, base, exponent, below, rfl, reached, holds⟩ := meets
  refine ⟨e :: before, after, base, exponent, below, rfl, ?_, holds⟩
  rw [List.foldlM_cons, step]
  exact reached

theorem meetsPowerOnly {base exponent : Decimal} :
    MeetsPower p limit operands [] [.operand base, .operand exponent, .operator "^"] ↔
      operands base exponent := by
  constructor
  · rintro ⟨before, after, base', exponent', below, split, reached, holds⟩
    match before, split with
    | [_, _], split =>
      cases split
      cases reached
      exact holds
    | [], split => cases split
    | [_], split => cases split
    | _ :: _ :: _ :: before, split =>
      have long := congrArg List.length split
      simp at long
  · intro holds
    exact ⟨[.operand base, .operand exponent], [], base, exponent, [], rfl, rfl, holds⟩

inductive EvaluationFault (p : Precision) (limit : Option Int) (stack : List Decimal) (elements : List Element) :
    Fault → Prop where
  | refusal {r : Refusal} (expected : r.OfEvaluation) : EvaluationFault p limit stack elements (.refusal r)
  | endless (meets : MeetsPower p limit (Endless p limit) stack elements) :
    EvaluationFault p limit stack elements .endless
  | infiniteWhole (meets : MeetsPower p limit NoParity stack elements) :
    EvaluationFault p limit stack elements .infiniteWhole
  | numberTooLong (meets : MeetsPower p limit (Untold limit) stack elements) :
    EvaluationFault p limit stack elements .numberTooLong

theorem EvaluationFault.first {f : Fault} (fault : EvaluationFault p limit stack [e] f) (elements : List Element) :
    EvaluationFault p limit stack (e :: elements) f := by
  cases fault with
  | refusal expected => exact .refusal expected
  | endless meets => exact .endless (meets.first elements)
  | infiniteWhole meets => exact .infiniteWhole (meets.first elements)
  | numberTooLong meets => exact .numberTooLong (meets.first elements)

theorem EvaluationFault.later {f : Fault} (step : evaluateStep p limit stack e = .ok between)
    (fault : EvaluationFault p limit between elements f) : EvaluationFault p limit stack (e :: elements) f := by
  cases fault with
  | refusal expected => exact .refusal expected
  | endless meets => exact .endless (.later step meets)
  | infiniteWhole meets => exact .infiniteWhole (.later step meets)
  | numberTooLong meets => exact .numberTooLong (.later step meets)

theorem applySymbolRaises (symbol : String) (left right : Decimal) (below : List Decimal) :
    Raises (EvaluationFault p (some most) (right :: left :: below) [.operator symbol])
      (applySymbol p (some most) symbol left right) := by
  cases known : Operator.ofSymbol? symbol with
  | none =>
    simp only [applySymbol, known]
    exact raisesError (.refusal (by simp [Refusal.OfEvaluation, Refusal.category]))
  | some o =>
    obtain rfl := Operator.symbolOfSymbol known
    rw [applySymbolSymbol]
    refine o.outcomeErrors (.refusal (by simp [Refusal.OfEvaluation, Refusal.category]))
      (.refusal (by simp [Refusal.OfEvaluation, Refusal.category])) ?_
    rintro rfl f fails
    cases powerRaises p most left right f fails with
    | refusal category => exact .inr (.refusal (by simp [Refusal.OfEvaluation, category]))
    | signal refused => exact .inl ⟨_, rfl, refused⟩
    | endless endless => exact .inr (.endless ⟨[], [], left, right, below, rfl, rfl, endless⟩)
    | infiniteWhole noParity => exact .inr (.infiniteWhole ⟨[], [], left, right, below, rfl, rfl, noParity⟩)
    | numberTooLong untold => exact .inr (.numberTooLong ⟨[], [], left, right, below, rfl, rfl, untold⟩)

theorem stepRaises (stack : List Decimal) (e : Element) :
    Raises (EvaluationFault p (some most) stack [e]) (evaluateStep p (some most) stack e) := by
  refine stepErrors (fun _ => .refusal (by simp [Refusal.OfEvaluation, Refusal.category])) ?_
  rintro symbol right left below rfl rfl
  exact applySymbolRaises symbol left right below

theorem runRaises (stack : List Decimal) (elements : List Element) :
    Raises (EvaluationFault p (some most) stack elements)
      (elements.foldlM (evaluateStep p (some most)) stack) := by
  induction elements generalizing stack with
  | nil => exact raisesOk stack
  | cons e elements ih =>
    intro f fails
    rw [List.foldlM_cons] at fails
    cases step : evaluateStep p (some most) stack e with
    | error g =>
      rw [step] at fails
      cases fails
      exact (stepRaises stack e _ step).first elements
    | ok between =>
      rw [step] at fails
      exact .later step (ih between f fails)

theorem evaluateRaises (p : Precision) (most : Int) (elements : List Element) :
    Raises (EvaluationFault p (some most) [] elements) (evaluatePostfix p (some most) elements) :=
  evaluateErrors (fun _ => .refusal (by simp [Refusal.OfEvaluation, Refusal.category])) (runRaises [] elements)

theorem powerEscapes {f : Fault} (meets : MeetsPower p limit operands [] elements)
    (fails : ∀ base exponent, operands base exponent → power p limit base exponent = .error f)
    (unsignalled : ∀ s, f ≠ .signal s) : evaluatePostfix p limit elements = .error f := by
  obtain ⟨before, after, base, exponent, below, rfl, reached, holds⟩ := meets
  have outcome : Operator.power.outcome p limit base exponent = .error f :=
    Operator.outcomeUnsignalled (fails base exponent holds) unsignalled
  have step : evaluateStep p limit (exponent :: base :: below) (.operator "^") = .error f := by
    show (applySymbol p limit Operator.power.symbol base exponent).map _ = _
    rw [applySymbolSymbol, outcome]
    rfl
  simp only [evaluatePostfix, List.foldlM_append, List.foldlM_cons, reached, step, bind, Except.bind]

theorem endlessEscapes (meets : MeetsPower p limit (Endless p limit) [] elements) :
    evaluatePostfix p limit elements = .error .endless :=
  powerEscapes meets (fun _ _ => powerEndless) nofun

theorem noParityEscapes (meets : MeetsPower p limit NoParity [] elements) :
    evaluatePostfix p limit elements = .error .infiniteWhole :=
  powerEscapes meets (fun _ _ => powerNoParity p limit) nofun

theorem untoldEscapes (meets : MeetsPower p limit (Untold limit) [] elements) :
    evaluatePostfix p limit elements = .error .numberTooLong :=
  powerEscapes meets (fun _ _ => powerUntold p) nofun

def Answered (outcome : Except Fault Decimal) : Prop :=
  (∃ d, outcome = .ok d) ∨ ∃ r, outcome = .error (.refusal r) ∧ r.OfEvaluation

theorem notAnswered {f : Fault} {outcome : Except Fault Decimal} (failed : outcome = .error f)
    (unrefused : ∀ r, f ≠ .refusal r) : ¬ Answered outcome := by
  rw [failed]
  rintro (⟨d, found⟩ | ⟨r, refused, _⟩)
  · cases found
  · exact unrefused r (Except.error.inj refused)

/-- An evaluation in which the multiplication of every power ends comes to a number or is refused for one of its
reasons, whatever the operands are, exactly if it gets neither to a power of minus one to infinity nor to a power
that a limit too long to be told would refuse. If it gets to one of these, the fault of that power leaves the
evaluation as it is: the parity of an infinite exponent, or a number too long. -/
theorem evaluateAnswered {elements : List Element}
    (ends : ¬ MeetsPower p (some most) (Endless p (some most)) [] elements) :
    (Answered (evaluatePostfix p (some most) elements) ↔ ¬ MeetsPower p (some most) NoParity [] elements ∧
        ¬ MeetsPower p (some most) (Untold (some most)) [] elements) ∧
      (MeetsPower p (some most) NoParity [] elements →
        evaluatePostfix p (some most) elements = .error .infiniteWhole) ∧
      (MeetsPower p (some most) (Untold (some most)) [] elements →
        evaluatePostfix p (some most) elements = .error .numberTooLong) := by
  refine ⟨⟨fun answered => ⟨fun meets => ?_, fun meets => ?_⟩, fun ⟨parity, told⟩ => ?_⟩, noParityEscapes,
    untoldEscapes⟩
  · exact notAnswered (noParityEscapes meets) nofun answered
  · exact notAnswered (untoldEscapes meets) nofun answered
  · cases outcome : evaluatePostfix p (some most) elements with
    | ok d => exact .inl ⟨d, rfl⟩
    | error f =>
      cases evaluateRaises p most elements f outcome with
      | refusal expected => exact .inr ⟨_, rfl, expected⟩
      | endless meets => exact absurd meets ends
      | infiniteWhole meets => exact absurd meets parity
      | numberTooLong meets => exact absurd meets told

theorem evaluateAnsweredNan :
    let elements : List Element := [.operand (.nan false false 7), .operand (.ofNat 3), .operator "^"]
    ¬ MeetsPower .usual (some usualExponentLimit) (Endless .usual (some usualExponentLimit)) [] elements ∧
      Answered (evaluatePostfix .usual (some usualExponentLimit) elements) := by
  intro elements
  have ends : ¬ MeetsPower .usual (some usualExponentLimit) (Endless .usual (some usualExponentLimit)) []
      elements := by
    intro meets
    have outcome : evaluatePostfix .usual (some usualExponentLimit) elements = .ok (.nan false false 7) := by
      decide +kernel
    cases outcome.symm.trans (endlessEscapes meets)
  refine ⟨ends, (evaluateAnswered ends).1.mpr ⟨?_, ?_⟩⟩
  · rw [meetsPowerOnly]
    rintro ⟨_, infinite⟩
    cases infinite
  · rw [meetsPowerOnly]
    intro untold
    obtain ⟨most, limit, long, _⟩ := untold.above
    cases limit
    cases long

theorem evaluateUnanswered :
    let elements : List Element := [.operand (.finite true 1 0), .operand (.infinite false), .operator "^"]
    ¬ MeetsPower .usual (some usualExponentLimit) (Endless .usual (some usualExponentLimit)) [] elements ∧
      ¬ Answered (evaluatePostfix .usual (some usualExponentLimit) elements) := by
  intro elements
  have outcome : evaluatePostfix .usual (some usualExponentLimit) elements = .error .infiniteWhole := by
    decide +kernel
  refine ⟨fun meets => ?_, notAnswered outcome nofun⟩
  cases outcome.symm.trans (endlessEscapes meets)

end Reckon
