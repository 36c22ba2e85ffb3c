import Reckon.Proofs.Postfix.Raises
/-! Evaluations in which every symbol is that of an operator: none of them is refused for an operator that is not
known. -/
namespace Reckon
open Decimal
variable {p : Precision} {limit : Option Int} {elements : List Element}

def Element.Known : Element → Prop
  | .operand _ => True
  | .operator symbol => ∃ o : Operator, o.symbol = symbol

def Fault.OfKnown (f : Fault) : Prop := ∀ r, f = .refusal r → r.category ≠ .unknownOperator

theorem signalOfKnown (s : Signal) : (Fault.signal s).OfKnown := nofun

theorem refusalOfKnown {r : Refusal} (other : r.category ≠ .unknownOperator) : (Fault.refusal r).OfKnown := by
  rintro _ ⟨⟩
  exact other

namespace Decimal
variable {base exponent : Decimal}

theorem multiplyDownOfKnown {result remaining : Decimal} (rounds : Nat) :
    Raises Fault.OfKnown (multiplyDown p base rounds result remaining) := by
  intro f fails
  obtain rfl | ⟨s, rfl, _⟩ := multiplyDownRaises rounds f fails
  · exact nofun
  · exact signalOfKnown s

theorem minusOneToOfKnown : Raises Fault.OfKnown (minusOneTo exponent) := by
  unfold minusOneTo
  split
  · exact raisesOk _
  · exact raisesError nofun

theorem checkLimitOfKnown (limit : Option Int) : Raises Fault.OfKnown (checkLimit limit base exponent) := by
  cases limit with
  | none => exact raisesOk ()
  | some most =>
    refine (orFaultRaises (fun s _ => signalOfKnown s) lessRaises).bind fun above _ => ?_
    cases above with
    | false => exact raisesOk ()
    | true =>
      refine raisesError ?_
      unfold aboveLimit
      split
      · exact nofun
      · exact refusalOfKnown nofun

theorem powerOfKnown (p : Precision) (limit : Option Int) (base exponent : Decimal) :
    Raises Fault.OfKnown (power p limit base exponent) :=
  powerStages (fun s _ => signalOfKnown s) (refusalOfKnown nofun)
    (fun _ _ => minusOneToOfKnown) (fun _ => checkLimitOfKnown limit) (fun _ => multiplyDownOfKnown _)

end Decimal

theorem Operator.outcomeOfKnown (o : Operator) (left right : Decimal) :
    Raises Fault.OfKnown (o.outcome p limit left right) :=
  o.outcomeErrors (refusalOfKnown nofun) (refusalOfKnown nofun)
    fun _ f fails => .inr (powerOfKnown p limit left right f fails)

theorem stepOfKnown {e : Element} (known : e.Known) (stack : List Decimal) :
    Raises Fault.OfKnown (evaluateStep p limit stack e) := by
  refine stepErrors (fun _ => refusalOfKnown nofun) ?_
  rintro _ right left below rfl rfl
  obtain ⟨o, rfl⟩ := known
  rw [applySymbolSymbol]
  exact o.outcomeOfKnown left right

theorem runOfKnown (known : ∀ e ∈ elements, e.Known) (stack : List Decimal) :
    Raises Fault.OfKnown (elements.foldlM (evaluateStep p limit) stack) := by
  induction elements generalizing stack with
  | nil => exact raisesOk stack
  | cons e elements ih =>
    obtain ⟨first, others⟩ := List.forall_mem_cons.mp known
    exact (stepOfKnown first stack).bind fun between _ => ih others between

theorem evaluateOfKnown (known : ∀ e ∈ elements, e.Known) :
    Raises Fault.OfKnown (evaluatePostfix p limit elements) :=
  evaluateErrors (fun _ => refusalOfKnown nofun) (runOfKnown known [])

end Reckon
