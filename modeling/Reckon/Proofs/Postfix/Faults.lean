import Reckon.Proofs.Postfix.Raises
import Reckon.Proofs.Tree.Finite
/-! What can stop the evaluation of a postfix sequence of finite operands: a refusal, a power whose
multiplication has no end, or a power that a limit too long to be told would refuse. -/
namespace Reckon
open Decimal
variable {p : Precision} {limit : Option Int} {most : Int} {stack after : List Decimal} {e : Element}
  {elements : List Element}

def AllFinite (stack : List Decimal) : Prop := ∀ d ∈ stack, d.isFinite = true

theorem stepFinite (stackFinite : AllFinite stack) (finite : ∀ d, e = .operand d → d.isFinite = true)
    (step : evaluateStep p limit stack e = .ok after) : AllFinite after := by
  cases e with
  | operand d =>
    cases step
    exact List.forall_mem_cons.mpr ⟨finite d rfl, stackFinite⟩
  | operator symbol =>
    match stack with
    | [] => cases step
    | [single] => cases step
    | right :: left :: below =>
      obtain ⟨v, applied, rfl⟩ := mapOk step
      obtain ⟨rightFinite, leftFinite, belowFinite⟩ := by
        simpa only [AllFinite, List.forall_mem_cons] using stackFinite
      refine List.forall_mem_cons.mpr ⟨?_, belowFinite⟩
      cases known : Operator.ofSymbol? symbol with
      | none => simp [applySymbol, known] at applied
      | some o =>
        obtain rfl := Operator.symbolOfSymbol known
        rw [applySymbolSymbol] at applied
        exact (Operator.outcomeHeld leftFinite rightFinite applied).isFinite

theorem runFinite (stackFinite : AllFinite stack) (finite : ∀ d, .operand d ∈ elements → d.isFinite = true)
    (run : elements.foldlM (evaluateStep p limit) stack = .ok after) : AllFinite after := by
  induction elements generalizing stack with
  | nil =>
    cases run
    exact stackFinite
  | cons e elements ih =>
    rw [List.foldlM_cons] at run
    obtain ⟨between, step, rest⟩ := bindOk run
    have first : ∀ d, e = .operand d → d.isFinite = true := by
      rintro d rfl
      exact finite d List.mem_cons_self
    exact ih (stepFinite stackFinite first step) (fun d member => finite d (List.mem_cons_of_mem _ member)) rest

theorem finiteParity (finite : ∀ d, .operand d ∈ elements → d.isFinite = true) :
    ¬ MeetsPower p limit NoParity [] elements := by
  rintro ⟨before, after, base, exponent, below, rfl, reached, _, rfl⟩
  have stackFinite := runFinite (List.forall_mem_nil _)
    (fun d member => finite d (List.mem_append_left _ member)) reached
  cases stackFinite _ List.mem_cons_self

theorem evaluateFault {f : Fault} (finite : ∀ d, .operand d ∈ elements → d.isFinite = true)
    (fails : evaluatePostfix p (some most) elements = .error f) :
    (∃ r, f = .refusal r) ∨ MeetsPower p (some most) (Endless p (some most)) [] elements ∨
      MeetsPower p (some most) (Untold (some most)) [] elements := by
  cases evaluateRaises p most elements f fails with
  | refusal expected => exact .inl ⟨_, rfl⟩
  | endless meets => exact .inr (.inl meets)
  | infiniteWhole meets => exact absurd meets (finiteParity finite)
  | numberTooLong meets => exact .inr (.inr meets)

end Reckon
