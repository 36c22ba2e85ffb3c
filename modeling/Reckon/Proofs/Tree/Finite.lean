import Reckon.Proofs.Decimal.Held
import Reckon.Proofs.Decimal.Power
import Reckon.Proofs.Tree.Value
/-! Operators on finite numbers, and trees of them: a value is finite, and the precision can hold what comes
of an operator. -/
namespace Reckon
open Decimal
variable {p : Precision} {limit : Option Int} {a b : Decimal}

namespace Operator
variable {o : Operator} {v : Decimal}

theorem divideCases (p : Precision) (limit : Option Int) (a : Decimal) (right : b.isFinite = true) :
    (b.rational = 0 ∧ divide.apply p limit a b = .error (.refusal (.divisionByZero a b))) ∨
      b.rational ≠ 0 ∧ divide.apply p limit a b = orFault (div p a b) := by
  have question := equalRational (b := zero) right rfl
  rw [rationalZero] at question
  by_cases zeroDivisor : b.rational = 0
  · rw [decide_eq_true zeroDivisor] at question
    refine .inl ⟨zeroDivisor, ?_⟩
    simp only [apply, question]
    rfl
  · rw [decide_eq_false zeroDivisor] at question
    refine .inr ⟨zeroDivisor, ?_⟩
    simp only [apply, question]
    rfl

theorem roundingHeld {x : ℚ} {outcome : Except Signal Decimal} (rounding : Rounding p x outcome)
    (found : orFault outcome = .ok v) : v.Held p := by
  rw [signalOk found] at rounding
  exact rounding.held

theorem powerHeld (left : a.isFinite = true) (right : b.isFinite = true)
    (found : Decimal.power p limit a b = .ok v) : v.Held p := by
  cases powerCase p limit left right with
  | notCount noCount outcome => cases outcome.symm.trans found
  | zero count outcome =>
    cases outcome.symm.trans found
    exact unitHeld p false
  | simple n count nonzero value outcome => exact roundingHeld (plusRounding left) (outcome.symm.trans found)
  | minusOne n count value outcome =>
    cases outcome.symm.trans found
    split
    · exact unitHeld p false
    · exact unitHeld p true
  | above n most count limited more proper outcome => cases outcome.symm.trans found
  | loop n count whole nonzero proper within outcome =>
    exact multiplyDownHeld left (unitHeld p false) (outcome.symm.trans found)

theorem applyHeld (left : a.isFinite = true) (right : b.isFinite = true)
    (found : o.apply p limit a b = .ok v) : v.Held p := by
  cases o with
  | plus => exact roundingHeld (addRounding right left) found
  | minus => exact roundingHeld (subRounding left right) found
  | times => exact roundingHeld (mulRounding right left) found
  | divide =>
    obtain ⟨_, refused⟩ | ⟨nonzero, divided⟩ := divideCases p limit a right
    · cases refused.symm.trans found
    · obtain ⟨x, rounding⟩ := divRounds (p := p) left right nonzero
      exact roundingHeld rounding (divided.symm.trans found)
  | power => exact powerHeld left right found

theorem outcomeHeld (left : a.isFinite = true) (right : b.isFinite = true)
    (found : o.outcome p limit a b = .ok v) : v.Held p := by
  unfold outcome at found
  split at found
  · cases found
  · cases found
  · exact applyHeld left right found

end Operator

theorem Tree.valueFinite {t : Tree Decimal} {v : Decimal}
    (leaves : ∀ d, .operand d ∈ t.postorder → d.isFinite = true) (h : t.value p limit = .ok v) :
    v.isFinite = true := by
  induction t generalizing v with
  | leaf d =>
    cases h
    exact leaves d (List.mem_singleton.mpr rfl)
  | node o left right ihLeft ihRight =>
    obtain ⟨a, b, first, second, result⟩ := valueOfNode h
    have leftFinite := ihLeft (fun d member => leaves d (by simp [postorder, member])) first
    have rightFinite := ihRight (fun d member => leaves d (by simp [postorder, member])) second
    exact (Operator.outcomeHeld leftFinite rightFinite result).isFinite

theorem Tree.valueHeld {o : Operator} {left right : Tree Decimal} {v : Decimal}
    (leaves : ∀ d, .operand d ∈ (node o left right).postorder → d.isFinite = true)
    (h : (node o left right).value p limit = .ok v) : v.Held p := by
  obtain ⟨a, b, first, second, result⟩ := valueOfNode h
  have leftFinite := valueFinite (fun d member => leaves d (by simp [postorder, member])) first
  have rightFinite := valueFinite (fun d member => leaves d (by simp [postorder, member])) second
  exact Operator.outcomeHeld leftFinite rightFinite result

end Reckon
