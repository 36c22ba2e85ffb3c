import Reckon.Proofs.Tree.Finite
/-! What the precision can represent. Operands are pushed as they are, whatever their length, and every
operator makes a number that the precision holds. -/
namespace Reckon
open Decimal
variable {p : Precision} {limit : Option Int} {d v : Decimal} {elements : List Element}

theorem Decimal.Held.represented (held : d.Held p) :
    ∃ s c e, d = .finite s c e ∧ digitCount c ≤ p.digits ∧
      (c ≠ 0 → e + digitCount c - 1 ≤ 999999) ∧ -999999 - (p.digits : ℤ) + 1 ≤ e := by
  cases held with
  | @finite s c e few above below => exact ⟨s, c, e, rfl, (digitCountLe p.pos).mpr few, below, above⟩

theorem evaluationRepresented (finite : ∀ d, .operand d ∈ elements → d.isFinite = true)
    (evaluated : evaluatePostfix p limit elements = .ok v) :
    ((∀ symbol, .operator symbol ∉ elements) → elements = [.operand v]) ∧
      ∀ symbol, .operator symbol ∈ elements →
        ∃ s c e, v = .finite s c e ∧ digitCount c ≤ p.digits ∧
          (c ≠ 0 → e + digitCount c - 1 ≤ 999999) ∧ -999999 - (p.digits : ℤ) + 1 ≤ e := by
  obtain ⟨t, rfl, value⟩ := Tree.treeOfEvaluated evaluated
  cases t with
  | leaf operand =>
    cases value
    exact ⟨fun _ => rfl, fun symbol member => by simp [Tree.postorder] at member⟩
  | node o left right =>
    have last : .operator o.symbol ∈ (Tree.node o left right).postorder := by simp [Tree.postorder]
    exact ⟨fun noOperator => absurd last (noOperator o.symbol), fun _ _ => (Tree.valueHeld finite value).represented⟩

theorem evaluationRepresentedDoubled :
    evaluatePostfix ⟨3, by decide⟩ none
      [.operand (.finite false 12345 (-3)), .operand (.finite false 2 0), .operator "*"] =
        .ok (.finite false 247 (-1)) ∧
      ∃ s c e, (.finite false 247 (-1) : Decimal) = .finite s c e ∧ digitCount c ≤ 3 ∧
        (c ≠ 0 → e + digitCount c - 1 ≤ 999999) ∧ -999999 - (3 : ℤ) + 1 ≤ e := by
  have doubled : evaluatePostfix ⟨3, by decide⟩ none
      [.operand (.finite false 12345 (-3)), .operand (.finite false 2 0), .operator "*"] =
        .ok (.finite false 247 (-1)) := rfl
  refine ⟨doubled, (evaluationRepresented ?_ doubled).2 "*" (by simp)⟩
  intro d member
  simp only [List.mem_cons, Element.operand.injEq, reduceCtorEq, List.not_mem_nil, or_false] at member
  rcases member with rfl | rfl <;> rfl

end Reckon
