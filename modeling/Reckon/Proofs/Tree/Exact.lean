import Reckon.Proofs.Decimal.ExactPower
import Reckon.Proofs.Tree.Finite
/-! Trees whose value is exact: if the precision can hold what each operator comes to, nothing is rounded. -/
namespace Reckon
open Decimal

namespace Operator

/- What an operator comes to without any rounding. A power is of a whole exponent that is not negative; if
its base is not zero or of size one, the exponent is at most ten to the precision and within the limit. -/

inductive Exactly (p : Precision) (limit : Option Int) : Operator → ℚ → ℚ → ℚ → Prop where
  | plus (x y : ℚ) : Exactly p limit .plus x y (x + y)
  | minus (x y : ℚ) : Exactly p limit .minus x y (x - y)
  | times (x y : ℚ) : Exactly p limit .times x y (x * y)
  | divide {x y : ℚ} (nonzero : y ≠ 0) : Exactly p limit .divide x y (x / y)
  | power {x y : ℚ} (n : ℕ) (count : y = n)
      (few : x = 0 ∨ x = 1 ∨ x = -1 ∨ n ≤ tenTo p.digits ∧ ∀ most ∈ limit, (n : ℤ) ≤ most) :
      Exactly p limit .power x y (x ^ n)

end Operator

inductive Tree.Exactly (p : Precision) (limit : Option Int) : Tree Decimal → ℚ → Prop where
  | leaf {d : Decimal} {x : ℚ} (finite : d.isFinite = true) (value : d.rational = x) :
      Exactly p limit (.leaf d) x
  | node {o : Operator} {left right : Tree Decimal} {x y v : ℚ} (first : Exactly p limit left x)
      (second : Exactly p limit right y) (comes : o.Exactly p limit x y v)
      (held : Representable p |v|) (within : |v| < ceiling) : Exactly p limit (.node o left right) v

variable {p : Precision} {limit : Option Int} {a b : Decimal} {x y v : ℚ}

namespace Operator

theorem outcomeOfOk {o : Operator} {d : Decimal} (h : o.apply p limit a b = .ok d) :
    o.outcome p limit a b = .ok d := by
  unfold outcome
  rw [h]

theorem exactRounding {o : Operator} {outcome : Except Signal Decimal}
    (applied : o.apply p limit a b = orFault outcome) (rounding : Rounding p v outcome)
    (held : Representable p |v|) (within : |v| < ceiling) :
    ∃ d, o.outcome p limit a b = .ok d ∧ d.isFinite = true ∧ d.rational = v := by
  obtain ⟨d, rfl, finite, value⟩ := exactOfHeld rounding held within
  exact ⟨d, outcomeOfOk applied, finite, value⟩

theorem exactOutcome {o : Operator} (admitted : (p.digits : ℤ) ≤ Precision.limit)
    (left : a.isFinite = true) (right : b.isFinite = true) (leftValue : a.rational = x)
    (rightValue : b.rational = y) (comes : o.Exactly p limit x y v) (held : Representable p |v|)
    (within : |v| < ceiling) :
    ∃ d, o.outcome p limit a b = .ok d ∧ d.isFinite = true ∧ d.rational = v := by
  cases comes with
  | plus =>
    have rounding := addRounding (p := p) right left
    rw [add_comm, leftValue, rightValue] at rounding
    exact exactRounding rfl rounding held within
  | minus =>
    have rounding := subRounding (p := p) left right
    rw [leftValue, rightValue] at rounding
    exact exactRounding rfl rounding held within
  | times =>
    have rounding := mulRounding (p := p) right left
    rw [mul_comm, leftValue, rightValue] at rounding
    exact exactRounding rfl rounding held within
  | divide nonzero =>
    rw [← leftValue, ← rightValue] at held within ⊢
    rw [← rightValue] at nonzero
    have ⟨k, q, size, few, _⟩ := held
    have rounding := divRounding left right nonzero size few
    obtain ⟨isZero, _⟩ | ⟨_, divided⟩ := divideCases p limit a right
    · exact absurd isZero nonzero
    · exact exactRounding divided rounding held within
  | power n count few =>
    rw [← leftValue] at few held within ⊢
    obtain ⟨d, found, finite, value⟩ := powerExact admitted left right
      (rightValue.trans count) few held within
    exact ⟨d, outcomeOfOk found, finite, value⟩

end Operator

theorem Tree.evaluationIsExact {t : Tree Decimal} (admitted : (p.digits : ℤ) ≤ Precision.limit)
    (exactly : t.Exactly p limit x) :
    ∃ d, evaluatePostfix p limit t.postorder = .ok d ∧ d.isFinite = true ∧ d.rational = x := by
  rw [Tree.evaluateTree]
  induction exactly with
  | @leaf d x finite value => exact ⟨d, rfl, finite, value⟩
  | node first second comes held within ihFirst ihSecond =>
    obtain ⟨a, leftFound, leftFinite, leftValue⟩ := ihFirst
    obtain ⟨b, rightFound, rightFinite, rightValue⟩ := ihSecond
    obtain ⟨d, outcome, finite, value⟩ := Operator.exactOutcome admitted leftFinite rightFinite leftValue
      rightValue comes held within
    refine ⟨d, ?_, finite, value⟩
    simp only [Tree.value, leftFound, rightFound, bind, Except.bind, outcome]

theorem Tree.evaluationIsExactNine :
    ∃ d, evaluatePostfix ⟨3, by decide⟩ (some usualExponentLimit)
        [.operand (.finite false 1500 (-3)), .operand (.finite false 2 0), .operator "^",
          .operand (.finite false 25 (-2)), .operator "/"] = .ok d ∧
      d.isFinite = true ∧ d.rational = 9 := by
  let p : Precision := ⟨3, by decide⟩
  let limit := some (usualExponentLimit : ℤ)
  have base : (Tree.leaf (.finite false 1500 (-3))).Exactly p limit (3 / 2) :=
    .leaf rfl (by norm_num [rational, scaled])
  have exponent : (Tree.leaf (.finite false 2 0)).Exactly p limit 2 :=
    .leaf rfl (by norm_num [rational, scaled])
  have divisor : (Tree.leaf (.finite false 25 (-2))).Exactly p limit (1 / 4) :=
    .leaf rfl (by norm_num [rational, scaled])
  have small : (10 : ℚ) ^ (1 : ℤ) ≤ ceiling := tenMono (by decide)
  rw [zpow_one] at small
  have square : (Tree.node .power (.leaf (.finite false 1500 (-3))) (.leaf (.finite false 2 0))).Exactly
      p limit ((3 / 2) ^ 2) := by
    refine .node base exponent (.power 2 (by norm_num) ?_) ?_ ?_
    · exact .inr (.inr (.inr ⟨by decide, by simp [limit, usualExponentLimit]⟩))
    · exact ⟨225, -2, by norm_num [abs_of_pos], by decide, by decide⟩
    · exact (by norm_num [abs_of_pos] : |((3 : ℚ) / 2) ^ 2| < 10).trans_le small
  have nine : ((3 : ℚ) / 2) ^ 2 / (1 / 4) = 9 := by norm_num
  have quotient : (Tree.node .divide (.node .power (.leaf (.finite false 1500 (-3)))
      (.leaf (.finite false 2 0))) (.leaf (.finite false 25 (-2)))).Exactly p limit 9 := by
    refine .node square divisor (nine ▸ .divide (by norm_num)) ?_ ?_
    · exact ⟨9, 0, by norm_num, by decide, by decide⟩
    · exact (by norm_num : |(9 : ℚ)| < 10).trans_le small
  exact Tree.evaluationIsExact (by decide) quotient

end Reckon
