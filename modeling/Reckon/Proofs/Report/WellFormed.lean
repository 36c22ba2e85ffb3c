import Reckon.Proofs.Chain.Grammar
import Reckon.Proofs.Report.Recorded
import Reckon.Proofs.Tree.Value
/-! Which expressions a report can be about. -/
namespace Reckon
open Token

/-- The tokens of a report have their parentheses balanced and one number more than operators. They are
a well-formed infix expression exactly if no operand stands directly after another. -/
theorem Report.wellFormedApart {s : Settings} {text : String} {r : Report}
    (made : Report.of s text = .ok r) :
    depthAfter? 0 r.tokens = some 0 ∧ numbers r.tokens = operators r.tokens + 1 ∧
      ((∃ c : Chain, c.Spelt r.tokens) ↔ Apart (r.tokens.filterMap sense?)) := by
  obtain ⟨elements, ordered, _, evaluated⟩ := ofRecorded made
  obtain ⟨t, rfl, _⟩ := Tree.treeOfEvaluated evaluated
  have counts := Tree.operandsOfPostorder t
  obtain ⟨depth, operands, signs⟩ := Yard.orderTally ordered
  exact ⟨depth, by omega, speltApart ordered counts⟩

theorem Report.wellFormedGroup :
    ∃ r, Report.of .usual "two and + (3 - 1)" = .ok r ∧ ∃ c : Chain, c.Spelt r.tokens := by
  let r : Report := ⟨"two and + (3 - 1)", .ofNat 4, "4", ["2", "3", "1", "-", "+"],
    [⟨.word, "and"⟩, ⟨.number, "2"⟩, ⟨.operator, "+"⟩, ⟨.openParen, "("⟩, ⟨.number, "3"⟩,
      ⟨.operator, "-"⟩, ⟨.number, "1"⟩, ⟨.closeParen, ")"⟩]⟩
  have made : Report.of .usual "two and + (3 - 1)" = .ok r := by decide +kernel
  obtain ⟨_, _, spelt⟩ := Report.wellFormedApart made
  have apart : Apart (r.tokens.filterMap sense?) := by
    unfold Apart
    decide
  exact ⟨r, made, spelt.mpr apart⟩

/- Operands may stand side by side as long as there are operators enough for them, wherever these are. -/

theorem Report.operandsBeside :
    ∃ r, Report.of .usual "1 2 +" = .ok r ∧ r.formatted = "3" ∧ ¬ ∃ c : Chain, c.Spelt r.tokens := by
  let r : Report := ⟨"1 2 +", .ofNat 3, "3", ["1", "2", "+"],
    [⟨.number, "1"⟩, ⟨.number, "2"⟩, ⟨.operator, "+"⟩]⟩
  have made : Report.of .usual "1 2 +" = .ok r := by decide +kernel
  refine ⟨r, made, rfl, ?_⟩
  rintro ⟨c, spelt⟩
  have tokens : r.tokens = c.tokens := spelt
  have formed := c.formed
  rw [← tokens] at formed
  exact formed

end Reckon
