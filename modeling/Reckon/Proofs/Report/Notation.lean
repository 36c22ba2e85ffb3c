import Reckon.Proofs.Phrase.PairSum
import Reckon.Proofs.Report.Certified
/-! Words are only another way of writing: the tokens of a report have operators by symbol and numbers in
digits, and written out with a space between them they are read as themselves. -/
namespace Reckon
open Token

namespace Token

theorem digitsFit (n : ℕ) : Fits ⟨.number, Text.natText n⟩ := by
  refine ⟨by simp [Text.natText, Decimal.writtenPresent], ?_, fun single => nomatch single⟩
  intro c member
  rw [Text.natText, String.toList_ofList] at member
  exact classOfDigit (.inl (Text.writtenDigits member))

theorem symbolFits (o : Operator) : Fits ⟨.operator, o.symbol⟩ := by
  cases o <;> decide

end Token

namespace Phrase

theorem itemFits {ts : List Token} (fits : ∀ t ∈ ts, t.Fits) (modest : Modest ts) {item : Item}
    (member : item ∈ stream #[] ts) : item.token.Fits := by
  cases streamSource member with
  | folded words =>
    rw [Item.token, modest.folded member, Decimal.textOfNat]
    exact digitsFit _
  | passed inside part =>
    obtain ⟨_, rfl⟩ | ⟨o, rfl⟩ := ofBarrier part
    · exact fits _ inside
    · exact symbolFits o
  | unknown inside part =>
    obtain ⟨rfl, _⟩ := ofUnknown part
    exact fits _ inside

end Phrase

namespace Report
variable {s : Settings} {text : String} {r : Report}

def rewritten (r : Report) : String := " ".intercalate (r.tokens.map (·.lexeme))

/-- If no phrase of a text comes to ten to the 28 or more, the tokens of its report, written out with a space
between them, have a report as well, and it says the same. -/
theorem wordsAreNotation (made : Report.of s text = .ok r) (modest : Phrase.Modest (munch text.toList)) :
    Report.of s r.rewritten = .ok { r with expression := r.rewritten } := by
  obtain ⟨i, taken, evaluated, common, texts, tokens⟩ := ofOk made
  obtain ⟨readable, stream⟩ := takeInStream taken
  rw [← tokens] at stream
  have fits : ∀ t ∈ r.tokens, t.Fits := by
    intro t member
    rw [stream] at member
    obtain ⟨item, passed, rfl⟩ := List.mem_map.mp member
    exact Phrase.itemFits (munchedWhole readable).fits modest passed
  have spaced : Spaced r.tokens r.rewritten.toList := by
    rw [rewritten, joinedIntercalate]
    exact spacedJoined fits
  -- No word that is left is in a dictionary, so that the tokens pass unchanged.
  have again : (Phrase.stream #[] (munch r.rewritten.toList)).map Phrase.Item.token = r.tokens := by
    rw [spaced.munch]
    exact Phrase.streamForeign (stream ▸ Phrase.passedForeign #[] (munch text.toList))
  obtain ⟨ordered, _⟩ := takeInRecorded taken
  rw [← tokens, ← again] at ordered
  obtain ⟨j, retaken, output⟩ := takeInOrdered spaced.readable ordered
  have record := (takeInStream retaken).2.trans again
  rw [ofTakenIn retaken, output, evaluated]
  simp only [common, record, texts]

theorem wordsAreNotationHundred :
    ∃ r, Report.of .usual "two and HUNDRED plus so (3)" = .ok r ∧ r.rewritten = "and 200 + so ( 3 )" ∧
      Report.of .usual r.rewritten = .ok { r with expression := r.rewritten } := by
  let r : Report := ⟨"two and HUNDRED plus so (3)", .ofNat 203, "203", ["200", "3", "+"],
    [⟨.word, "and"⟩, ⟨.number, "200"⟩, ⟨.operator, "+"⟩, ⟨.word, "so"⟩, ⟨.openParen, "("⟩, ⟨.number, "3"⟩,
      ⟨.closeParen, ")"⟩]⟩
  have made : Report.of .usual "two and HUNDRED plus so (3)" = .ok r := by decide +kernel
  have modest : Phrase.Modest (munch "two and HUNDRED plus so (3)".toList) := by decide +kernel
  exact ⟨r, made, by decide, wordsAreNotation made modest⟩

end Report
end Reckon
